import SqlMigration.Proofs.Name.Normal
import SqlMigration.Proofs.Token.Rereading

/-! # Words and quoted names, read back

A word in front of anything that cannot go on with it is one token, and so is a name between double
quotes whose own quotes are doubled.
-/

namespace SqlMigration.Token

open Text

variable {c : Char} {s r : Text}

/-- Whether a text is a word, reserved or not. -/
def spellsWord : Text → Bool
  | [] => false
  | c :: s => startsWord c && s.all (isNameChar .unicode)

/-- Whether a word ends in front of a text. An apostrophe would make it the mark of a string. -/
def endsWord (r : Text) : Bool := r.head?.all fun c => !isNameChar .unicode c && c ≠ '\''

theorem isDigit_of_startsWord (h : startsWord c) : c.isDigit = false := by
  cases hdigit : c.isDigit with
  | false => rfl
  | true =>
      simp only [startsWord, Bool.or_eq_true, decide_eq_true_eq] at h
      rcases h with (h | rfl) | rfl
      · have hapart : avoids [(48, 57)] c := avoids_of_holds (by decide +kernel) h
        simp only [avoids, CharRanges.misses, List.all_cons, List.all_nil, Bool.and_true,
          Bool.or_eq_true, decide_eq_true_eq] at hapart
        simp only [Char.isDigit, Bool.and_eq_true, decide_eq_true_eq, ge_iff_le,
          UInt32.le_iff_toNat_le] at hdigit
        have hlow : 48 ≤ c.toNat := hdigit.1
        have hhigh : c.toNat ≤ 57 := hdigit.2
        omega
      · cases hdigit
      · cases hdigit

theorem classify_word (hc : startsWord c) (hs : s.head? ≠ some '\'') :
    classify .unicode c s = word .unicode c s := by
  have hmark : c ∉ marks := by
    intro hc'
    have hall : marks.all fun d => !startsWord d := by decide
    simpa [hc] using List.all_eq_true.mp hall c hc'
  obtain ⟨f, hf, hclass⟩ := exists_plainScanner_of_not_mem hmark
    (isBlank_of_isBare (isBare_of_isNameChar (isNameChar_of_startsWord hc)))
  have hread : classify .unicode c s = f s := by
    rcases hclass with hclass | ⟨-, hclass⟩
    · rw [hclass]
    · rw [hclass, stringOr, if_neg hs]
  rw [hread]
  cases hf with
  | number hdigit => simp [isDigit_of_startsWord hc] at hdigit
  | word _ _ => rfl
  | stray _ hletter => exact absurd (hc.symm.trans hletter) (by decide)

/-- A word in front of a text that does not go on with it is read as itself. -/
theorem stays_word {t : Token} (ht : spellsWord t.text) (hkind : t.kind = wordKind t.text)
    (hr : endsWord r) : stays t r := by
  cases htext : t.text with
  | nil =>
      rw [htext] at ht
      cases ht
  | cons c s =>
      rw [htext] at ht hkind
      obtain ⟨hc, hs⟩ := Bool.and_eq_true_iff.mp ht
      have hs : ∀ d ∈ s, isNameChar .unicode d := List.all_eq_true.mp hs
      have hrun : (s ++ r).takeWhile (isNameChar .unicode) = s := by
        rw [List.takeWhile_append_of_pos hs]
        cases r with
        | nil => simp
        | cons d r =>
            have hd : isNameChar .unicode d = false := by
              simp only [endsWord, List.head?_cons, Option.all_some, Bool.and_eq_true,
                Bool.not_eq_true'] at hr
              exact hr.1
            simp [hd]
      have hhead : (s ++ r).head? ≠ some '\'' := by
        cases s with
        | nil =>
            cases r with
            | nil => simp
            | cons d r =>
                rintro ⟨⟩
                simp [endsWord] at hr
        | cons d s =>
            rintro ⟨⟩
            exact absurd (hs _ List.mem_cons_self) (by decide)
      rw [stays_iff htext, classify_word hc hhead, word, hrun]
      exact ⟨hkind.symm, List.take_left⟩

/-! ## Texts of one token -/

variable {t u : Token}

theorem exists_tokenize_eq_singleton (hne : t.text ≠ []) (h : stays t []) :
    ∃ u, tokenize t.text = [u] ∧ u.kind = t.kind ∧ u.text = t.text := by
  obtain ⟨c, s, ht⟩ := List.exists_cons_of_ne_nil hne
  obtain ⟨u, stop, hkind, htext, hread⟩ := read_of_stays ht h 0
  rw [List.append_nil, read_nil] at hread
  exact ⟨u, hread, hkind, htext⟩

theorem of_tokenize_eq_singleton (h : tokenize s = [u]) : u.text = s ∧ stays u [] := by
  have htext : u.text = s := by
    have hjoin := joinText_read .unicode 0 s
    rw [show read .unicode 0 s = [u] from h] at hjoin
    simpa [joinText] using hjoin
  refine ⟨htext, ?_⟩
  rw [stays, List.append_nil, htext, show read .unicode 0 s = [u] from h]
  simp [htext]

/-! ## Quoted names -/

/-- A quote closes at the end of a text exactly when the quotes before it come in pairs. -/
theorem delimitedLength?_quoted (s : Text) :
    delimitedLength? '"' (s ++ ['"']) = some (s.length + 1) ↔ Name.quotesPaired s := by
  fun_induction Name.quotesPaired s with
  | case1 => simp [delimitedLength?]
  | case2 s ih =>
      rw [← ih]
      simp [delimitedLength?]
  | case3 c s hpair ih =>
      by_cases hc : c = '"'
      · -- a lone quote closes the name at once, unless it is taken for half of a pair
        subst hc
        cases s with
        | nil => simp [delimitedLength?]
        | cons d s =>
            have hd : d ≠ '"' := fun hd => hpair s rfl (hd ▸ rfl)
            simp [delimitedLength?, hd]
      · rw [List.cons_append, delimitedLength?_cons_of_ne hc]
        simp [hc, ← ih]

/-- Quotes around a text make one name of it exactly when its own quotes come in pairs. -/
theorem stays_quoted_iff (ht : t.text = '"' :: (s ++ ['"'])) :
    stays t [] ∧ t.kind.isIdentifier ↔ t.kind = .doubleQuoted ∧ Name.quotesPaired s := by
  have hclassify : classify .unicode '"' (s ++ ['"']) = delimited '"' .doubleQuoted (s ++ ['"']) :=
    rfl
  rw [stays_iff ht, List.append_nil, hclassify, delimited, ← delimitedLength?_quoted]
  cases hlength : delimitedLength? '"' (s ++ ['"']) with
  | none =>
      have herror : Kind.error.isIdentifier = false := rfl
      simp only [reduceCtorEq, and_false, iff_false, not_and]
      rintro ⟨hkind, -⟩
      simp [← hkind, herror]
  | some n =>
      have hname : Kind.doubleQuoted.isIdentifier := rfl
      have hle : n ≤ (s ++ ['"']).length := delimitedLength?_le hlength
      constructor
      · rintro ⟨⟨hkind, htake⟩, -⟩
        refine ⟨hkind.symm, ?_⟩
        have hlen := congrArg List.length htake
        simp only [List.length_take, List.length_append, List.length_singleton] at hlen hle
        rw [Option.some_inj]
        omega
      · rintro ⟨hkind, hn⟩
        cases hn
        refine ⟨⟨hkind.symm, List.take_of_length_le ?_⟩, hkind ▸ hname⟩
        simp

end SqlMigration.Token
