import SqlMigration.Proofs.Token.Words

/-! # Written names, read back

A name is written without quotes where its characters allow that, and between double quotes
otherwise. Main statement: what is written is read as one identifier for the same name exactly when
the name is no keyword and has no double quote of its own, other than in pairs.
-/

namespace SqlMigration.Name

open Token

variable {s : Text}

theorem spellsWord_of_isPlain (h : isPlain s) : spellsWord s := by
  cases s with
  | nil => cases h
  | cons c s =>
      rw [isPlain, Bool.and_eq_true, List.all_cons, Bool.and_eq_true, List.all_eq_true] at h
      obtain ⟨hc, -, hs⟩ := h
      rw [spellsWord, startsWord, Bool.and_eq_true, List.all_eq_true]
      refine ⟨Bool.or_eq_true_iff.mpr (.inl hc), fun d hd => ?_⟩
      rcases Bool.or_eq_true_iff.mp (hs d hd) with hd | hd
      · exact Bool.or_eq_true_iff.mpr (.inl hd)
      · rw [of_decide_eq_true hd]
        rfl

theorem quotesPaired_of_forall_ne (h : ∀ c ∈ s, c ≠ '"') : quotesPaired s := by
  fun_induction quotesPaired s with
  | case1 => rfl
  | case2 s ih => exact absurd rfl (h _ List.mem_cons_self)
  | case3 c s hpair ih =>
      rw [ih fun d hd => h d (List.mem_cons_of_mem c hd)]
      simpa using h c List.mem_cons_self

theorem quotesPaired_of_isPlain (h : isPlain s) : quotesPaired s := by
  apply quotesPaired_of_forall_ne
  rintro c hc rfl
  cases s with
  | nil => cases hc
  | cons d s =>
      have hall := List.all_eq_true.mp (Bool.and_eq_true_iff.mp h).2 '"' hc
      exact absurd hall (by decide +kernel)

/-! ## Keywords -/

theorem isAlphabetic_of_toUpper {c : Char} (h : c.toUpper.isUpper) : Text.isAlphabetic c := by
  obtain ⟨rest, hranges⟩ : ∃ rest, Text.alphabeticRanges = (65, 90) :: (97, 122) :: rest := ⟨_, rfl⟩
  rw [Text.isAlphabetic, hranges, CharRanges.holds, CharRanges.holds]
  unfold Char.toUpper at h
  split at h
  · rename_i hlower
    have hlow : 97 ≤ c.toNat := hlower.1
    have hhigh : c.toNat ≤ 122 := hlower.2
    simp [hlow, hhigh, show 65 ≤ c.toNat by omega]
  · have hupper : c.val ≥ 'A'.val ∧ c.val ≤ 'Z'.val := of_decide_eq_true h
    have hlow : 65 ≤ c.toNat := hupper.1
    have hhigh : c.toNat ≤ 90 := hupper.2
    simp [hlow, hhigh]

theorem isPlain_of_ofText? {k : Keyword} (h : Keyword.ofText? s = some k) : isPlain s := by
  have hspellings : Keyword.spellings.all fun entry =>
      entry.1 ≠ [] && entry.1.all Char.isUpper := by decide +kernel
  obtain ⟨entry, hfind, -⟩ := Option.map_eq_some_iff.mp h
  have hmem := List.mem_of_find?_eq_some hfind
  have hword : entry.1 = s.asciiUpper := by simpa using List.find?_some hfind
  have hentry := List.all_eq_true.mp hspellings entry hmem
  rw [hword, Text.asciiUpper, Bool.and_eq_true, List.all_map, List.all_eq_true] at hentry
  obtain ⟨hne, hupper⟩ := hentry
  have hletters : ∀ c ∈ s, Text.isAlphabetic c := fun c hc => isAlphabetic_of_toUpper (hupper c hc)
  cases s with
  | nil => simp at hne
  | cons c s =>
      rw [isPlain, Bool.and_eq_true, List.all_eq_true]
      refine ⟨by simp [hletters c List.mem_cons_self], fun d hd => ?_⟩
      simp [Text.isAlphanumeric, hletters d hd]

/-! ## Reading a written name -/

theorem wordKind_isIdentifier_iff : (wordKind s).isIdentifier ↔ Keyword.ofText? s = none := by
  rw [wordKind]
  cases Keyword.ofText? s with
  | none => simp [Kind.isIdentifier, Kind.identifiers]
  | some k => simp [Kind.isIdentifier, Kind.identifiers]

/-- A written name is one identifier for that name exactly when the name is no keyword and its
quotes come in pairs. -/
theorem render_identifier_iff (s : Text) :
    (∃ u, tokenize (render s) = [u] ∧ u.kind.isIdentifier ∧ normalize u.text = normalize s) ↔
      Keyword.ofText? (normalize s) = none ∧ quotesPaired (normalize s) := by
  cases hplain : isPlain (normalize s) with
  | true =>
      have hrender : render s = normalize s := by rw [render]; simp [hplain]
      have hword := spellsWord_of_isPlain hplain
      have hne : normalize s ≠ [] := by
        rintro hnil
        rw [hnil] at hplain
        cases hplain
      obtain ⟨u, hread, hkind, htext⟩ := exists_tokenize_eq_singleton
        (t := ⟨wordKind (normalize s), normalize s, ⟨0, 0⟩⟩) hne (stays_word hword rfl rfl)
      rw [hrender, show tokenize (normalize s) = [u] from hread]
      simp [quotesPaired_of_isPlain hplain, hkind, htext, normalize_normalize,
        wordKind_isIdentifier_iff]
  | false =>
      have hrender : render s = '"' :: (normalize s ++ ['"']) := by rw [render]; simp [hplain]
      have hkeyword : Keyword.ofText? (normalize s) = none := by
        cases hk : Keyword.ofText? (normalize s) with
        | none => rfl
        | some k =>
            rw [isPlain_of_ofText? hk] at hplain
            cases hplain
      rw [hrender]
      constructor
      · rintro ⟨u, hread, hname, -⟩
        obtain ⟨htext, hstays⟩ := of_tokenize_eq_singleton hread
        exact ⟨hkeyword, ((stays_quoted_iff htext).mp ⟨hstays, hname⟩).2⟩
      · rintro ⟨-, hquotes⟩
        obtain ⟨u, hread, hkind, htext⟩ := exists_tokenize_eq_singleton
          (t := ⟨.doubleQuoted, '"' :: (normalize s ++ ['"']), ⟨0, 0⟩⟩) (List.cons_ne_nil _ _)
          ((stays_quoted_iff rfl).mpr ⟨rfl, hquotes⟩).1
        refine ⟨u, hread, by rw [hkind]; rfl, ?_⟩
        rw [htext]
        exact normalize_quoted (normal_normalize s) (isSmall_of_mem_normalize s) hquotes

/-- A quoted keyword is written as the keyword itself, and a lone quote ends the name early. -/
theorem render_misread :
    (tokenize "[select]".toList).map Token.kind = [.bracketed] ∧
      render "[select]".toList = "select".toList ∧
      (tokenize (render "[select]".toList)).map Token.kind = [.keyword .SELECT] ∧
      (tokenize "[a\"b]".toList).map Token.kind = [.bracketed] ∧
      render "[a\"b]".toList = "\"a\"b\"".toList ∧
      (tokenize (render "[a\"b]".toList)).map Token.kind =
        [.doubleQuoted, .identifier, .error] := by
  decide +kernel

end SqlMigration.Name
