import SqlMigration.Proofs.Token.Rereading

/-! # Significant tokens written one after the other

The significant tokens of an expression are written with no space between them, except after a
comma. They are read back if and only if each of them is read as itself in front of the others. To
see that nothing else can happen, count the characters that are not blank: the tokens that are read
back have all of them, so that none is left for a comment.
-/

namespace SqlMigration

open Text

/-- What stands between a token and those after it. -/
def spaceAfter (t : Token) (ts : List Token) : Text :=
  if t.kind = .comma && !ts.isEmpty then [' '] else []

/-- The texts of the tokens, with a space after each comma but one at the end. -/
def spacedText : List Token → Text
  | [] => []
  | t :: ts => t.text ++ (spaceAfter t ts ++ spacedText ts)

/-- Whether each token is read as itself in front of those after it. -/
def keptApart : List Token → Bool
  | [] => true
  | t :: ts => t.stays (spaceAfter t ts ++ spacedText ts) && keptApart ts

/-- A significant token that starts with a character that is not blank. -/
structure Token.Sharp (t : Token) : Prop where
  significant : t.isTrivia = false
  head : ∃ c s, t.text = c :: s ∧ isBlank c = false

theorem isBlank_of_mem_spaceAfter (t : Token) (ts : List Token) :
    ∀ c ∈ spaceAfter t ts, isBlank c := by
  intro c hc
  unfold spaceAfter at hc
  split at hc
  · rw [List.mem_singleton.mp hc]
    decide
  · cases hc

/-- The space that is left at the end if the last token is a comma. -/
def lastSpace (us : List Token) : Text :=
  if us.getLast?.any fun t => t.kind = .comma then [' '] else []

theorem isBlank_of_mem_lastSpace (us : List Token) : ∀ c ∈ lastSpace us, isBlank c := by
  intro c hc
  unfold lastSpace at hc
  split at hc
  · rw [List.mem_singleton.mp hc]
    decide
  · cases hc

theorem lastSpace_concat {r : Token} (hr : r.kind = .rightParen) (us : List Token) :
    lastSpace (us ++ [r]) = [] := by
  simp [lastSpace, hr]

theorem spacedText_append (us : List Token) {vs : List Token} (hvs : vs ≠ []) :
    spacedText (us ++ vs) = spacedText us ++ (lastSpace us ++ spacedText vs) := by
  induction us with
  | nil => rfl
  | cons t us ih =>
      rw [List.cons_append, spacedText, ih, spacedText, spaceAfter, spaceAfter]
      cases us with
      | nil =>
          cases vs with
          | nil => exact absurd rfl hvs
          | cons v vs => by_cases hcomma : t.kind = .comma <;> simp [hcomma, spacedText, lastSpace]
      | cons u us =>
          have hlast : lastSpace (t :: u :: us) = lastSpace (u :: us) := by simp [lastSpace]
          rw [hlast]
          by_cases hcomma : t.kind = .comma <;> simp [hcomma]

theorem isBlank_head?_spacedText {us : List Token} (hus : ∀ t ∈ us, t.Sharp) :
    ∀ c ∈ (spacedText us).head?, isBlank c = false := by
  intro c hc
  cases us with
  | nil => cases hc
  | cons t us =>
      obtain ⟨c', s, htext, hblank⟩ := (hus t List.mem_cons_self).head
      rw [spacedText, htext] at hc
      cases hc
      exact hblank

theorem spellings_cons_of_sharp {t : Token} (ht : t.Sharp) (ts : List Token) :
    spellings (t :: ts) = (t.kind, t.text) :: spellings ts := by
  have hkind : t.kind.isTrivia = false := ht.significant
  rw [spellings_cons, hkind]
  rfl

/-! ## Characters that are not blank -/

/-- The number of characters that are not blank. -/
def Text.weight (s : Text) : Nat := s.countP fun c => !isBlank c

theorem Text.weight_append (r s : Text) : weight (r ++ s) = weight r + weight s :=
  List.countP_append

theorem Text.weight_eq_zero {s : Text} (h : ∀ c ∈ s, isBlank c) : weight s = 0 :=
  List.countP_eq_zero.mpr fun c hc => by simp [h c hc]

theorem Token.Sharp.weight_pos {t : Token} (ht : t.Sharp) : 0 < t.text.weight := by
  obtain ⟨c, s, htext, hc⟩ := ht.head
  rw [htext]
  exact List.countP_pos_iff.mpr ⟨c, List.mem_cons_self, by simp [hc]⟩

/-- The texts of the spellings, one after the other. -/
def spelledText (ws : List (Kind × Text)) : Text := ws.flatMap Prod.snd

theorem weight_joinText (ts : List Token) :
    weight (joinText ts) =
      weight (spelledText (spellings ts)) + weight (joinText (ts.filter Token.isTrivia)) := by
  induction ts with
  | nil => rfl
  | cons t ts ih =>
      rw [joinText_cons, weight_append, ih, spellings_cons, List.filter_cons, Token.isTrivia]
      cases t.kind.isTrivia with
      | true =>
          simp only [if_true, List.nil_append, joinText_cons, weight_append]
          omega
      | false =>
          simp only [Bool.false_eq_true, if_false, spelledText, List.cons_append, List.nil_append,
            List.flatMap_cons, weight_append]
          omega

theorem weight_spellings_le (s : Text) :
    weight (spelledText (spellings (tokenize s))) ≤ weight s := by
  have hweight := weight_joinText (tokenize s)
  rw [tokenize, Token.joinText_read] at hweight
  rw [tokenize]
  omega

theorem weight_spacedText {ts : List Token} (hts : ∀ t ∈ ts, t.Sharp) :
    weight (spacedText ts) = weight (spelledText (spellings ts)) := by
  induction ts with
  | nil => rfl
  | cons t ts ih =>
      obtain ⟨ht, hts⟩ := List.forall_mem_cons.mp hts
      have hspelled : spelledText ((t.kind, t.text) :: spellings ts) =
          t.text ++ spelledText (spellings ts) := by simp [spelledText]
      rw [spellings_cons_of_sharp ht, hspelled, spacedText, weight_append, weight_append,
        weight_append, weight_eq_zero (isBlank_of_mem_spaceAfter t ts), Nat.zero_add, ih hts]

/-- A text that is no heavier than its significant tokens starts with one of them. -/
theorem exists_head_of_weight {c : Char} {s : Text} (hc : isBlank c = false)
    (h : weight (c :: s) ≤ weight (spelledText (spellings (tokenize (c :: s))))) :
    ∃ u us, tokenize (c :: s) = u :: us ∧ u.isTrivia = false := by
  obtain ⟨u, us, n, hread, htext⟩ :
      ∃ u us n, tokenize (c :: s) = u :: us ∧ u.text = c :: s.take n :=
    ⟨_, _, _, Token.read_cons .unicode 0 c s, rfl⟩
  refine ⟨u, us, hread, ?_⟩
  cases htrivia : u.isTrivia with
  | false => rfl
  | true =>
      have hjoin : joinText (tokenize (c :: s)) = c :: s := Token.joinText_read .unicode 0 (c :: s)
      have hweight := weight_joinText (tokenize (c :: s))
      have hpos : 0 < weight u.text := by
        rw [htext]
        exact List.countP_pos_iff.mpr ⟨c, List.mem_cons_self, by simp [hc]⟩
      rw [hjoin] at hweight
      rw [hread, List.filter_cons_of_pos htrivia, joinText_cons, weight_append, ← hread] at hweight
      omega

/-! ## Reading the tokens back -/

theorem spellings_spacedText_cons {t : Token} {ts : List Token} (ht : t.Sharp)
    (h : t.stays (spaceAfter t ts ++ spacedText ts)) :
    spellings (tokenize (spacedText (t :: ts))) =
      (t.kind, t.text) :: spellings (tokenize (spacedText ts)) := by
  obtain ⟨c, s, htext, -⟩ := ht.head
  have hkind : t.kind.isTrivia = false := ht.significant
  rw [spacedText, Token.spellings_of_stays htext h, hkind,
    Token.spellings_blank_append (isBlank_of_mem_spaceAfter t ts)]
  rfl

theorem stays_of_spellings {t : Token} {ts : List Token} (hts : ∀ u ∈ t :: ts, u.Sharp)
    (h : spellings (tokenize (spacedText (t :: ts))) = spellings (t :: ts)) :
    t.stays (spaceAfter t ts ++ spacedText ts) := by
  have ht := hts t List.mem_cons_self
  obtain ⟨c, s, htext, hc⟩ := ht.head
  have hcons : spacedText (t :: ts) = c :: (s ++ (spaceAfter t ts ++ spacedText ts)) := by
    rw [spacedText, htext, List.cons_append]
  have hweight := weight_spacedText hts
  rw [← h, hcons] at hweight
  obtain ⟨u, us, hread, hu⟩ := exists_head_of_weight hc (Nat.le_of_eq hweight)
  have hspelling : (u.kind, u.text) = (t.kind, t.text) := by
    rw [hcons, hread, spellings_cons_of_sharp ht, spellings_cons] at h
    have hkind : u.kind.isTrivia = false := hu
    rw [hkind] at h
    exact (List.cons.inj h).1
  obtain ⟨hkind, htext'⟩ := Prod.mk.inj hspelling
  have hhead : Token.read .unicode 0 (t.text ++ (spaceAfter t ts ++ spacedText ts)) = u :: us := by
    rw [htext]
    exact hread
  simp [Token.stays, hhead, hkind, htext']

/-- Tokens are read back from their spaced text if and only if each is read as itself in front of
the others. -/
theorem spellings_spacedText_iff {ts : List Token} (hts : ∀ t ∈ ts, t.Sharp) :
    spellings (tokenize (spacedText ts)) = spellings ts ↔ keptApart ts := by
  induction ts with
  | nil => simp [spacedText, keptApart, tokenize]
  | cons t ts ih =>
      have hrest : ∀ u ∈ ts, u.Sharp := fun u hu => hts u (List.mem_cons_of_mem t hu)
      have ht := hts t List.mem_cons_self
      rw [keptApart, Bool.and_eq_true_iff, ← ih hrest]
      constructor
      · intro h
        have hstays := stays_of_spellings hts h
        rw [spellings_spacedText_cons ht hstays, spellings_cons_of_sharp ht] at h
        exact ⟨hstays, (List.cons.inj h).2⟩
      · rintro ⟨hstays, h⟩
        rw [spellings_spacedText_cons ht hstays, spellings_cons_of_sharp ht, h]

theorem weight_spellings_append (us vs : List Token) :
    weight (spelledText (spellings (us ++ vs))) =
      weight (spelledText (spellings us)) + weight (spelledText (spellings vs)) := by
  rw [spellings, List.filter_append, List.map_append, spelledText, List.flatMap_append,
    weight_append]
  rfl

/-- Fewer tokens are never read as more. -/
theorem spellings_spacedText_ne {before ts after : List Token} {t : Token}
    (h : ∀ u ∈ before ++ (ts ++ t :: after), u.Sharp) :
    spellings (tokenize (spacedText ts)) ≠ spellings (before ++ (ts ++ t :: after)) := by
  intro heq
  have hts : ∀ u ∈ ts, u.Sharp := fun u hu => h u (by simp [hu])
  have ht : t.Sharp := h t (by simp)
  have hle := weight_spellings_le (spacedText ts)
  have hcons : weight (spelledText (spellings (t :: after))) =
      weight t.text + weight (spelledText (spellings after)) := by
    rw [spellings_cons_of_sharp ht, spelledText, List.flatMap_cons, weight_append]
    rfl
  have hpos := ht.weight_pos
  rw [heq, weight_spacedText hts, weight_spellings_append, weight_spellings_append, hcons] at hle
  omega

theorem spellings_leftParen_cons (s : Text) :
    spellings (tokenize ('(' :: s)) = (.leftParen, ['(']) :: spellings (tokenize s) := by
  have hstays : Token.stays ⟨.leftParen, ['('], ⟨0, 0⟩⟩ s := (Token.stays_iff rfl).mpr ⟨rfl, rfl⟩
  exact Token.spellings_of_stays rfl hstays

/-- A parenthesis before the tokens is read, so that what is read is not the tokens alone. -/
theorem spellings_ne_of_leftParen {us : List Token} (hus : ∀ t ∈ us, t.isTrivia = false)
    (vs : List Token) : spellings (tokenize ('(' :: spacedText (us ++ vs))) ≠ spellings us := by
  intro h
  rw [spellings_leftParen_cons] at h
  induction us with
  | nil => cases h
  | cons t us ih =>
      obtain ⟨ht, hus⟩ := List.forall_mem_cons.mp hus
      have hkind : t.kind.isTrivia = false := ht
      rw [spellings_cons, hkind] at h
      obtain ⟨hhead, hrest⟩ := List.cons.inj h
      obtain ⟨hleft, htext⟩ := Prod.mk.inj hhead
      have hspaced : spacedText (t :: us ++ vs) = '(' :: spacedText (us ++ vs) := by
        rw [List.cons_append, spacedText, spaceAfter, ← hleft, ← htext]
        rfl
      rw [hspaced, spellings_leftParen_cons] at hrest
      exact ih hus hrest

/-! ## Where tokens start and end -/

namespace Token

/-- The kinds of tokens that are single characters, errors among them unless they run to the end of
the text. -/
def briefKinds : List Kind := [.leftParen, .rightParen, .semicolon, .error]

/-- What is taken for the token that starts with `c` before `s`: its kind, and how many characters
of `s` belong to it. -/
inductive Brief (c : Char) (s : Text) : Kind × Nat → Prop where
  | left (hc : c = '(') : Brief c s (.leftParen, 0)
  | right (hc : c = ')') : Brief c s (.rightParen, 0)
  | semicolon : Brief c s (.semicolon, 0)
  | error : Brief c s (.error, 0)
  | unended {n : Nat} (hn : s.length ≤ n) : Brief c s (.error, n)
  | other {k : Kind} {n : Nat} (hk : k ∉ briefKinds) : Brief c s (k, n)

theorem brief_delimited (c close : Char) {k : Kind} (hk : k ∉ briefKinds) (s : Text) :
    Brief c s (delimited close k s) := by
  unfold delimited
  split
  · exact .other hk
  · exact .unended (Nat.le_refl _)

theorem brief_number (c : Char) (s : Text) : Brief c s (number c s) := by
  unfold number
  split
  · exact .other (by decide)
  · refine .other ?_
    split <;> decide

theorem brief_word (c : Char) (s : Text) : Brief c s (word .unicode c s) := by
  refine .other ?_
  unfold wordKind
  split <;> simp [briefKinds]

theorem brief_pairOrSingle {c : Char} {pairs : List (Char × Kind)} {single : Kind}
    (h : (c, pairs, single) ∈ operators) (s : Text) : Brief c s (pairOrSingle pairs single s) := by
  have hall : operators.all fun o =>
      (o = ('(', [], .leftParen) || o = (')', [], .rightParen) || o.2.2 = .semicolon ||
        o.2.2 = .error || !briefKinds.contains o.2.2) &&
      o.2.1.all fun p => !briefKinds.contains p.2 := by decide
  have hop := List.all_eq_true.mp hall _ h
  simp only [Bool.and_eq_true, Bool.or_eq_true, decide_eq_true_eq, Bool.not_eq_true',
    List.all_eq_true] at hop
  obtain ⟨hsingle, hpairs⟩ := hop
  have hother {k : Kind} (hk : briefKinds.contains k = false) : k ∉ briefKinds := by simpa using hk
  rcases pairOrSingle_cases pairs single s with ⟨-, heq⟩ | ⟨d, r, k, rfl, hpair, heq⟩
  · rw [heq]
    rcases hsingle with (((hleft | hright) | rfl) | rfl) | hk
    · cases hleft
      exact .left rfl
    · cases hright
      exact .right rfl
    · exact .semicolon
    · exact .error
    · exact .other (hother hk)
  · rw [heq]
    exact .other (hother (hpairs _ hpair))

theorem brief_stringOr {c : Char} {f : Text → Kind × Nat} {s : Text} (hf : Brief c s (f s)) :
    Brief c s (stringOr f s) := by
  rw [stringOr]
  split
  · cases hlength : delimitedLength? '\'' s.tail with
    | some n =>
        simp only [delimited, hlength]
        exact .other (by decide)
    | none =>
        simp only [delimited, hlength]
        exact .unended (by rw [List.length_tail]; omega)
  · exact hf

theorem PlainScanner.brief {c : Char} {f : Text → Kind × Nat} (h : PlainScanner .unicode c f)
    (s : Text) : Brief c s (f s) := by
  cases h with
  | number _ => exact brief_number c s
  | word _ _ => exact brief_word c s
  | stray _ _ => exact .error

theorem brief_classify (c : Char) (s : Text) : Brief c s (classify .unicode c s) := by
  have hscanner := scanner_classify .unicode c
  generalize classify .unicode c = f at hscanner ⊢
  cases hscanner with
  | blank _ | atSign => exact .other (by decide)
  | dash =>
      rw [commentOrMinus]
      split <;> exact .other (by decide)
  | slash =>
      rw [commentOrSlash]
      repeat' split
      · exact .other (by decide)
      · exact .unended (Nat.le_refl _)
      · exact .other (by decide)
  | operator h => exact brief_pairOrSingle h s
  | quoted h =>
      have hall : quotes.all fun q => !briefKinds.contains q.2.2 := by decide
      exact brief_delimited _ _ (by simpa using List.all_eq_true.mp hall _ h) s
  | amount =>
      rw [amountOrStray]
      split
      · exact .other (by decide)
      · exact .error
  | point =>
      rw [numberOrDot]
      split
      · exact brief_number '.' s
      · exact .other (by decide)
  | marked _ h => exact brief_stringOr (h.brief s)
  | plain _ _ h => exact h.brief s

variable {t : Token} {r : Text}

theorem sharp_of_stays (hne : t.text ≠ []) (h : stays t r) (ht : t.isTrivia = false) : t.Sharp := by
  obtain ⟨c, s, htext⟩ := List.exists_cons_of_ne_nil hne
  refine ⟨ht, c, s, htext, ?_⟩
  cases hc : isBlank c with
  | false => rfl
  | true =>
      have hkind := ((stays_iff htext).mp h).1
      rw [kind_of_isBlank hc] at hkind
      rw [Token.isTrivia, ← hkind] at ht
      cases ht

theorem text_of_paren (hne : t.text ≠ []) (h : stays t r) :
    (t.kind = .leftParen → t.text = ['(']) ∧ (t.kind = .rightParen → t.text = [')']) := by
  obtain ⟨c, s, htext⟩ := List.exists_cons_of_ne_nil hne
  obtain ⟨hk, htake⟩ := (stays_iff htext).mp h
  have hbrief := brief_classify c (s ++ r)
  generalize classify .unicode c (s ++ r) = found at hk htake hbrief
  rw [← hk, htext, ← htake]
  cases hbrief with
  | left hc | right hc => simp [hc]
  | semicolon | error | unended _ => simp
  | other hnot => constructor <;> rintro rfl <;> exact absurd (by decide) hnot

/-- A significant token with something after it does not end with a blank character. -/
theorem isBlank_getLast?_text (hne : t.text ≠ []) (h : stays t r) (ht : t.isTrivia = false)
    (hr : r ≠ []) : ∀ c ∈ t.text.getLast?, isBlank c = false := by
  obtain ⟨-, c, s, htext, hc⟩ := sharp_of_stays hne h ht
  obtain ⟨hk, htake⟩ := (stays_iff htext).mp h
  have hbrief := brief_classify c (s ++ r)
  have hspelled := spells_classify c (s ++ r)
  rw [hk, htake, ← htext] at hspelled
  have hsingle (hs : s = []) : ∀ c ∈ t.text.getLast?, isBlank c = false := by
    intro d hd
    obtain rfl : c = d := by simpa [htext, hs] using hd
    exact hc
  generalize classify .unicode c (s ++ r) = found at hk htake hbrief
  cases hbrief with
  | left _ | right _ | semicolon | error => exact hsingle htake.symm
  | unended hn =>
      rw [List.take_of_length_le hn] at htake
      exact absurd (List.append_right_eq_self.mp htake) hr
  | other hnot =>
      have hsolid := hspelled.endsSolid_text ht (by rw [← hk]; rintro rfl; exact hnot (by decide))
        (by rw [← hk]; rintro rfl; exact hnot (by decide))
      intro d hd
      rw [endsSolid, Option.mem_def.mp hd] at hsolid
      simp only [Option.any_some, isSolid, Bool.and_eq_true] at hsolid
      simpa using hsolid.1

end Token

end SqlMigration
