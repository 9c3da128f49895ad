import SqlMigration.Proofs.Expression.Amount
import SqlMigration.Proofs.Expression.Splitting

/-! # Magnitudes

The amount of `DATEADD` is emitted, and cut as a text: one pair of parentheses comes off, and after
it a minus sign. Main statements: the words that are left of an amount, when they are a number for
themselves, and what they come to.
-/

namespace SqlMigration

open Token Text Binary64 Arithmetic

namespace Arithmetic.Laid

variable {ws : List Text} {s : Text} {c : Char}

theorem isBlank_or_mem (h : Laid ws s) (hc : c ∈ s) : isBlank c ∨ ∃ w ∈ ws, c ∈ w := by
  induction h with
  | one w => exact .inr ⟨w, List.mem_singleton_self w, hc⟩
  | more w hgap _ ih =>
      rcases List.mem_append.mp hc with hc | hc
      · exact .inr ⟨w, List.mem_cons_self, hc⟩
      rcases List.mem_append.mp hc with hc | hc
      · exact .inl (hgap c hc)
      · rcases ih hc with hblank | ⟨v, hv, hc⟩
        · exact .inl hblank
        · exact .inr ⟨v, List.mem_cons_of_mem w hv, hc⟩

/-- Words that are laid out end with the last of them. -/
theorem mem_getLast? (h : Laid ws s) (hws : ∀ w ∈ ws, w ≠ []) (hc : c ∈ s.getLast?) :
    ∃ w ∈ ws, c ∈ w := by
  induction h with
  | one w => exact ⟨w, List.mem_singleton_self w, List.mem_of_getLast? hc⟩
  | @more ws gap s w hgap h ih =>
      obtain ⟨hw, hws⟩ := List.forall_mem_cons.mp hws
      have hs : s ≠ [] := by
        cases h with
        | one => exact hws _ List.mem_cons_self
        | more v => simpa using fun hv => absurd hv (hws v List.mem_cons_self)
      rw [← List.append_assoc, List.getLast?_append, List.getLast?_eq_some_getLast hs,
        Option.some_or, ← List.getLast?_eq_some_getLast hs] at hc
      obtain ⟨v, hv, hc⟩ := ih hws hc
      exact ⟨v, List.mem_cons_of_mem w hv, hc⟩

/-- The two ends of laid words are not trimmed, and blank space around them is. -/
theorem trim_eq {words : List (Kind × Text)} {gap gap' : Text} (h : Laid (words.map Prod.snd) s)
    (hwords : ∀ u ∈ words, fits u.1 u.2) (hgap : ∀ c ∈ gap, isBlank c)
    (hgap' : ∀ c ∈ gap', isBlank c) : Text.trim (gap ++ (s ++ gap')) = s := by
  have hword : ∀ w ∈ words.map Prod.snd, w ≠ [] ∧ ∀ c ∈ w, isBlank c = false := by
    intro w hw
    obtain ⟨u, hu, rfl⟩ := List.mem_map.mp hw
    exact ⟨ne_nil_of_fits (hwords u hu), fun c hc => isBlank_of_mem_fits (hwords u hu) hc⟩
  rw [← List.append_assoc, trim, trimWhere_append hgap hgap']
  refine trimWhere_of_ends (fun c hc => ?_) fun c hc => ?_
  · generalize hws : words.map Prod.snd = ws at h hword
    cases ws with
    | nil => exact absurd rfl h.ne_nil
    | cons w ws =>
        obtain ⟨hw, hblank⟩ := hword w List.mem_cons_self
        rw [h.head?_eq hw] at hc
        exact hblank c (List.mem_of_mem_head? hc)
  · obtain ⟨w, hw, hc⟩ := h.mem_getLast? (fun w hw => (hword w hw).1) hc
    exact (hword w hw).2 c hc

theorem of_parens {words : List (Kind × Text)} (hwords : words ≠ [])
    (h : Laid ((Arithmetic.parens words).map Prod.snd) s) :
    ∃ gap t gap', s = '(' :: (gap ++ (t ++ gap') ++ [')']) ∧ (∀ c ∈ gap, isBlank c) ∧
      (∀ c ∈ gap', isBlank c) ∧ Laid (words.map Prod.snd) t := by
  rw [Arithmetic.parens, List.map_cons, List.map_append] at h
  obtain ⟨gap, t, rfl, hgap, ht⟩ := h.of_cons (by simp)
  obtain ⟨inner, gap', u, rfl, hgap', hinner, hu⟩ := ht.of_append (by simpa using hwords) (by simp)
  cases hu with
  | one => exact ⟨gap, inner, gap', by simp, hgap, hgap', hinner⟩
  | more _ _ hnil => exact absurd rfl hnil.ne_nil

end Arithmetic.Laid

namespace Expression

/-! ## Emitted amounts -/

/-- The text of a token of the kind. -/
def emitted (u : Kind × Text) : Text := tokenText ⟨u.1, u.2, ⟨0, 0⟩⟩

/-- Whether blank space is all the trivia there is. -/
def isSpaced (ts : List Token) : Bool :=
  ts.all fun t => !t.isTrivia || (t.kind = .blank && t.text.all isBlank)

theorem flatMap_of_isTrivia {ts : List Token} (hts : isSpaced ts)
    (hnil : SqlMigration.spellings ts = []) : ∀ c ∈ ts.flatMap tokenText, isBlank c := by
  intro c hc
  obtain ⟨t, ht, hc⟩ := List.mem_flatMap.mp hc
  have htrivia : t.isTrivia := by
    rw [SqlMigration.spellings, List.map_eq_nil_iff, List.filter_eq_nil_iff] at hnil
    simpa using hnil t ht
  have hblank := List.all_eq_true.mp hts t ht
  simp only [htrivia, Bool.not_true, Bool.false_or, Bool.and_eq_true, decide_eq_true_eq] at hblank
  rw [tokenText, hblank.1] at hc
  exact List.all_eq_true.mp hblank.2 c hc

/-- The emitted tokens, with the blank space around and between them. -/
theorem laid_flatMap {ts : List Token} (hts : isSpaced ts) (hne : SqlMigration.spellings ts ≠ []) :
    ∃ gap s gap', ts.flatMap tokenText = gap ++ (s ++ gap') ∧ (∀ c ∈ gap, isBlank c) ∧
      (∀ c ∈ gap', isBlank c) ∧ Laid ((SqlMigration.spellings ts).map emitted) s := by
  induction ts with
  | nil => exact absurd rfl hne
  | cons t ts ih =>
      obtain ⟨ht, hspaced⟩ := List.forall_mem_cons.mp (List.all_eq_true.mp hts)
      have hspaced : isSpaced ts := List.all_eq_true.mpr hspaced
      rw [spellings_cons] at hne ⊢
      rw [List.flatMap_cons]
      cases htrivia : t.kind.isTrivia with
      | true =>
          have hblank : ∀ c ∈ tokenText t, isBlank c := by
            have hnone : SqlMigration.spellings [t] = [] := by
              rw [spellings_cons, htrivia]
              rfl
            have hsingle : isSpaced [t] := by simpa [isSpaced] using ht
            simpa using flatMap_of_isTrivia hsingle hnone
          simp only [htrivia, if_true, List.nil_append] at hne ⊢
          obtain ⟨gap, s, gap', heq, hgap, hgap', hs⟩ := ih hspaced hne
          refine ⟨tokenText t ++ gap, s, gap', by rw [heq, List.append_assoc], ?_, hgap', hs⟩
          exact fun c hc => (List.mem_append.mp hc).elim (hblank c) (hgap c)
      | false =>
          simp only [Bool.false_eq_true, if_false, List.singleton_append, List.map_cons]
          by_cases hnil : SqlMigration.spellings ts = []
          · rw [hnil]
            exact ⟨[], tokenText t, ts.flatMap tokenText, rfl, by simp,
              flatMap_of_isTrivia hspaced hnil, .one _⟩
          · obtain ⟨gap, s, gap', heq, hgap, hgap', hs⟩ := ih hspaced hnil
            exact ⟨[], tokenText t ++ (gap ++ s), gap', by simp [heq], by simp, hgap',
              .more _ hgap hs⟩

/-! ### The words of an amount -/

theorem map_nest {words vs : List (Kind × Text)} {f g : Kind × Text → Text}
    (h : words.map f = vs.map g) (hleft : f (.leftParen, ['(']) = g (.leftParen, ['(']))
    (hright : f (.rightParen, [')']) = g (.rightParen, [')'])) (depth : Nat) :
    (nest depth words).map f = (nest depth vs).map g := by
  induction depth with
  | zero => exact h
  | succ depth ih => simp [nest, parens, ih, hleft, hright]

theorem map_emitted_sumWords (first : Term) (rest : List (Bool × Term)) :
    (sumWords Term.spelling first rest).map emitted =
      (sumWords Term.word first rest).map Prod.snd := by
  have hterm (t : Term) : emitted t.spelling = t.word.2 := by cases t <;> rfl
  have hsign (negative : Bool) : emitted (signWord negative) = (signWord negative).2 := by
    cases negative <;> rfl
  induction rest generalizing first with
  | nil => simp [sumWords, hterm]
  | cons p rest ih => simp [sumWords, hterm, hsign, ih]

theorem mem_sumWords {f : Term → Kind × Text} {first : Term} {rest : List (Bool × Term)}
    {u : Kind × Text} (h : u ∈ sumWords f first rest) :
    (∃ t ∈ first :: rest.map Prod.snd, u = f t) ∨ ∃ negative, u = signWord negative := by
  induction rest generalizing first with
  | nil => exact .inl ⟨first, List.mem_cons_self, List.mem_singleton.mp h⟩
  | cons p rest ih =>
      rcases List.mem_cons.mp h with rfl | h
      · exact .inl ⟨first, List.mem_cons_self, rfl⟩
      rcases List.mem_cons.mp h with rfl | h
      · exact .inr ⟨p.1, rfl⟩
      rcases ih h with ⟨t, ht, rfl⟩ | hsign
      · exact .inl ⟨t, List.mem_cons_of_mem first ht, rfl⟩
      · exact .inr hsign

theorem mem_nest {words : List (Kind × Text)} {depth : Nat} {u : Kind × Text}
    (h : u ∈ nest depth words) :
    u ∈ words ∨ u = (.leftParen, ['(']) ∨ u = (.rightParen, [')']) := by
  induction depth with
  | zero => exact .inl h
  | succ depth ih =>
      simp only [nest, parens, List.mem_cons, List.mem_append, List.not_mem_nil, or_false] at h
      rcases h with h | h | h
      · exact .inr (.inl h)
      · exact ih h
      · exact .inr (.inr h)

namespace Amount

variable {a : Amount}

theorem map_emitted_spellings (a : Amount) :
    a.spellings.map emitted = (nest a.depth (a.core Term.word)).map Prod.snd := by
  have hcore : (a.core Term.spelling).map emitted = (a.core Term.word).map Prod.snd := by
    rw [core, core]
    split
    · rw [List.map_cons, List.map_cons, sum, sum, map_emitted_sumWords]
      rfl
    · exact map_emitted_sumWords a.first a.rest
  exact map_nest hcore rfl rfl a.depth

theorem mem_core {f : Term → Kind × Text} {u : Kind × Text} (h : u ∈ a.core f) :
    (∃ t ∈ a.first :: a.rest.map Prod.snd, u = f t) ∨ ∃ negative, u = signWord negative := by
  rw [core] at h
  split at h
  · rcases List.mem_cons.mp h with rfl | h
    · exact .inr ⟨true, rfl⟩
    · exact mem_sumWords h
  · exact mem_sumWords h

theorem isNamed_of_mem_spellings {u : Kind × Text} (h : u ∈ a.spellings) : isNamed u.1 = false := by
  rcases mem_nest h with h | rfl | rfl
  · rcases mem_core h with ⟨t, -, rfl⟩ | ⟨negative, rfl⟩
    · cases t <;> rfl
    · cases negative <;> rfl
  · rfl
  · rfl

theorem core_ne_nil (a : Amount) (f : Term → Kind × Text) : a.core f ≠ [] := by
  obtain ⟨words, hsum⟩ := exists_sumWords_eq f a.first a.rest
  rw [core, sum, hsum]
  split <;> exact List.cons_ne_nil _ _

end Amount

theorem nest_ne_nil {words : List (Kind × Text)} (h : words ≠ []) (depth : Nat) :
    nest depth words ≠ [] := by
  cases depth with
  | zero => exact h
  | succ depth => exact List.cons_ne_nil _ _

/-- An amount is emitted token by token. -/
theorem emit_amount {a : Amount} {amount : List Token} (hspaced : isSpaced amount)
    (hamount : SqlMigration.spellings amount = a.spellings) :
    ∃ gap s gap', emit amount = gap ++ (s ++ gap') ∧ (∀ c ∈ gap, isBlank c) ∧
      (∀ c ∈ gap', isBlank c) ∧ Laid ((nest a.depth (a.core Term.word)).map Prod.snd) s := by
  have hplain : ∀ t ∈ amount, isNamed t.kind = false := by
    intro t ht
    cases htrivia : t.isTrivia with
    | true =>
        have hblank := List.all_eq_true.mp hspaced t ht
        simp only [htrivia, Bool.not_true, Bool.false_or, Bool.and_eq_true, decide_eq_true_eq]
          at hblank
        rw [hblank.1]
        rfl
    | false =>
        refine Amount.isNamed_of_mem_spellings (a := a) (u := (t.kind, t.text)) (hamount ▸ ?_)
        exact List.mem_map.mpr ⟨t, List.mem_filter.mpr ⟨ht, by simp [htrivia]⟩, rfl⟩
  have hemit : emit amount = amount.flatMap tokenText := by
    refine emit_eq_flatMap_tokenText fun t ht => ?_
    obtain ⟨hword, hname⟩ := Bool.or_eq_false_iff.mp (hplain t ht)
    refine ⟨?_, by simp [Token.isWord, hname], by simp [Token.isWord, hname]⟩
    rw [Token.is, decide_eq_false_iff_not]
    intro hkind
    rw [hkind] at hword
    cases hword
  have hlaid := laid_flatMap hspaced (hamount ▸ nest_ne_nil (a.core_ne_nil _) _)
  rwa [hamount, Amount.map_emitted_spellings, ← hemit] at hlaid

/-! ## Cutting the text -/

theorem balancedFrom_append {n : Nat} {s r : Text} (hs : ∀ c ∈ s, c ∉ ['\'', '(', ')']) :
    balancedFrom n false (s ++ r) = balancedFrom n false r := by
  induction s with
  | nil => rfl
  | cons c s ih =>
      obtain ⟨hc, hs⟩ := List.forall_mem_cons.mp hs
      simp only [List.mem_cons, List.not_mem_nil, or_false, not_or] at hc
      rw [List.cons_append, balancedFrom, if_neg hc.1, if_neg (by simp [hc.2.1]),
        if_neg (by simp [hc.2.2]), ih hs]

theorem not_mem_marks_of_isBlank {c : Char} (hc : isBlank c) : c ∉ ['\'', '(', ')'] := by
  simp only [List.mem_cons, List.not_mem_nil, or_false]
  rintro (rfl | rfl | rfl) <;> cases hc

theorem balancedFrom_blank_append {n : Nat} {gap r : Text} (hgap : ∀ c ∈ gap, isBlank c) :
    balancedFrom n false (gap ++ r) = balancedFrom n false r :=
  balancedFrom_append fun c hc => not_mem_marks_of_isBlank (hgap c hc)

/-- Parentheses around words that hold none are balanced. -/
theorem balancedFrom_nest {words : List (Kind × Text)} (hne : words ≠ [])
    (hwords : ∀ u ∈ words, ∀ c ∈ u.2, c ∉ ['\'', '(', ')']) {depth n : Nat} {s : Text} (r : Text)
    (h : Laid ((nest depth words).map Prod.snd) s) :
    balancedFrom n false (s ++ r) = balancedFrom n false r := by
  induction depth generalizing n s r with
  | zero =>
      refine balancedFrom_append fun c hc => ?_
      rcases h.isBlank_or_mem hc with hblank | ⟨w, hw, hc⟩
      · exact not_mem_marks_of_isBlank hblank
      · obtain ⟨u, hu, rfl⟩ := List.mem_map.mp hw
        exact hwords u hu c hc
  | succ depth ih =>
      obtain ⟨gap, t, gap', rfl, hgap, hgap', ht⟩ := h.of_parens (nest_ne_nil hne depth)
      have hopen (r : Text) : balancedFrom n false ('(' :: r) = balancedFrom (n + 1) false r := by
        simp [balancedFrom]
      have hclose : balancedFrom (n + 1) false (')' :: r) = balancedFrom n false r := by
        simp [balancedFrom]
      simp only [List.cons_append, List.append_assoc, hopen]
      rw [balancedFrom_blank_append hgap, ih _ ht, balancedFrom_blank_append hgap',
        List.nil_append, hclose]

theorem betweenParens?_concat (s : Text) : betweenParens? ('(' :: (s ++ [')'])) = some s := by
  simp [betweenParens?, dropFinal?]

theorem betweenParens?_of_head {s : Text} (h : s.head? ≠ some '(') : betweenParens? s = none := by
  unfold betweenParens?
  split
  · exact absurd rfl h
  · rfl

/-- One pair of parentheses is taken off, if there is one. -/
theorem stripParens_nest {words : List (Kind × Text)} {depth : Nat} {gap s gap' : Text}
    (hne : words ≠ []) (hfits : ∀ u ∈ words, fits u.1 u.2)
    (hwords : ∀ u ∈ words, ∀ c ∈ u.2, c ∉ ['\'', '(', ')']) (hgap : ∀ c ∈ gap, isBlank c)
    (hgap' : ∀ c ∈ gap', isBlank c) (h : Laid ((nest depth words).map Prod.snd) s) :
    Laid ((nest (depth - 1) words).map Prod.snd) (stripParens (gap ++ (s ++ gap'))) := by
  have hnest (depth : Nat) : ∀ u ∈ nest depth words, fits u.1 u.2 := by
    intro u hu
    rcases mem_nest hu with hu | rfl | rfl
    · exact hfits u hu
    · rfl
    · rfl
  rw [stripParens, h.trim_eq (hnest depth) hgap hgap']
  cases depth with
  | zero =>
      have hhead : s.head? ≠ some '(' := by
        intro hhead
        rcases h.isBlank_or_mem (List.mem_of_mem_head? hhead) with hblank | ⟨w, hw, hc⟩
        · cases hblank
        · obtain ⟨u, hu, rfl⟩ := List.mem_map.mp hw
          exact hwords u hu '(' hc (by simp)
      rw [betweenParens?_of_head hhead]
      exact h
  | succ depth =>
      obtain ⟨gap, t, gap', rfl, hgap, hgap', ht⟩ := h.of_parens (nest_ne_nil hne depth)
      have hbalanced : balancedFrom 0 false (gap ++ (t ++ gap')) := by
        have hend : balancedFrom 0 false (gap' ++ []) = true := balancedFrom_blank_append hgap'
        rw [List.append_nil] at hend
        rw [balancedFrom_blank_append hgap, balancedFrom_nest hne hwords _ ht, hend]
      rw [betweenParens?_concat]
      simp only [hbalanced, if_true, ht.trim_eq (hnest depth) hgap hgap']
      exact ht

theorem splitMinus_of_head {s : Text} (h : s.head? ≠ some '-') : splitMinus s = (false, s) := by
  unfold splitMinus
  split
  · exact absurd rfl h
  · rfl

/-! ## What is left of an amount -/

namespace Amount

variable {a : Amount}

/-- Whether a minus sign is in front once a pair of parentheses is off. -/
def losesSign (a : Amount) : Bool := a.depth ≤ 1 && a.negative

/-- The words that are left without a pair of parentheses and a minus sign. -/
def magnitude (a : Amount) : List (Kind × Text) :=
  if a.depth ≤ 1 then a.sum Term.word else nest (a.depth - 1) (a.core Term.word)

def magnitudeValue (a : Amount) (σ : Text → Int) : Int :=
  if a.losesSign then a.first.value σ + a.restValue σ else a.value σ

theorem yields_magnitude (a : Amount) (σ : Text → Int) :
    Yields σ a.magnitude (a.magnitudeValue σ) := by
  rw [magnitude, magnitudeValue, losesSign]
  split
  · cases hnegative : a.negative with
    | false => simpa [*, value, signed] using a.yields_sum σ
    | true => simpa [*] using a.yields_sum σ
  · simpa [*] using yields_nest (a.yields_core σ) _

theorem readsAs_magnitude (h : a.isPlain) (next : Option Char) (hnext : next.all isBreak) :
    readsAs a.magnitude next := by
  rw [magnitude]
  split
  · exact readsAs_sum h next hnext
  · exact readsAs_nest (readsAs_core h) _ next hnext

theorem isPlain_of_mem (h : a.isPlain) {t : Term} (ht : t ∈ a.first :: a.rest.map Prod.snd) :
    t.isPlain := by
  rcases List.mem_cons.mp ht with rfl | ht
  · exact isPlain_first h
  · obtain ⟨p, hp, rfl⟩ := List.mem_map.mp ht
    exact isPlain_rest h p hp

/-- Neither a string literal nor a parenthesis starts or ends within the words. -/
theorem not_mem_marks_of_mem_core (h : a.isPlain) {u : Kind × Text} (hu : u ∈ a.core Term.word)
    {c : Char} (hc : c ∈ u.2) : c ∉ ['\'', '(', ')'] := by
  rcases mem_core hu with ⟨t, ht, rfl⟩ | ⟨negative, rfl⟩
  · have hnone : ['\'', '(', ')'].all fun d => !(isNameChar .unicode d || d.isDigit) := by
      decide +kernel
    intro hmark
    have hword := isNameChar_or_isDigit_of_mem_word (isPlain_of_mem h ht) hc
    have hc := List.all_eq_true.mp hnone c hmark
    rcases hword with hword | hword <;> simp [hword] at hc
  · cases negative <;> rw [List.mem_singleton.mp hc] <;> decide

theorem head_sum (h : a.isPlain) {s : Text} (hs : Laid ((a.sum Term.word).map Prod.snd) s)
    {c : Char} (hc : c ∈ s.head?) : isBreak c = false := by
  obtain ⟨words, hsum⟩ := exists_sumWords_eq Term.word a.first a.rest
  rw [sum, hsum, List.map_cons] at hs
  rw [hs.head?_eq (ne_nil_of_fits (fits_word (isPlain_first h)))] at hc
  exact not_isBreak_of_mem_word (isPlain_first h) (List.mem_of_mem_head? hc)

/-- In more than one pair of parentheses, one is left in front. -/
theorem exists_cons_of_nested {f : Term → Kind × Text} {s : Text} (hdepth : ¬ a.depth ≤ 1)
    (hs : Laid ((nest (a.depth - 1) (a.core f)).map Prod.snd) s) : ∃ t, s = '(' :: t := by
  obtain ⟨depth, hpred⟩ : ∃ depth, a.depth - 1 = depth + 1 := ⟨a.depth - 2, by omega⟩
  rw [hpred] at hs
  obtain ⟨gap, t, gap', rfl, -⟩ := hs.of_parens (nest_ne_nil (a.core_ne_nil f) depth)
  exact ⟨_, rfl⟩

/-- What the emitted text of an amount is cut into. -/
theorem splitMinus_stripParens (h : a.isPlain) {gap s gap' : Text} (hgap : ∀ c ∈ gap, isBlank c)
    (hgap' : ∀ c ∈ gap', isBlank c)
    (hs : Laid ((nest a.depth (a.core Term.word)).map Prod.snd) s) :
    ∃ t, splitMinus (stripParens (gap ++ (s ++ gap'))) = (a.losesSign, t) ∧
      Laid (a.magnitude.map Prod.snd) t := by
  have hstrip := stripParens_nest (a.core_ne_nil _) (fits_of_readsAs (readsAs_core h none rfl))
    (fun u hu c hc => not_mem_marks_of_mem_core h hu hc) hgap hgap' hs
  generalize stripParens (gap ++ (s ++ gap')) = s at hstrip
  rw [losesSign, magnitude]
  by_cases hdepth : a.depth ≤ 1
  · rw [Nat.sub_eq_zero_of_le hdepth, nest, core] at hstrip
    simp only [hdepth, decide_true, Bool.true_and, if_true]
    cases hnegative : a.negative with
    | false =>
        simp only [hnegative, Bool.false_eq_true, if_false] at hstrip
        refine ⟨s, splitMinus_of_head fun hc => ?_, hstrip⟩
        cases head_sum h hstrip hc
    | true =>
        simp only [hnegative, if_true, List.map_cons] at hstrip
        have hne : (a.sum Term.word).map Prod.snd ≠ [] := by
          obtain ⟨words, hsum⟩ := exists_sumWords_eq Term.word a.first a.rest
          simp [sum, hsum]
        obtain ⟨gap, t, rfl, hgap, ht⟩ := hstrip.of_cons hne
        have hsplit : splitMinus ((signWord true).2 ++ (gap ++ t)) = (true, trim (gap ++ t)) := rfl
        have hnone : ∀ c ∈ ([] : Text), isBlank c := by simp
        have htrim := ht.trim_eq (fits_of_readsAs (readsAs_sum h none rfl)) hgap hnone
        rw [List.append_nil] at htrim
        exact ⟨t, hsplit.trans (by rw [htrim]), ht⟩
  · simp only [hdepth, decide_false, Bool.false_and, if_false]
    refine ⟨s, splitMinus_of_head ?_, hstrip⟩
    obtain ⟨t, rfl⟩ := exists_cons_of_nested hdepth hstrip
    simp

end Amount

/-! ## Magnitudes that are numbers -/

/-- The number that a term is read as when nothing else is there. -/
def Term.number? : Term → Option Binary64
  | literal digits => some (ofNat (natOfDigits digits))
  | named text => special? false (Name.ofVariable text)

/-- A term that makes up the amount, but for its sign and one pair of parentheses. -/
def Amount.lone? (a : Amount) : Option Term :=
  if a.depth ≤ 1 && a.rest.isEmpty then some a.first else none

theorem Amount.magnitudeValue_of_lone {a : Amount} {t : Term} (h : a.lone? = some t)
    (σ : Text → Int) : a.magnitudeValue σ = t.value σ := by
  rw [lone?] at h
  split at h
  next hlone =>
      rw [Bool.and_eq_true, List.isEmpty_iff] at hlone
      obtain ⟨hdepth, hrest⟩ := hlone
      cases h
      cases hnegative : a.negative <;>
        simp [magnitudeValue, losesSign, value, restValue, signed, hdepth, hrest, hnegative]
  next => cases h

theorem ofText?_spellsWord_append {s : Text} (h : spellsWord s) (r : Text) :
    ofText? (s ++ r) = special? false (s ++ r) := by
  cases s with
  | nil => cases h
  | cons c s =>
      have hc := (Bool.and_eq_true_iff.mp h).1
      have hnone : ['.', '+', '-'].all fun d => !startsWord d := by decide +kernel
      refine ofText?_of_head (isDigit_of_startsWord hc) fun hmark => ?_
      simpa [hc] using List.all_eq_true.mp hnone c hmark

theorem ofText?_word {t : Term} (h : t.isPlain) : ofText? t.word.2 = t.number? := by
  cases t with
  | literal digits =>
      obtain ⟨hdigits, hsmall⟩ := Bool.and_eq_true_iff.mp h
      exact ofText?_numeral hdigits (of_decide_eq_true hsmall)
  | named text =>
      have hword := ofText?_spellsWord_append (Bool.and_eq_true_iff.mp h).1 []
      rwa [List.append_nil] at hword

/-- A term that does not end the text is a number only as a word. -/
theorem ofText?_word_append {t : Term} {c : Char} (h : t.isPlain) (hc : isBreak c) (r : Text) :
    ofText? (t.word.2 ++ c :: r) = special? false (t.word.2 ++ c :: r) := by
  cases t with
  | literal digits =>
      have hgoes := goesOn_of_isBreak hc
      simp only [goesOn, Bool.or_eq_false_iff] at hgoes
      refine ofText?_numeral_append (Bool.and_eq_true_iff.mp h).1 hgoes.1.2 ?_
      simp only [List.contains_cons, Bool.or_eq_false_iff, beq_eq_false_iff_ne] at hgoes
      simp [hgoes]
  | named text => exact ofText?_spellsWord_append (Bool.and_eq_true_iff.mp h).1 _

/-- More than one term is no number, for the sign between the first two. -/
theorem ofText?_sumWords_cons {first : Term} {p : Bool × Term} {rest : List (Bool × Term)}
    {s : Text} (h : first.isPlain)
    (hs : Laid ((sumWords Term.word first (p :: rest)).map Prod.snd) s) :
    ofText? s = none := by
  obtain ⟨sign, hword, hbreak, hmark⟩ :
      ∃ c, (signWord p.1).2 = [c] ∧ isBreak c ∧ c ∈ ['+', '-', '('] := by
    cases p.1
    · exact ⟨'+', rfl, rfl, by decide⟩
    · exact ⟨'-', rfl, rfl, by decide⟩
  obtain ⟨words, hwords⟩ := exists_sumWords_eq Term.word p.2 rest
  rw [sumWords, hwords, List.map_cons, List.map_cons, hword] at hs
  obtain ⟨gap, t, rfl, hgap, ht⟩ := hs.of_cons (List.cons_ne_nil _ _)
  obtain ⟨gap', t, rfl, -⟩ := ht.of_cons (List.cons_ne_nil _ _)
  have hmem : sign ∈ first.word.2 ++ (gap ++ ([sign] ++ (gap' ++ t))) := by simp
  have hspecial : ofText? (first.word.2 ++ (gap ++ ([sign] ++ (gap' ++ t)))) =
      special? false (first.word.2 ++ (gap ++ ([sign] ++ (gap' ++ t)))) := by
    cases gap with
    | nil => exact ofText?_word_append h hbreak _
    | cons c gap =>
        have hc : isBreak c := Bool.or_eq_true_iff.mpr (.inl (hgap c List.mem_cons_self))
        exact ofText?_word_append h hc _
  rw [hspecial, special?_of_mem hmem hmark]

theorem Amount.ofText?_magnitude {a : Amount} (h : a.isPlain) {s : Text}
    (hs : Laid (a.magnitude.map Prod.snd) s) : ofText? s = a.lone?.bind Term.number? := by
  rw [magnitude, sum] at hs
  rw [lone?]
  by_cases hdepth : a.depth ≤ 1
  · rw [if_pos hdepth] at hs
    cases hrest : a.rest with
    | nil =>
        rw [hrest] at hs
        cases hs with
        | one => simpa [hdepth] using ofText?_word (isPlain_first h)
        | more _ _ hnil => exact absurd rfl hnil.ne_nil
    | cons p rest =>
        rw [hrest] at hs
        simp [ofText?_sumWords_cons (isPlain_first h) hs]
  · rw [if_neg hdepth] at hs
    obtain ⟨t, rfl⟩ := exists_cons_of_nested hdepth hs
    rw [ofText?_of_head rfl (by decide), special?_of_mem List.mem_cons_self (by decide)]
    simp [hdepth]

end Expression

end SqlMigration
