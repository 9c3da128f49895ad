import SqlMigration.Proofs.Decimal.Integers
import SqlMigration.Proofs.Name.Listing

/-! # Arithmetic in emitted text

Sums and products of integers and variables, as a reader of the target takes them: a text is read
into tokens again, and these are evaluated from left to right, with one level for each parenthesis
that is open.
-/

namespace SqlMigration.Arithmetic

open Token Text Binary64

/-! ## Reading -/

/-- Words in their order, with blank space between them or none. -/
inductive Laid : List Text → Text → Prop where
  | one (w : Text) : Laid [w] w
  | more {ws : List Text} {gap s : Text} (w : Text) (hgap : ∀ c ∈ gap, isBlank c) (h : Laid ws s) :
      Laid (w :: ws) (w ++ (gap ++ s))

namespace Laid

variable {ws vs : List Text} {s t u gap : Text}

theorem ne_nil (h : Laid ws s) : ws ≠ [] := by
  cases h <;> exact List.cons_ne_nil _ _

theorem head? {w : Text} (h : Laid (w :: ws) s) (hw : w ≠ []) (r : Text) :
    (s ++ r).head? = w.head? := by
  obtain ⟨c, w, rfl⟩ := List.exists_cons_of_ne_nil hw
  cases h <;> rfl

theorem head?_eq {w : Text} (h : Laid (w :: ws) s) (hw : w ≠ []) : s.head? = w.head? := by
  simpa using h.head? hw []

theorem append (h : Laid ws s) (hgap : ∀ c ∈ gap, isBlank c) (h' : Laid vs t) :
    Laid (ws ++ vs) (s ++ (gap ++ t)) := by
  induction h with
  | one w => exact .more w hgap h'
  | more w hblank _ ih =>
      rw [List.append_assoc, List.append_assoc]
      exact .more w hblank ih

theorem of_cons {w : Text} (hws : ws ≠ []) (h : Laid (w :: ws) u) :
    ∃ gap t, u = w ++ (gap ++ t) ∧ (∀ c ∈ gap, isBlank c) ∧ Laid ws t := by
  cases h with
  | one => exact absurd rfl hws
  | more w hgap h => exact ⟨_, _, rfl, hgap, h⟩

theorem of_append (hws : ws ≠ []) (hvs : vs ≠ []) (h : Laid (ws ++ vs) u) :
    ∃ s gap t, u = s ++ (gap ++ t) ∧ (∀ c ∈ gap, isBlank c) ∧ Laid ws s ∧ Laid vs t := by
  induction ws generalizing u with
  | nil => exact absurd rfl hws
  | cons w ws ih =>
      by_cases hnil : ws = []
      · subst hnil
        obtain ⟨gap, t, rfl, hgap, ht⟩ := of_cons hvs h
        exact ⟨w, gap, t, rfl, hgap, .one w, ht⟩
      · obtain ⟨gap, t, rfl, hgap, ht⟩ := of_cons (by simp [hnil]) h
        obtain ⟨s, gap', t, rfl, hgap', hs, ht⟩ := ih hnil ht
        exact ⟨w ++ (gap ++ s), gap', t, by simp, hgap', .more w hgap hs, ht⟩

end Laid

/-- Whether a text is a token of the kind, for the kinds of arithmetic. -/
def fits : Kind → Text → Bool
  | .identifier, s => Name.isUnquoted s
  | .integer, s => isNumeral s
  | .plus, s => s = ['+']
  | .minus, s => s = ['-']
  | .star, s => s = ['*']
  | .leftParen, s => s = ['(']
  | .rightParen, s => s = [')']
  | _, _ => false

/-- Whether names and numbers end in front of the character. -/
def isBreak (c : Char) : Bool := isBlank c || ['+', '-', '*', '(', ')'].contains c

/-- Whether a token of the kind ends in front of the character. -/
def endsBefore (k : Kind) (c : Char) : Bool :=
  match k with
  | .identifier | .integer => isBreak c
  | .minus => c ≠ '-'
  | _ => true

/-- The characters that can go on with a name or a number. -/
def goesOn (c : Char) : Bool :=
  isNameChar .unicode c || c.isDigit || ['.', '\'', 'e', 'E', 'x', 'X'].contains c

theorem goesOn_of_isBreak {c : Char} (h : isBreak c) : goesOn c = false := by
  rcases Bool.or_eq_true_iff.mp h with hblank | hmark
  · cases hgoes : goesOn c with
    | false => rfl
    | true =>
        have hbare : isBlank c = false := by
          simp only [goesOn, Bool.or_eq_true, List.contains_iff_mem] at hgoes
          rcases hgoes with (hname | hdigit) | hmark
          · exact isBlank_of_isBare (isBare_of_isNameChar hname)
          · exact isBlank_of_isBare (isBare_of_isDigit hdigit)
          · have hnone : ['.', '\'', 'e', 'E', 'x', 'X'].all fun d => !isBlank d := by decide
            simpa using List.all_eq_true.mp hnone c hmark
        rw [hbare] at hblank
        cases hblank
  · have hnone : ['+', '-', '*', '(', ')'].all fun d => !goesOn d := by decide +kernel
    simpa using List.all_eq_true.mp hnone c (List.contains_iff_mem.mp hmark)

theorem classify_digit {c : Char} {s : Text} (hc : c.isDigit) :
    classify .unicode c s = number c s := by
  have hmark : c ∉ marks := by
    intro hc'
    have hall : marks.all fun d => !d.isDigit := by decide
    simpa [hc] using List.all_eq_true.mp hall c hc'
  obtain ⟨f, hf, hclass⟩ :=
    exists_plainScanner_of_not_mem hmark (isBlank_of_isBare (isBare_of_isDigit hc))
  have hread : classify .unicode c = f := by
    rcases hclass with hclass | ⟨rfl | rfl, -⟩
    · exact hclass
    · cases hc
    · cases hc
  rw [hread]
  cases hf with
  | number _ => rfl
  | word hdigit _ | stray hdigit _ => simp [hc] at hdigit

theorem endsWord_of_isBreak {r : Text} (h : ∀ c ∈ r.head?, isBreak c) : endsWord r := by
  cases r with
  | nil => rfl
  | cons c r =>
      have hc := goesOn_of_isBreak (h c rfl)
      simp only [goesOn, Bool.or_eq_false_iff, List.contains_cons, beq_eq_false_iff_ne] at hc
      simp [endsWord, hc]

theorem head_ne_of_goesOn {r : Text} {c : Char} (hr : ∀ d ∈ r.head?, isBreak d) (hc : goesOn c) :
    r.head? ≠ some c := by
  intro hhead
  rw [goesOn_of_isBreak (hr c hhead)] at hc
  cases hc

theorem exponentLength_of_isBreak {r : Text} (hr : ∀ d ∈ r.head?, isBreak d) :
    exponentLength r = 0 := by
  cases r with
  | nil => rfl
  | cons d r =>
      have hlower : d ≠ 'e' := fun hd => head_ne_of_goesOn hr (by decide +kernel) (congrArg some hd)
      have hupper : d ≠ 'E' := fun hd => head_ne_of_goesOn hr (by decide +kernel) (congrArg some hd)
      cases r with
      | nil => rfl
      | cons d' r => simp [exponentLength, hlower, hupper]

/-- A number in front of a text that does not go on with it is read as itself. -/
theorem number_of_isBreak {c : Char} {s r : Text} (hc : c.isDigit) (hs : ∀ d ∈ s, d.isDigit)
    (hr : ∀ d ∈ r.head?, isBreak d) : number c (s ++ r) = (.integer, s.length) := by
  have hpoint : c ≠ '.' := by
    rintro rfl
    cases hc
  have hrun : runLength Char.isDigit (s ++ r) = s.length := by
    rw [runLength, List.takeWhile_append_of_pos hs]
    cases r with
    | nil => simp
    | cons d r =>
        have hd := goesOn_of_isBreak (hr d rfl)
        simp only [goesOn, Bool.or_eq_false_iff] at hd
        simp [hd.1.2]
  have hbinary {d : Char} (hd : goesOn d) (hdigit : d.isDigit = false) :
      (s ++ r).head? ≠ some d := by
    cases s with
    | nil => exact head_ne_of_goesOn hr hd
    | cons e s =>
        rintro ⟨⟩
        rw [hs d List.mem_cons_self] at hdigit
        cases hdigit
  have hfraction : fractionLength c r = 0 := by
    simp [fractionLength, head_ne_of_goesOn hr (c := '.') (by decide +kernel)]
  have hlower := hbinary (d := 'x') (by decide +kernel) rfl
  have hupper := hbinary (d := 'X') (by decide +kernel) rfl
  simp only [number, hlower, hupper, decide_false, Bool.or_false, Bool.and_false, hrun,
    List.drop_left, hfraction, List.drop_zero, exponentLength_of_isBreak hr, hpoint, ne_eq,
    not_true_eq_false, Bool.false_eq_true, if_false, Nat.add_zero]

theorem stays_integer {t : Token} {r : Text} (hkind : t.kind = .integer) (ht : isNumeral t.text)
    (hr : ∀ c ∈ r.head?, isBreak c) : stays t r := by
  obtain ⟨hne, hdigits⟩ := Bool.and_eq_true_iff.mp ht
  cases htext : t.text with
  | nil =>
      rw [htext] at hne
      cases hne
  | cons c s =>
      rw [htext, List.all_cons, Bool.and_eq_true] at hdigits
      rw [stays_iff htext, classify_digit hdigits.1,
        number_of_isBreak hdigits.1 (List.all_eq_true.mp hdigits.2) hr, hkind]
      exact ⟨rfl, List.take_left⟩

theorem stays_of_fits {t : Token} {r : Text} (ht : fits t.kind t.text)
    (hr : ∀ c ∈ r.head?, endsBefore t.kind c) : stays t r := by
  have hmark {c : Char} (htext : t.text = [c]) (hclass : classify .unicode c r = (t.kind, 0)) :
      stays t r := by
    rw [stays_iff htext, List.nil_append, hclass]
    exact ⟨rfl, List.take_zero⟩
  cases hkind : t.kind <;> rw [hkind] at ht hr hmark
  case identifier =>
      obtain ⟨hword, hkeyword⟩ := Bool.and_eq_true_iff.mp ht
      refine stays_word hword ?_ (endsWord_of_isBreak hr)
      rw [hkind, wordKind, Option.isNone_iff_eq_none.mp hkeyword]
  case integer => exact stays_integer hkind ht hr
  case minus =>
      have hdash : r.head? ≠ some '-' := fun hhead => absurd (hr '-' hhead) (by decide)
      exact hmark (of_decide_eq_true ht) (by rw [Flow.classify_dash, commentOrMinus, if_neg hdash])
  case plus | star | leftParen | rightParen => exact hmark (of_decide_eq_true ht) rfl
  all_goals cases ht

/-- Whether the words are tokens of these kinds one after the other, the last of them in front of
the character if there is one. -/
def readsAs : List (Kind × Text) → Option Char → Bool
  | [], _ => true
  | (k, w) :: words, next =>
      fits k w && (words.head?.elim next fun u => u.2.head?).all (endsBefore k) &&
        readsAs words next

/-- The tokens in a pair of parentheses. -/
def parens (words : List (Kind × Text)) : List (Kind × Text) :=
  (.leftParen, ['(']) :: (words ++ [(.rightParen, [')'])])

/-- A number of times what the parentheses enclose. -/
def times (words : List (Kind × Text)) (digits : Text) : List (Kind × Text) :=
  parens words ++ [(.star, ['*']), (.integer, digits)]

theorem Laid.parens {words : List (Kind × Text)} {s : Text} (h : Laid (words.map Prod.snd) s) :
    Laid ((parens words).map Prod.snd) ('(' :: (s ++ [')'])) := by
  have hblank : ∀ c ∈ ([] : Text), isBlank c := by simp
  simpa [Arithmetic.parens] using Laid.more ['('] hblank (h.append hblank (.one [')']))

theorem Laid.times {words : List (Kind × Text)} {s : Text} (h : Laid (words.map Prod.snd) s)
    (digits : Text) :
    Laid ((times words digits).map Prod.snd)
      ('(' :: (s ++ [')']) ++ ([' '] ++ (['*'] ++ ([' '] ++ digits)))) := by
  have hblank : ∀ c ∈ [' '], isBlank c := List.all_eq_true.mp rfl
  rw [Arithmetic.times, List.map_append]
  exact h.parens.append hblank (.more ['*'] hblank (.one digits))

theorem fits_of_readsAs {words : List (Kind × Text)} {next : Option Char}
    (h : readsAs words next) : ∀ u ∈ words, fits u.1 u.2 := by
  induction words with
  | nil => exact fun u hu => absurd hu List.not_mem_nil
  | cons u words ih =>
      obtain ⟨k, w⟩ := u
      rw [readsAs, Bool.and_eq_true, Bool.and_eq_true] at h
      exact List.forall_mem_cons.mpr ⟨h.1.1, ih h.2⟩

theorem readsAs_append {words vs : List (Kind × Text)} {next : Option Char}
    (h : readsAs words (vs.head?.elim next fun u => u.2.head?)) (hvs : readsAs vs next) :
    readsAs (words ++ vs) next := by
  induction words with
  | nil => exact hvs
  | cons u words ih =>
      obtain ⟨k, w⟩ := u
      rw [readsAs, Bool.and_eq_true, Bool.and_eq_true] at h
      obtain ⟨⟨hfits, hnext⟩, hwords⟩ := h
      rw [List.cons_append, readsAs, hfits, ih hwords, Bool.and_true, Bool.true_and]
      cases words with
      | nil => exact hnext
      | cons v words => exact hnext

theorem readsAs_parens {words : List (Kind × Text)} (h : readsAs words (some ')'))
    (next : Option Char) : readsAs (parens words) next := by
  have hall (o : Option Char) : o.all (fun _ => true) := by cases o <;> rfl
  have hclose : readsAs [(.rightParen, [')'])] next := by
    rw [readsAs, readsAs, Bool.and_true]
    exact hall next
  rw [parens, readsAs, readsAs_append h hclose, Bool.and_true]
  exact hall _

theorem readsAs_times {words : List (Kind × Text)} (h : readsAs words (some ')')) {digits : Text}
    (hdigits : isNumeral digits) {next : Option Char} (hnext : next.all isBreak) :
    readsAs (times words digits) next := by
  refine readsAs_append (readsAs_parens h _) ?_
  have hnumber : readsAs [(.integer, digits)] next := by
    rw [readsAs, readsAs, Bool.and_true, Bool.and_eq_true]
    exact ⟨hdigits, hnext⟩
  rw [readsAs, hnumber, Bool.and_true]
  cases digits <;> rfl

theorem ne_nil_of_fits {k : Kind} {s : Text} (h : fits k s) : s ≠ [] := by
  rintro rfl
  cases k <;> cases h

theorem isBlank_of_mem_fits {k : Kind} {s : Text} {c : Char} (h : fits k s) (hc : c ∈ s) :
    isBlank c = false := by
  have hmark {d : Char} (hd : isBlank d = false) (hs : s = [d]) : isBlank c = false := by
    rw [hs] at hc
    rw [List.mem_singleton.mp hc, hd]
  cases k
  case identifier =>
      cases s with
      | nil => cases hc
      | cons d s =>
          obtain ⟨hd, hs⟩ := Bool.and_eq_true_iff.mp (Bool.and_eq_true_iff.mp h).1
          rcases List.mem_cons.mp hc with rfl | hc
          · exact isBlank_of_isBare (isBare_of_isNameChar (isNameChar_of_startsWord hd))
          · exact isBlank_of_isBare (isBare_of_isNameChar (List.all_eq_true.mp hs c hc))
  case integer =>
      exact isBlank_of_isBare (isBare_of_isDigit
        (List.all_eq_true.mp (Bool.and_eq_true_iff.mp h).2 c hc))
  case plus | minus | star | leftParen | rightParen => exact hmark rfl (of_decide_eq_true h)
  all_goals cases h

theorem isTrivia_of_fits {k : Kind} {s : Text} (h : fits k s) : k.isTrivia = false := by
  cases k <;> first | rfl | cases h

theorem endsBefore_of_isBlank (k : Kind) {c : Char} (hc : isBlank c) : endsBefore k c := by
  have hbreak : isBreak c := Bool.or_eq_true_iff.mpr (.inl hc)
  cases k <;> first | rfl | exact hbreak | skip
  rw [endsBefore, decide_eq_true_eq]
  rintro rfl
  cases hc

theorem spellings_word {k : Kind} {w r : Text} (h : fits k w)
    (hr : ∀ c ∈ r.head?, endsBefore k c) :
    spellings (tokenize (w ++ r)) = (k, w) :: spellings (tokenize r) := by
  obtain ⟨c, w, rfl⟩ := List.exists_cons_of_ne_nil (ne_nil_of_fits h)
  have hread := spellings_of_stays (t := ⟨k, c :: w, ⟨0, 0⟩⟩) rfl (stays_of_fits h hr)
  rwa [isTrivia_of_fits h] at hread

/-- Words are read back as the tokens they were. -/
theorem spellings_laid {words : List (Kind × Text)} {s r : Text}
    (hs : Laid (words.map Prod.snd) s) (h : readsAs words r.head?) :
    spellings (tokenize (s ++ r)) = words ++ spellings (tokenize r) := by
  induction words generalizing s with
  | nil => exact absurd rfl hs.ne_nil
  | cons u words ih =>
      obtain ⟨k, w⟩ := u
      rw [readsAs, Bool.and_eq_true, Bool.and_eq_true] at h
      obtain ⟨⟨hfits, hnext⟩, hwords⟩ := h
      cases words with
      | nil =>
          have hr : ∀ c ∈ r.head?, endsBefore k c := (Option.all_eq_true _ _).mp hnext
          cases hs with
          | one => exact spellings_word hfits hr
          | more _ _ h => exact absurd rfl h.ne_nil
      | cons v words =>
          obtain ⟨gap, t, rfl, hgap, ht⟩ := hs.of_cons (by simp)
          -- a blank follows, or the next word
          have hhead : ∀ c ∈ (gap ++ (t ++ r)).head?, endsBefore k c := by
            cases gap with
            | nil =>
                rw [readsAs, Bool.and_eq_true, Bool.and_eq_true] at hwords
                rw [List.nil_append, ht.head? (ne_nil_of_fits hwords.1.1)]
                exact (Option.all_eq_true _ _).mp hnext
            | cons d gap =>
                rintro c ⟨⟩
                exact endsBefore_of_isBlank k (hgap d List.mem_cons_self)
          rw [List.append_assoc, List.append_assoc, spellings_word hfits hhead,
            spellings_blank_append hgap, ih ht hwords]
          rfl

/-! ## Values -/

/-- What is known of the tokens since a parenthesis was opened: the sum of the terms before the
current one, the factor of the next operand, and the value of the current term once it has an
operand. -/
structure Level where
  total : Int := 0
  factor : Int := 1
  term : Option Int := none

namespace Level

def operand? (l : Level) (x : Int) : Option Level :=
  if l.term.isNone then some { l with factor := 1, term := some (l.factor * x) } else none

/-- A sign ends the current term, or belongs to the operand that follows. -/
def sign (l : Level) (x : Int) : Level :=
  match l.term with
  | some v => { total := l.total + v, factor := x }
  | none => { l with factor := l.factor * x }

def times? (l : Level) : Option Level := l.term.map fun v => { total := l.total, factor := v }

def value? (l : Level) : Option Int := l.term.map (l.total + ·)

end Level

/-- One token, with the innermost level first. -/
def step (σ : Text → Int) : List Level → Kind × Text → Option (List Level)
  | [], _ => none
  | l :: ls, (k, s) =>
      match k with
      | .integer => (l.operand? (natOfDigits s)).map (· :: ls)
      | .identifier => (l.operand? (σ s)).map (· :: ls)
      | .plus => some (l.sign 1 :: ls)
      | .minus => some (l.sign (-1) :: ls)
      | .star => l.times?.map (· :: ls)
      | .leftParen => if l.term.isNone then some ({} :: l :: ls) else none
      | .rightParen =>
          match ls with
          | [] => none
          | m :: ms => (l.value?.bind m.operand?).map (· :: ms)
      | _ => none

/-- The value of an expression, where `σ` gives the values of the variables. -/
def value? (σ : Text → Int) (words : List (Kind × Text)) : Option Int :=
  match words.foldlM (step σ) [{}] with
  | some [l] => l.value?
  | _ => none

/-- On a level of their own, the tokens come to `x`. -/
def Yields (σ : Text → Int) (words : List (Kind × Text)) (x : Int) : Prop :=
  ∀ ls, ∃ l : Level, words.foldlM (step σ) ({} :: ls) = some (l :: ls) ∧ l.value? = some x

namespace Yields

variable {σ : Text → Int} {words : List (Kind × Text)} {x : Int}

theorem value? (h : Yields σ words x) : value? σ words = some x := by
  obtain ⟨l, hrun, hl⟩ := h []
  rw [Arithmetic.value?, hrun]
  exact hl

/-- Parentheses make one operand of what they enclose. -/
theorem foldlM_parens (h : Yields σ words x) (ls : List Level) :
    (parens words).foldlM (step σ) ({} :: ls) = some ({ term := some x } :: ls) := by
  obtain ⟨l, hrun, hl⟩ := h ({} :: ls)
  have hopen : step σ ({} :: ls) (.leftParen, ['(']) = some ({} :: {} :: ls) := rfl
  have hclose : step σ (l :: {} :: ls) (.rightParen, [')']) = some ({ term := some x } :: ls) := by
    simp [step, hl, Level.operand?]
  rw [parens, List.foldlM_cons, hopen]
  simp [hrun, hclose]

theorem parens (h : Yields σ words x) : Yields σ (parens words) x :=
  fun ls => ⟨_, h.foldlM_parens ls, by simp [Level.value?]⟩

theorem times (h : Yields σ words x) (digits : Text) :
    Yields σ (times words digits) (x * natOfDigits digits) := by
  intro ls
  refine ⟨{ term := some (x * natOfDigits digits) }, ?_, by simp [Level.value?]⟩
  rw [Arithmetic.times, List.foldlM_append, h.foldlM_parens]
  simp [step, Level.times?, Level.operand?]

end Yields

end SqlMigration.Arithmetic
