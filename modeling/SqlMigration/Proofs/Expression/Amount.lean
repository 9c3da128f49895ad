import SqlMigration.Proofs.Expression.Arithmetic
import SqlMigration.Proofs.Expression.Call

/-! # Amounts

A sum or difference of literals and variables, with a sign in front of it or not and in any number
of parentheses: the tokens it is written with, the words it is emitted as, and its value.
-/

namespace SqlMigration.Expression

open Token Text Binary64 Arithmetic

/-- A literal or a variable, as it is written. -/
inductive Term where
  | literal (digits : Text)
  | named (text : Text)
  deriving DecidableEq, Repr

namespace Term

def spelling : Term → Kind × Text
  | literal digits => (.integer, digits)
  | named text => (.variable, text)

/-- The term as it is emitted. -/
def word : Term → Kind × Text
  | literal digits => (.integer, digits)
  | named text => (.identifier, Name.ofVariable text)

/-- The value, where `σ` gives those of the variables by their names. -/
def value (σ : Text → Int) : Term → Int
  | literal digits => natOfDigits digits
  | named text => σ (Name.ofVariable text)

/-- A literal below `2 ^ 53`, or a variable whose name is an identifier as it stands. -/
def isPlain : Term → Bool
  | literal digits => isNumeral digits && natOfDigits digits < Nat.pow 2 53
  | named text => Name.isUnquoted (Name.ofVariable text)

end Term

/-- The sign before a term. -/
def signWord (negative : Bool) : Kind × Text := if negative then (.minus, ['-']) else (.plus, ['+'])

/-- A first term, and more of them after signs. -/
def sumWords (f : Term → Kind × Text) (first : Term) : List (Bool × Term) → List (Kind × Text)
  | [] => [f first]
  | p :: rest => f first :: signWord p.1 :: sumWords f p.2 rest

/-- A term after its sign. -/
def signed (σ : Text → Int) (p : Bool × Term) : Int :=
  if p.1 then -p.2.value σ else p.2.value σ

def nest : Nat → List (Kind × Text) → List (Kind × Text)
  | 0, words => words
  | depth + 1, words => parens (nest depth words)

/-- A sum of terms in parentheses: how many pairs of them, whether a minus sign leads, the first
term and those after it, each with whether it is subtracted. -/
structure Amount where
  depth : Nat := 0
  negative : Bool := false
  first : Term
  rest : List (Bool × Term) := []

namespace Amount

/-- The terms without a leading sign. -/
def sum (a : Amount) (f : Term → Kind × Text) : List (Kind × Text) := sumWords f a.first a.rest

/-- The terms with a leading sign. -/
def core (a : Amount) (f : Term → Kind × Text) : List (Kind × Text) :=
  if a.negative then signWord true :: a.sum f else a.sum f

/-- The tokens that write the amount. -/
def spellings (a : Amount) : List (Kind × Text) := nest a.depth (a.core Term.spelling)

/-- The sum of the terms after the first. -/
def restValue (a : Amount) (σ : Text → Int) : Int := (a.rest.map (signed σ)).sum

def value (a : Amount) (σ : Text → Int) : Int := signed σ (a.negative, a.first) + a.restValue σ

/-- Whether each term is plain. -/
def isPlain (a : Amount) : Bool := a.first.isPlain && a.rest.all fun p => p.2.isPlain

end Amount

/-! ## Words -/

variable {first t : Term} {rest : List (Bool × Term)} {c : Char}

theorem exists_sumWords_eq (f : Term → Kind × Text) (first : Term) (rest : List (Bool × Term)) :
    ∃ words, sumWords f first rest = f first :: words := by
  cases rest <;> exact ⟨_, rfl⟩

theorem fits_word (h : t.isPlain) : fits t.word.1 t.word.2 := by
  cases t with
  | literal digits => exact (Bool.and_eq_true_iff.mp h).1
  | named text => exact h

theorem endsBefore_word (t : Term) : endsBefore t.word.1 = isBreak := by
  cases t <;> rfl

theorem fits_signWord (negative : Bool) : fits (signWord negative).1 (signWord negative).2 := by
  cases negative <;> rfl

/-- Terms have letters, digits and the marks of names only. -/
theorem isNameChar_or_isDigit_of_mem_word (h : t.isPlain) (hc : c ∈ t.word.2) :
    isNameChar .unicode c ∨ c.isDigit := by
  cases t with
  | literal digits =>
      have hdigits := (Bool.and_eq_true_iff.mp (Bool.and_eq_true_iff.mp h).1).2
      exact .inr (List.all_eq_true.mp hdigits c hc)
  | named text =>
      have hword := (Bool.and_eq_true_iff.mp h).1
      replace hc : c ∈ Name.ofVariable text := hc
      cases hname : Name.ofVariable text with
      | nil =>
          rw [hname] at hc
          cases hc
      | cons d name =>
          rw [hname] at hword hc
          obtain ⟨hd, hrest⟩ := Bool.and_eq_true_iff.mp hword
          rcases List.mem_cons.mp hc with rfl | hc
          · exact .inl (isNameChar_of_startsWord hd)
          · exact .inl (List.all_eq_true.mp hrest c hc)

theorem not_isBreak_of_mem_word (h : t.isPlain) (hc : c ∈ t.word.2) : isBreak c = false := by
  cases hbreak : isBreak c with
  | false => rfl
  | true =>
      have hgoes := goesOn_of_isBreak hbreak
      rcases isNameChar_or_isDigit_of_mem_word h hc with hname | hdigit
      · simp [goesOn, hname] at hgoes
      · simp [goesOn, hdigit] at hgoes

/-- No sign stands before a term, so a minus sign there opens no comment. -/
theorem readsAs_signWord {next : Option Char} (negative : Bool) (hfirst : first.isPlain)
    (h : readsAs (sumWords Term.word first rest) next) :
    readsAs (signWord negative :: sumWords Term.word first rest) next := by
  have hterm : first.word.2.head?.all (endsBefore (signWord negative).1) := by
    rw [Option.all_eq_true]
    intro c hc
    have hbreak := not_isBreak_of_mem_word hfirst (List.mem_of_mem_head? hc)
    cases negative with
    | false => rfl
    | true =>
        show decide (c ≠ '-') = true
        rw [decide_eq_true_eq]
        rintro rfl
        cases hbreak
  obtain ⟨words, hwords⟩ := exists_sumWords_eq Term.word first rest
  rw [readsAs, fits_signWord, h, hwords, Bool.and_true, Bool.true_and]
  exact hterm

theorem readsAs_sumWords {next : Option Char} (hfirst : first.isPlain)
    (hrest : ∀ p ∈ rest, p.2.isPlain) (hnext : next.all isBreak) :
    readsAs (sumWords Term.word first rest) next := by
  induction rest generalizing first with
  | nil =>
      rw [sumWords, readsAs, fits_word hfirst, endsBefore_word]
      simpa [readsAs] using hnext
  | cons p rest ih =>
      obtain ⟨hp, hrest⟩ := List.forall_mem_cons.mp hrest
      have hsign : (signWord p.1).2.head?.all isBreak := by cases p.1 <;> rfl
      rw [sumWords, readsAs, fits_word hfirst, endsBefore_word,
        readsAs_signWord p.1 hp (ih hp hrest), Bool.and_true, Bool.true_and]
      exact hsign

theorem readsAs_nest {words : List (Kind × Text)}
    (h : ∀ next : Option Char, next.all isBreak → readsAs words next) (depth : Nat)
    (next : Option Char) (hnext : next.all isBreak) : readsAs (nest depth words) next := by
  induction depth generalizing next with
  | zero => exact h next hnext
  | succ depth ih => exact readsAs_parens (ih _ rfl) next

namespace Amount

variable {a : Amount}

theorem isPlain_first (h : a.isPlain) : a.first.isPlain := (Bool.and_eq_true_iff.mp h).1

theorem isPlain_rest (h : a.isPlain) : ∀ p ∈ a.rest, p.2.isPlain :=
  List.all_eq_true.mp (Bool.and_eq_true_iff.mp h).2

theorem readsAs_sum (h : a.isPlain) (next : Option Char) (hnext : next.all isBreak) :
    readsAs (a.sum Term.word) next :=
  readsAs_sumWords (isPlain_first h) (isPlain_rest h) hnext

theorem readsAs_core (h : a.isPlain) (next : Option Char) (hnext : next.all isBreak) :
    readsAs (a.core Term.word) next := by
  rw [core]
  split
  · exact readsAs_signWord true (isPlain_first h) (readsAs_sum h next hnext)
  · exact readsAs_sum h next hnext

end Amount

/-! ## Values -/

theorem step_word (σ : Text → Int) {l : Level} (hl : l.term = none) (t : Term) (ls : List Level) :
    step σ (l :: ls) t.word =
      some ({ l with factor := 1, term := some (l.factor * t.value σ) } :: ls) := by
  cases t <;> simp [step, Term.word, Term.value, Level.operand?, hl]

theorem step_signWord (σ : Text → Int) (l : Level) (negative : Bool) (ls : List Level) :
    step σ (l :: ls) (signWord negative) = some (l.sign (if negative then -1 else 1) :: ls) := by
  cases negative <;> rfl

/-- A sum is added up after what the level holds, with the level's factor for its first term. -/
theorem foldlM_sumWords (σ : Text → Int) {l : Level} (hl : l.term = none) (first : Term)
    (rest : List (Bool × Term)) (ls : List Level) :
    ∃ l' : Level, (sumWords Term.word first rest).foldlM (step σ) (l :: ls) = some (l' :: ls) ∧
      l'.value? = some (l.total + l.factor * first.value σ + (rest.map (signed σ)).sum) := by
  induction rest generalizing l first with
  | nil =>
      refine ⟨{ l with factor := 1, term := some (l.factor * first.value σ) }, ?_, ?_⟩
      · rw [sumWords, List.foldlM_cons, step_word σ hl]
        rfl
      · simp [Level.value?]
  | cons p rest ih =>
      obtain ⟨l', hrun, hvalue⟩ :=
        ih (l := ⟨l.total + l.factor * first.value σ, if p.1 then -1 else 1, none⟩) rfl p.2
      refine ⟨l', ?_, ?_⟩
      · rw [sumWords, List.foldlM_cons, step_word σ hl, Option.bind_eq_bind, Option.bind_some,
          List.foldlM_cons, step_signWord]
        exact hrun
      · rw [hvalue, List.map_cons, List.sum_cons, signed]
        cases p.1 <;> simp <;> omega

namespace Amount

variable (a : Amount) (σ : Text → Int)

theorem yields_sum : Yields σ (a.sum Term.word) (a.first.value σ + a.restValue σ) := by
  intro ls
  obtain ⟨l, hrun, hvalue⟩ := foldlM_sumWords σ (l := {}) rfl a.first a.rest ls
  exact ⟨l, hrun, by simpa [restValue] using hvalue⟩

theorem yields_core : Yields σ (a.core Term.word) (a.value σ) := by
  cases hnegative : a.negative with
  | false => simpa [core, hnegative, value, signed] using a.yields_sum σ
  | true =>
      intro ls
      obtain ⟨l, hrun, hvalue⟩ := foldlM_sumWords σ (l := { factor := -1 }) rfl a.first a.rest ls
      refine ⟨l, ?_, ?_⟩
      · rw [core, hnegative, if_pos rfl, List.foldlM_cons, step_signWord]
        exact hrun
      · simpa [value, signed, hnegative, restValue] using hvalue

end Amount

theorem yields_nest {σ : Text → Int} {words : List (Kind × Text)} {x : Int} (h : Yields σ words x)
    (depth : Nat) : Yields σ (nest depth words) x := by
  induction depth with
  | zero => exact h
  | succ depth ih => exact ih.parens

end SqlMigration.Expression
