import SqlMigration.Column
import SqlMigration.Expression.Basic

/-! # Declarations of variables

The target declares variables in a section of their own, so a `DECLARE` is taken apart into
variables and the values they start with. Cursors and table variables are not variables of this
kind.
-/

namespace SqlMigration

/-- A variable and its type for the target. -/
structure Variable where
  name : Text
  typeText : Text
  deriving DecidableEq, Repr

/-- A variable with the text of its first value. -/
structure Declaration where
  declared : Variable
  value : Option Text
  deriving DecidableEq, Repr

namespace Declaration

/-- The number of tokens of a first value, when `depth` parentheses and `cases` of `CASE` are
open: up to a comma, a semicolon or the next statement. -/
def valueLength (depth cases : Nat) : List Token → Nat
  | [] => 0
  | t :: ts =>
      match t.kind with
      | .leftParen => valueLength (depth + 1) cases ts + 1
      | .rightParen => valueLength (depth - 1) cases ts + 1
      | .comma | .semicolon => if depth = 0 then 0 else valueLength depth cases ts + 1
      | .keyword .CASE => valueLength depth (if depth = 0 then cases + 1 else cases) ts + 1
      | .keyword .END => valueLength depth (if depth = 0 then cases - 1 else cases) ts + 1
      | .keyword k =>
          if depth = 0 && cases = 0 && k.startsStatement then 0
          else valueLength depth cases ts + 1
      | _ => valueLength depth cases ts + 1

/-- The type of a variable, after an optional `AS`, and the number of its tokens. -/
def typeAt? (d : Dialect) (ts : List Token) : Option (Text × Nat) :=
  let start :=
    if firstKeyword? ts = some .AS then triviaLength ts + 1 else 0
  let rest := ts.drop start
  match skipTrivia rest with
  | [] => none
  | t :: after =>
      if t.kind.isIdentifier then
        let (text, n) := Column.dataType d t after
        some (text, start + triviaLength rest + 1 + n)
      else none

/-- The first value after an equals sign, and the number of its tokens with the sign. -/
def valueAt? (ts : List Token) : Option (Text × Nat) :=
  match skipTrivia ts with
  | [] => none
  | t :: after =>
      if t.kind = .eq then
        let n := valueLength 0 0 after
        some ((Expression.emit (after.take n)).trim, triviaLength ts + 1 + n)
      else none

/-- The declaration at the head of the list, and the number of its tokens. -/
def one? (d : Dialect) (ts : List Token) : Option (Declaration × Nat) :=
  match skipTrivia ts with
  | [] => none
  | t :: after =>
      if t.kind = .variable then do
        let (typeText, n) ← typeAt? d after
        let declared : Variable := ⟨Name.ofVariable t.text, typeText⟩
        let start := triviaLength ts + 1 + n
        match valueAt? (after.drop n) with
        | some (value, m) => some (⟨declared, some value⟩, start + m)
        | none => some (⟨declared, none⟩, start)
      else none

/-- The declarations after a `DECLARE`, with commas between them, and the number of their
tokens. -/
def list (d : Dialect) (ts : List Token) : List Declaration × Nat :=
  match one? d ts with
  | none => ([], 0)
  | some (declaration, n) =>
      match _h : skipTrivia (ts.drop n) with
      | [] => ([declaration], n)
      | t :: rest =>
          if t.kind = .comma then
            match list d rest with
            | ([], _) => ([declaration], n)
            | (declarations, m) =>
                (declaration :: declarations, n + triviaLength (ts.drop n) + 1 + m)
          else ([declaration], n)
  termination_by ts.length
  decreasing_by
    have h₁ := Column.length_lt_of_skipTrivia_eq_cons _h
    have h₂ := (List.drop_sublist n ts).length_le
    omega

end Declaration

/-- Every variable that is declared in a list of tokens. -/
def declaredVariables (d : Dialect) : List Token → List Variable
  | [] => []
  | t :: ts =>
      if t.is .DECLARE then
        let (declarations, n) := Declaration.list d ts
        declarations.map Declaration.declared ++ declaredVariables d (ts.drop n)
      else declaredVariables d ts
  termination_by ts => ts.length
  decreasing_by all_goals simp only [List.length_drop, List.length_cons]; omega

end SqlMigration
