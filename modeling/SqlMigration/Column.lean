import SqlMigration.Dialect.Basic
import SqlMigration.Name
import SqlMigration.Statement.Extent
import SqlMigration.Text.Parens

/-! # Column definitions

A column definition is a name, a type and any number of options. The scan goes on to a comma,
semicolon or closing parenthesis, or to a keyword that opens a statement, and passes over words
it does not know.
-/

namespace SqlMigration

/-- The type of a column and its constraints. -/
structure ColumnType where
  dataType : Text := []
  nullable : Bool := true
  primaryKey : Bool := false
  identity : Bool := false
  defaultValue : Option Text := none
  deriving DecidableEq, Repr

structure Column where
  name : Text
  type : ColumnType
  deriving DecidableEq, Repr

namespace Column

/-- The text of the significant tokens, with a space after each comma and nowhere else. -/
def compactText (ts : List Token) : Text :=
  (ts.filter fun t => !t.isTrivia).flatMap fun t =>
    if t.kind = .comma then t.text ++ [' '] else t.text

/-- The parts of a compact text between its commas, without empty ones. -/
def argumentTexts (s : Text) : List Text :=
  ((s.splitOn ',').map Text.trim).filter fun a => !a.isEmpty

/-- The mapped type whose name is `t`, and how many of the tokens after it belong to it. -/
def dataType (d : Dialect) (t : Token) (ts : List Token) : Text × Nat :=
  let name := Name.trimQuotes t.text
  let gap := triviaLength ts
  match ts.drop gap with
  | [] => (d.mapType name [], 0)
  | u :: inner =>
      if u.kind = .leftParen then
        let close := groupEnd (u :: inner)
        (d.mapType name (argumentTexts (compactText (inner.take (close - 1)))), gap + close + 1)
      else (d.mapType name [], 0)

/-- A default value and the number of its tokens: a group in parentheses, a call, or one token
with a sign if it is a number. -/
def defaultValue : List Token → Text × Nat
  | [] => ([], 0)
  | t :: ts =>
      if t.kind = .leftParen then
        let close := groupEnd (t :: ts)
        (Text.stripParens (compactText ((t :: ts).take (close + 1))), close + 1)
      else
        let gap := triviaLength ts
        match ts.drop gap with
        | [] => (t.text, 1)
        | u :: rest =>
            if t.kind.isIdentifier && u.kind = .leftParen then
              let n := gap + groupEnd (u :: rest) + 2
              (compactText ((t :: ts).take n), n)
            else if t.kind = .minus && u.kind.isNumber then ('-' :: u.text, gap + 2)
            else (t.text, 1)

/-- Whether the first significant token is the keyword `k`. -/
def comesNext (k : Keyword) (ts : List Token) : Bool := firstKeyword? ts = some k

/-- The type with the option that starts with `t`, and how many of the tokens after `t` belong to
it; or nothing if the definition ends before `t`. -/
def option? (d : Dialect) (c : ColumnType) (t : Token) (ts : List Token) :
    Option (ColumnType × Nat) :=
  let next := triviaLength ts + 1
  match t.kind with
  | .comma | .semicolon | .rightParen => none
  | .leftParen => some (c, groupEnd (t :: ts))
  | .keyword .NOT =>
      if comesNext .NULL ts then some ({ c with nullable := false }, next) else some (c, 0)
  | .keyword .NULL => some ({ c with nullable := true }, 0)
  | .keyword .IDENTITY =>
      let c := { c with identity := true }
      let rest := skipTrivia ts
      if rest.head?.any fun u => u.kind = .leftParen then some (c, next + groupEnd rest)
      else some (c, 0)
  | .keyword .PRIMARY =>
      if comesNext .KEY ts then some ({ c with primaryKey := true }, next) else some (c, 0)
  | .keyword .CONSTRAINT => some (c, next)
  | .keyword .DEFAULT =>
      let (value, n) := defaultValue (skipTrivia ts)
      some ({ c with defaultValue := some (d.mapDefault value) }, triviaLength ts + n)
  | .keyword k => if k.startsStatement then none else some (c, 0)
  | _ => some (c, 0)

theorem length_lt_of_skipTrivia_eq_cons {ts rest : List Token} {t : Token}
    (h : skipTrivia ts = t :: rest) : rest.length < ts.length := by
  have := length_skipTrivia_le ts
  rw [h, List.length_cons] at this
  omega

/-- Reads the options of a column. The count ends at the token that stopped the scan; trivia at
the end of the list are not counted. -/
def options (d : Dialect) (c : ColumnType) (ts : List Token) : ColumnType × Nat :=
  match _h : skipTrivia ts with
  | [] => (c, 0)
  | t :: rest =>
      match option? d c t rest with
      | none => (c, triviaLength ts)
      | some (c, n) =>
          let (c, m) := options d c (rest.drop n)
          (c, triviaLength ts + 1 + n + m)
  termination_by ts.length
  decreasing_by
    have := length_lt_of_skipTrivia_eq_cons _h
    simp only [List.length_drop]
    omega

/-- The column whose name is `t`, and how many of the tokens after it belong to it. -/
def define (d : Dialect) (t : Token) (ts : List Token) : Column × Nat :=
  let rest := skipTrivia ts
  let (start, n) : ColumnType × Nat :=
    match rest with
    | u :: us =>
        if u.kind.isIdentifier then
          let (dataType, n) := dataType d u us
          ({ dataType }, triviaLength ts + 1 + n)
        else ({}, 0)
    | [] => ({}, 0)
  let (type, m) := options d start (ts.drop n)
  (⟨Name.normalize t.text, type⟩, n + m)

end Column

end SqlMigration
