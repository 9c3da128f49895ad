import SqlMigration.Expression.Interval
import SqlMigration.Name
import SqlMigration.Statement.Extent

/-! # Expressions

An expression is emitted token by token. Calls of `CONVERT` and `DATEADD` are emitted as a whole,
with their arguments emitted in the same way; `dbo` qualifiers are left out; variables, temporary
tables and bracketed names get the target's spelling. All else is copied.
-/

namespace SqlMigration.Expression

/-- The text of a token by itself. -/
def tokenText (t : Token) : Text :=
  match t.kind with
  | .variable => Name.ofVariable t.text
  | .identifier =>
      if t.text.head? = some '#' then Name.render (Name.dropTemporaryMark t.text) else t.text
  | .bracketed => Name.render t.text
  | _ => t.text

/-- A cast from the arguments of `CONVERT`, a type and a value. A third argument, the style, has
no counterpart. -/
def castText (args : List Text) : Text :=
  let type := Text.trim (args[0]?.getD [])
  let value := Text.stripParens (args[1]?.getD [])
  "CAST(".toList ++ value ++ " AS ".toList ++ type ++ [')']

/-- Puts a text in front of the first argument. -/
def prepend (s : Text) : List Text → List Text
  | [] => [s]
  | arg :: args => (s ++ arg) :: args

mutual

/-- The text for `t`, and how many of the tokens after it that covers. -/
def emitHead (t : Token) (ts : List Token) : Text × Nat :=
  if t.is .CONVERT then
    match callArguments? ts with
    | some (args, n) => (castText args, n)
    | none => (t.text, 0)
  else if t.isWord "dateadd" then
    match callArguments? ts with
    | some (args, n) => (dateAddText args, n)
    | none => (t.text, 0)
  else if startsWithDbo (t :: ts) then ([], 1)
  else (tokenText t, 0)
  termination_by (ts.length, 2)

/-- The arguments of a call whose name stands before `ts`, and the number of tokens through its
closing parenthesis. A call that is never closed takes everything. -/
def callArguments? (ts : List Token) : Option (List Text × Nat) :=
  match _h : skipTrivia ts with
  | [] => none
  | u :: inner =>
      if u.kind = .leftParen then
        let (args, n) := arguments 0 inner
        some (args, triviaLength ts + 1 + n)
      else none
  termination_by (ts.length, 1)
  decreasing_by
    have := length_skipTrivia_le ts
    rw [_h, List.length_cons] at this
    exact Prod.Lex.left _ _ (by omega)

/-- The texts between the commas of an argument list, and the number of tokens through its end,
when `depth` parentheses are open inside it. -/
def arguments (depth : Nat) : List Token → List Text × Nat
  | [] => ([[]], 0)
  | t :: ts =>
      if depth = 0 && t.kind = .rightParen then ([[]], 1)
      else if depth = 0 && t.kind = .comma then
        let (args, n) := arguments 0 ts
        ([] :: args, n + 1)
      else
        let depth :=
          match t.kind with
          | .leftParen => depth + 1
          | .rightParen => depth - 1
          | _ => depth
        let (text, k) := emitHead t ts
        let (args, n) := arguments depth (ts.drop k)
        (prepend text args, k + 1 + n)
  termination_by ts => (ts.length, 0)
  decreasing_by
    all_goals
      apply Prod.Lex.left
      simp only [List.length_drop, List.length_cons]
      omega

end

/-- The text of an expression, or of any part of a statement. -/
def emit : List Token → Text
  | [] => []
  | t :: ts =>
      let (text, n) := emitHead t ts
      text ++ emit (ts.drop n)
  termination_by ts => ts.length
  decreasing_by simp only [List.length_drop, List.length_cons]; omega

/-- The text of the call whose name is at the cursor, and the cursor at its closing parenthesis.
A name without arguments is copied, and the cursor stays. -/
def callAt (render : List Text → Text) (ts : List Token) (cursor : Nat) : Text × Nat :=
  match ts.drop cursor with
  | [] => ([], cursor)
  | t :: rest =>
      match callArguments? rest with
      | some (args, n) => (render args, cursor + n)
      | none => (t.text, cursor)

/-- The cast for the call of `CONVERT` at the cursor. -/
def castAt (ts : List Token) (cursor : Nat) : Text × Nat := callAt castText ts cursor

/-- The date arithmetic for the call of `DATEADD` at the cursor. -/
def dateAddAt (ts : List Token) (cursor : Nat) : Text × Nat := callAt dateAddText ts cursor

end SqlMigration.Expression
