import SqlMigration.Dialect.Postgres
import SqlMigration.Pattern

/-! # Dynamic SQL

`EXEC` with a string or a variable in parentheses runs the statements that it holds.
-/

namespace SqlMigration.DynamicSql

/-- `EXEC(...)` with an argument of one of the given kinds. -/
def argumentPattern (kinds : List Kind) : Pattern :=
  { steps :=
      [⟨[.keyword .EXEC, .keyword .EXECUTE], .nothing⟩, .kind .leftParen, ⟨kinds, .raw⟩,
        .kind .rightParen]
    dialect := .postgres }

/-- The text of the argument of `EXEC(...)`, if it is of one of the given kinds. -/
def argument? (kinds : List Kind) (ts : List Token) : Option Text :=
  ((argumentPattern kinds).run? ts).bind fun (captures, _) => captures.values.head?

/-- Takes each doubled quote for one. -/
def unescape : Text → Text
  | '\'' :: '\'' :: s => '\'' :: unescape s
  | c :: s => c :: unescape s
  | [] => []

/-- What a string literal holds. -/
def literalBody? (s : Text) : Option Text :=
  let s :=
    match s with
    | 'N' :: s => s
    | 'n' :: s => s
    | s => s
  match s with
  | '\'' :: s => (Text.dropFinal? '\'' s).map unescape
  | _ => none

/-- The statements in the string of `EXEC('...')`. -/
def stringArgument? (ts : List Token) : Option Text :=
  (argument? [.string, .unicodeString] ts).bind literalBody?

/-- The variable of `EXEC(@name)`, as written. -/
def variableArgument? (ts : List Token) : Option Text := argument? [.variable] ts

end SqlMigration.DynamicSql
