import SqlMigration.Text.Basic

/-! # Enclosing parentheses -/

namespace SqlMigration.Text

/-- Whether the parentheses of `s` outside string literals are balanced, with `depth` open at the
start and never more closed than opened. -/
def balancedFrom (depth : Nat) (inString : Bool) : Text → Bool
  | [] => depth = 0
  | c :: s =>
      if c = '\'' then balancedFrom depth (!inString) s
      else if c = '(' && !inString then balancedFrom (depth + 1) inString s
      else if c = ')' && !inString then depth ≠ 0 && balancedFrom (depth - 1) inString s
      else balancedFrom depth inString s

/-- The text between a first `(` and a last `)`. -/
def betweenParens? : Text → Option Text
  | '(' :: s => dropFinal? ')' s
  | _ => none

/-- Trims a text and takes away one pair of parentheses if it encloses all of it. -/
def stripParens (s : Text) : Text :=
  match betweenParens? s.trim with
  | some inner => if balancedFrom 0 false inner then inner.trim else s.trim
  | none => s.trim

end SqlMigration.Text
