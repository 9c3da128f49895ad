import SqlMigration.Expression.Basic
import SqlMigration.Token.Nesting

/-! # Concatenation

The sign of addition also joins strings, which the target does with a function.
-/

namespace SqlMigration.Expression

/-- The operands of the plus signs outside parentheses, when `depth` of these are open at the
start. -/
def operandsFrom (depth : Nat) : List Token → List (List Token)
  | [] => [[]]
  | t :: ts =>
      if depth = 0 && t.kind = .plus then [] :: operandsFrom depth ts
      else
        let depth :=
          match t.kind with
          | .leftParen => depth + 1
          | .rightParen => depth - 1
          | _ => depth
        match operandsFrom depth ts with
        | [] => [[t]]
        | operand :: operands => (t :: operand) :: operands

/-- The operands of the plus signs outside parentheses. -/
def operands (ts : List Token) : List (List Token) := operandsFrom 0 ts

/-- The call that joins the operands of a sum, if one of its literals outside parentheses is a
string and there are at least two operands. -/
def concat? (ts : List Token) : Option Text :=
  let parts := ((operands ts).map fun operand => (emit operand).trim).filter fun p => !p.isEmpty
  if (topLevel? (fun t => t.kind.isString) ts).isSome && 1 < parts.length then
    some ("CONCAT(".toList ++ ", ".toList.intercalate parts ++ [')'])
  else none

end SqlMigration.Expression
