import SqlMigration.Token.Basic

/-! # Nesting

Positions in a list of tokens that depend on how parentheses and blocks nest. A closing
parenthesis with nothing open is passed over.
-/

namespace SqlMigration

/-- The position of the first token that satisfies `p` outside parentheses, when `depth` of them
are open at the start. -/
def topLevelFrom? (p : Token → Bool) : Nat → List Token → Option Nat
  | _, [] => none
  | depth, t :: ts =>
      match t.kind with
      | .leftParen => (topLevelFrom? p (depth + 1) ts).map (· + 1)
      | .rightParen => (topLevelFrom? p (depth - 1) ts).map (· + 1)
      | _ =>
          if depth = 0 && p t then some 0
          else (topLevelFrom? p depth ts).map (· + 1)

/-- The position of the first token that satisfies `p` outside parentheses. -/
def topLevel? (p : Token → Bool) (ts : List Token) : Option Nat := topLevelFrom? p 0 ts

/-- The position of the parenthesis that closes the outermost of `depth` open ones. -/
def closingParenFrom? : Nat → List Token → Option Nat
  | _, [] => none
  | depth, t :: ts =>
      match t.kind with
      | .leftParen => (closingParenFrom? (depth + 1) ts).map (· + 1)
      | .rightParen =>
          if depth ≤ 1 then some 0 else (closingParenFrom? (depth - 1) ts).map (· + 1)
      | _ => (closingParenFrom? depth ts).map (· + 1)

/-- The position of the parenthesis that closes the one at the head of the list. -/
def closingParen? (ts : List Token) : Option Nat := closingParenFrom? 0 ts

/-- The position where the parenthesis at the head of the list closes. A group that never closes
reaches to the last token. -/
def groupEnd (ts : List Token) : Nat := (closingParen? ts).getD (ts.length - 1)

/-- Whether the tokens after a `BEGIN` make it the start of a transaction. -/
def opensTransaction (ts : List Token) : Bool :=
  match firstKeyword? ts with
  | some .TRANSACTION | some .TRAN => true
  | _ => false

/-- The number of tokens through the `END` that closes the outermost of `depth` open blocks.
`BEGIN` and `CASE` open one, but not the `BEGIN` of a transaction. -/
def throughEndFrom? : Nat → List Token → Option Nat
  | _, [] => none
  | depth, t :: ts =>
      match t.keyword? with
      | some .BEGIN =>
          (throughEndFrom? (if opensTransaction ts then depth else depth + 1) ts).map (· + 1)
      | some .CASE => (throughEndFrom? (depth + 1) ts).map (· + 1)
      | some .END => if depth ≤ 1 then some 1 else (throughEndFrom? (depth - 1) ts).map (· + 1)
      | _ => (throughEndFrom? depth ts).map (· + 1)

/-- The number of tokens of the block at the head of the list, through its `END`. -/
def throughEnd? (ts : List Token) : Option Nat := throughEndFrom? 0 ts

end SqlMigration
