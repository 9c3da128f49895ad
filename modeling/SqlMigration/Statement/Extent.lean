import SqlMigration.Token.Nesting

/-! # Where statements end

Statements need no separator, so their ends are found from the keywords that open the next one.

* The definition of a view, procedure, function or trigger runs to `GO` or to the end.
* A block runs to its own `END`.
* `IF` and `WHILE` take a condition, a statement and, after `ELSE`, one more.
* Any other statement ends after a semicolon, or before `END`, `ELSE`, `GO` or a keyword that
  opens a statement and does not continue this one.

All this is looked for outside parentheses.
-/

namespace SqlMigration

/-- The tokens of a statement, from its first up to but without `stop`. -/
structure Bounds where
  start : Nat
  stop : Nat
  deriving DecidableEq, Repr

theorem length_skipTrivia_le (ts : List Token) : (skipTrivia ts).length ≤ ts.length :=
  (List.dropWhile_sublist _).length_le

theorem length_skipTrivia_tail_le (ts : List Token) :
    (skipTrivia (skipTrivia ts).tail).length ≤ ts.length := by
  have h₁ := length_skipTrivia_le ts
  have h₂ := length_skipTrivia_le (skipTrivia ts).tail
  simp only [List.length_tail] at h₂
  omega

namespace Statement

/-- Whether the tokens after `CREATE` or `ALTER` make it a definition with a body. -/
def definesModule (ts : List Token) : Bool :=
  match firstKeyword? ts with
  | some .VIEW | some .PROCEDURE | some .PROC | some .FUNCTION | some .TRIGGER => true
  | _ => false

/-- The length of a definition whose first token stands before `ts`. -/
def moduleExtent (ts : List Token) : Nat :=
  1 + significantLength (ts.takeWhile fun t => !t.is .GO)

/-- Takes in a semicolon that follows the first `n` tokens. -/
def withSemicolon (ts : List Token) (n : Nat) : Nat :=
  let rest := ts.drop n
  if (firstSignificant? rest).any fun t => t.kind = .semicolon then n + triviaLength rest + 1
  else n

/-- The length of the block at the head of the list, with the word of `END TRY` or `END CATCH`
and a semicolon. -/
def blockExtent (ts : List Token) : Nat :=
  match throughEnd? ts with
  | some n =>
      let rest := ts.drop n
      if (firstSignificant? rest).any fun t => t.isWord "try" || t.isWord "catch" then
        withSemicolon ts (n + triviaLength rest + 1)
      else withSemicolon ts n
  | none => max 1 (significantLength ts)

/-- What a statement still waits for. -/
structure Pending where
  /-- The rows of an `INSERT`. -/
  source : Bool := false
  /-- The `SET` of an `UPDATE`. -/
  assignment : Bool := false
  /-- The statement after a leading `WITH`. -/
  body : Bool := false
  deriving DecidableEq, Repr

/-- What is waited for once `k` has been seen. -/
def Pending.note (p : Pending) : Keyword → Pending
  | .INSERT => { p with source := true }
  | .UPDATE => { p with assignment := true }
  | .WITH => { p with body := true }
  | _ => p

/-- What is waited for after `k`, if `k` goes on with the statement although it can open one.
`prev` is the keyword just before it. -/
def Pending.continue? (p : Pending) (k : Keyword) (prev : Option Keyword) : Option Pending :=
  let arm := [.UNION, .ALL, .EXCEPT, .INTERSECT, .FOR].map some
  if k = .SELECT && arm.contains prev then some p
  else if prev = some .THEN && [.UPDATE, .DELETE, .INSERT].contains k then some (p.note k)
  else if p.source && [.SELECT, .EXEC, .EXECUTE].contains k then some { p with source := false }
  else if p.assignment && k = .SET then some { p with assignment := false }
  else if p.body && [.SELECT, .INSERT, .UPDATE, .DELETE, .MERGE].contains k then
    some ({ p with body := false }.note k)
  else none

/-- The state of a scan through a plain statement. -/
structure Scan where
  pending : Pending
  /-- The number of open parentheses. -/
  depth : Nat
  /-- The number of open `CASE` expressions. -/
  cases : Nat
  /-- The last significant token, if it is a keyword. -/
  prev : Option Keyword
  deriving DecidableEq, Repr

/-- Whether `k` is the `DROP` or `ALTER` of a clause of `ALTER TABLE`, where `rest` follows it. -/
def isAlterClause (first : Option Keyword) (k : Keyword) (rest : List Token) : Bool :=
  first = some .ALTER && (k = .DROP || k = .ALTER) &&
    (firstKeyword? rest = some .COLUMN || firstKeyword? rest = some .CONSTRAINT)

/-- The state after a keyword outside parentheses, or nothing if the statement ends before it. -/
def Scan.keyword? (first : Option Keyword) (st : Scan) (k : Keyword) (rest : List Token) :
    Option Scan :=
  match k with
  | .CASE => some { st with cases := st.cases + 1 }
  | .END => if st.cases = 0 then none else some { st with cases := st.cases - 1 }
  | .GO => none
  | .ELSE => if st.cases = 0 then none else some st
  | .VALUES => some { st with pending := { st.pending with source := false } }
  | k =>
      if k.startsStatement then
        match st.pending.continue? k st.prev with
        | some pending => some { st with pending }
        | none => if isAlterClause first k rest then some st else none
      else some st

/-- Where a plain statement stands after one of its significant tokens has been looked at. -/
inductive Verdict where
  /-- The statement has ended before the token. -/
  | before
  /-- The statement ends with the token. -/
  | after
  | goesOn (st : Scan)
  deriving DecidableEq, Repr

/-- Looks at a significant token of a statement that opens with `first`, where `rest` follows. -/
def Scan.pass (first : Option Keyword) (st : Scan) (t : Token) (rest : List Token) : Verdict :=
  match t.kind with
  | .leftParen => .goesOn { st with depth := st.depth + 1, prev := none }
  | .rightParen => .goesOn { st with depth := st.depth - 1, prev := none }
  | .semicolon => if st.depth = 0 then .after else .goesOn { st with prev := none }
  | .keyword k =>
      if st.depth = 0 then
        match st.keyword? first k rest with
        | some st => .goesOn { st with prev := some k }
        | none => .before
      else .goesOn { st with prev := some k }
  | _ => .goesOn { st with prev := none }

/-- The length of a plain statement that opens with `first`. Of it `i` tokens have been passed,
and the last significant one of these ended at `stop`. -/
def plainFrom (first : Option Keyword) (st : Scan) (i stop : Nat) : List Token → Nat
  | [] => stop
  | t :: ts =>
      if t.isTrivia then plainFrom first st (i + 1) stop ts
      else
        match st.pass first t ts with
        | .before => stop
        | .after => i + 1
        | .goesOn st => plainFrom first st (i + 1) (i + 1) ts

/-- The length of a plain statement with first token `t`. -/
def plainExtent (t : Token) (ts : List Token) : Nat :=
  let first := t.keyword?
  let pending := first.elim {} ({} : Pending).note
  match t.kind with
  | .semicolon => 1
  | .leftParen => plainFrom first ⟨pending, 1, 0, first⟩ 1 1 ts
  | _ => plainFrom first ⟨pending, 0, 0, first⟩ 1 1 ts

/-- How a statement finds its end, as its first tokens tell. -/
inductive Opening where
  | separator
  | definition
  | block
  | conditional
  | plain
  deriving DecidableEq, Repr

/-- How the statement with first token `t` finds its end. -/
def opening (t : Token) (ts : List Token) : Opening :=
  match t.keyword? with
  | some .GO => .separator
  | some .CREATE | some .ALTER => if definesModule ts then .definition else .plain
  | some .BEGIN => if opensTransaction ts then .plain else .block
  | some .IF | some .WHILE => .conditional
  | _ => .plain

/-- The length of the statement whose first token is the head of the list. -/
def extent : List Token → Nat
  | [] => 0
  | t :: ts =>
      match opening t ts with
      | .separator => 1
      | .definition => moduleExtent ts
      | .block => blockExtent (t :: ts)
      | .conditional =>
          match topLevel? (fun u => u.kind.startsStatement) ts with
          | none => max 1 (significantLength (t :: ts))
          | some k =>
              let n := k + max 1 (extent (ts.drop k))
              let rest := ts.drop n
              if (firstSignificant? rest).any fun u => u.is .ELSE then
                let m := n + triviaLength rest + 1
                let after := (skipTrivia rest).tail
                let otherwise := skipTrivia after
                if otherwise.isEmpty then 1 + m
                else 1 + m + triviaLength after + max 1 (extent otherwise)
              else 1 + n
      | .plain => plainExtent t ts
  termination_by ts => ts.length
  decreasing_by
    · simp only [List.length_drop, List.length_cons]
      omega
    · exact Nat.lt_succ_of_le
        (Nat.le_trans (length_skipTrivia_tail_le _) (List.drop_sublist _ _).length_le)

/-- The bounds of the statements of `ts`, a list that starts at position `i`. -/
def boundsFrom (i : Nat) : List Token → List Bounds
  | [] => []
  | t :: ts =>
      if t.isTrivia then boundsFrom (i + 1) ts
      else
        let n := extent (t :: ts) - 1
        ⟨i, i + n + 1⟩ :: boundsFrom (i + n + 1) (ts.drop n)
  termination_by ts => ts.length
  decreasing_by all_goals simp only [List.length_drop, List.length_cons]; omega

/-- The bounds of the statements of a list of tokens, in order. -/
def bounds (ts : List Token) : List Bounds := boundsFrom 0 ts

end Statement

end SqlMigration
