import SqlMigration.Statement.Extent

/-! # Headers, blocks and conditions

Each scanner looks at a list of tokens from a cursor on and gives the tokens it found and the
cursor after them. A cursor beyond the end counts as the end.
-/

namespace SqlMigration.Statement

/-- A part of a list of tokens, and the cursor after it. -/
abbrev Scanned := List Token × Nat

/-- The first `n` tokens from a cursor on. -/
def scanned (ts : List Token) (cursor n : Nat) : Scanned :=
  ((ts.drop cursor).take n, min cursor ts.length + n)

/-- Everything from the cursor on. -/
def remainder (ts : List Token) (cursor : Nat) : Scanned := (ts.drop cursor, ts.length)

/-- The length of a header, through the first `AS` outside parentheses, or else of everything. -/
def headerLength (ts : List Token) : Nat :=
  ((topLevel? (·.is .AS) ts).map (· + 1)).getD ts.length

/-- The header of a view or procedure. -/
def header (ts : List Token) (cursor : Nat) : Scanned :=
  scanned ts cursor (headerLength (ts.drop cursor))

/-- What can be created. -/
inductive ObjectClass where
  | view
  | other
  deriving DecidableEq, Repr

def ObjectClass.ofKeyword? : Keyword → Option ObjectClass
  | .VIEW => some .view
  | .TABLE | .PROCEDURE | .PROC | .FUNCTION | .INDEX => some .other
  | _ => none

/-- How many tokens after `CREATE` are looked at to see what is created. -/
def createReach : Nat := 10

/-- What the statement creates, as far as its first tokens tell. -/
def objectClass? (ts : List Token) : Option ObjectClass :=
  (((skipTrivia ts).tail.filter fun t => !t.isTrivia).take createReach).findSome? fun t =>
    t.keyword?.bind ObjectClass.ofKeyword?

/-- The header of a `CREATE` statement that makes a view. For another object nothing is taken, and
if there is no telling, everything. -/
def createHeader (ts : List Token) (cursor : Nat) : Scanned :=
  match objectClass? (ts.drop cursor) with
  | some .view => header ts cursor
  | some .other => ([], cursor)
  | none => remainder ts cursor

/-- The kind that ends a block opened by a token of kind `k`. -/
def terminator? : Kind → Option Kind
  | .keyword .BEGIN => some (.keyword .END)
  | .leftParen => some .rightParen
  | _ => none

/-- The position of the last token of a kind. -/
def lastOf? (k : Kind) (ts : List Token) : Option Nat :=
  match (ts.reverse.dropWhile fun t => t.kind ≠ k).length with
  | 0 => none
  | n + 1 => some n

/-- The inside of the block at the head of the list and the number of tokens of the block. It ends
with the last `END` or `)` there is, so the list should hold no other block. -/
def blockInside? (ts : List Token) : Option (List Token × Nat) :=
  match skipTrivia ts with
  | [] => none
  | t :: rest => do
      let k ← terminator? t.kind
      let n ← lastOf? k rest
      some (rest.take n, triviaLength ts + n + 2)

theorem length_lt_of_blockInside? {ts inner : List Token} {n : Nat}
    (h : blockInside? ts = some (inner, n)) : inner.length < ts.length := by
  unfold blockInside? at h
  split at h
  · simp at h
  · next t rest heq =>
    have hle := length_skipTrivia_le ts
    rw [heq, List.length_cons] at hle
    simp only [bind, Option.bind_eq_some_iff, Option.some.injEq, Prod.mk.injEq] at h
    obtain ⟨k, -, m, -, rfl, -⟩ := h
    simp only [List.length_take]
    omega

/-- The inside of the block at the cursor. -/
def findBlock? (ts : List Token) (cursor : Nat) : Option Scanned :=
  (blockInside? (ts.drop cursor)).map fun (inner, n) => (inner, cursor + n)

/-- The inside of the block at the cursor, or everything if there is no such block. -/
def blockOrRest (ts : List Token) (cursor : Nat) : Scanned :=
  (findBlock? ts cursor).getD (remainder ts cursor)

/-- The length of the condition of an `IF` or `WHILE`, with that keyword: up to a semicolon or a
keyword that opens a statement. -/
def conditionLength (ts : List Token) : Nat :=
  let n := triviaLength ts + 1
  match topLevel? (fun t => t.kind = .semicolon || t.kind.startsStatement) (ts.drop n) with
  | some i => n + i
  | none => ts.length

/-- The length of a body that is a single statement: through a semicolon, or to the last token
before an `ELSE`. Of the body `i` tokens have been passed, the last significant one of which ended
at `stop`. -/
def singleFrom (depth cases i stop : Nat) : List Token → Nat
  | [] => stop
  | t :: ts =>
      if t.isTrivia then singleFrom depth cases (i + 1) stop ts
      else
        match t.kind with
        | .leftParen => singleFrom (depth + 1) cases (i + 1) (i + 1) ts
        | .rightParen => singleFrom (depth - 1) cases (i + 1) (i + 1) ts
        | .semicolon => if depth = 0 then i + 1 else singleFrom depth cases (i + 1) (i + 1) ts
        | .keyword .CASE =>
            singleFrom depth (if depth = 0 then cases + 1 else cases) (i + 1) (i + 1) ts
        | .keyword .END =>
            singleFrom depth (if depth = 0 then cases - 1 else cases) (i + 1) (i + 1) ts
        | .keyword .ELSE =>
            if depth = 0 && cases = 0 then stop else singleFrom depth cases (i + 1) (i + 1) ts
        | _ => singleFrom depth cases (i + 1) (i + 1) ts

/-- The length of an `IF` or `WHILE` with its body, without any `ELSE`. -/
def conditionalLength (ts : List Token) : Nat :=
  let n := conditionLength ts
  match ts.drop n with
  | [] => ts.length
  | t :: rest =>
      if t.is .BEGIN then ((throughEnd? (t :: rest)).map (n + ·)).getD ts.length
      else if t.kind = .semicolon then n + 1
      else n + singleFrom 0 0 0 1 (t :: rest)

/-- The `IF` or `WHILE` at the cursor with its body, without any `ELSE`. -/
def conditional (ts : List Token) (cursor : Nat) : Scanned :=
  if ts.length ≤ cursor then ([], cursor)
  else scanned ts cursor (conditionalLength (ts.drop cursor))

/-- The condition of the `IF` or `WHILE` at the cursor, with that keyword. -/
def condition (ts : List Token) (cursor : Nat) : Scanned :=
  if ts.length ≤ cursor then ([], cursor)
  else scanned ts cursor (conditionLength (ts.drop cursor))

end SqlMigration.Statement
