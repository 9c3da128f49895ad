import SqlMigration.Expression.Basic
import SqlMigration.Token.Nesting

/-! # Queries

Some clauses of a query have no counterpart in their place: `TOP` becomes a limit at the end, lock
hints go, and `SELECT INTO` becomes the making of a temporary table.
-/

namespace SqlMigration.Query

/-- A `TOP` clause: its tokens, with the blank space after it, and the limit it sets. -/
structure Top where
  bounds : Bounds
  limit : Text

/-- The limit that starts with the token at `i`, and the position of its last token: a number, or
an expression in parentheses. -/
def limitAt? (ts : List Token) (i : Nat) : Option (Text × Nat) := do
  let t ← ts[i]?
  if t.kind.isNumber then some (t.text, i)
  else if t.kind = .leftParen then do
    let n ← closingParen? (ts.drop i)
    let inner := (ts.drop (i + 1)).take (n - 1)
    some ('(' :: (Expression.emit inner).trim ++ [')'], i + n)
  else none

/-- Whether the tokens after a `TOP` clause say `PERCENT` or `WITH TIES`, which no limit can
express. -/
def isInexpressible (ts : List Token) : Bool :=
  match skipTrivia ts with
  | [] => false
  | t :: rest =>
      t.isWord "percent" || (t.is .WITH && (firstSignificant? rest).any fun u => u.isWord "ties")

/-- The `TOP` clause after the first `SELECT` outside parentheses. -/
def top? (ts : List Token) : Option Top := do
  let select ← topLevel? (·.is .SELECT) ts
  let first := nextSignificant ts (select + 1)
  let start :=
    if (ts[first]?).any fun t => t.is .DISTINCT || t.is .ALL then nextSignificant ts (first + 1)
    else first
  if (ts[start]?).any fun t => t.is .TOP then do
    let (limit, last) ← limitAt? ts (nextSignificant ts (start + 1))
    let rest := ts.drop (last + 1)
    if isInexpressible rest then none
    else
      let blanks := (rest.takeWhile fun t => t.kind = .blank).length
      some ⟨⟨start, last + 1 + blanks⟩, limit⟩
  else none

/-- The tokens after the first significant one, if that satisfies `p`, with the number of tokens
before them. -/
def next? (p : Token → Bool) (ts : List Token) : Option (Nat × List Token) :=
  match skipTrivia ts with
  | [] => none
  | t :: rest => if p t then some (triviaLength ts + 1, rest) else none

/-- The length of the hint `WITH (NOLOCK)` or `(NOLOCK)` at the head of the list. -/
def hintLength? : List Token → Option Nat
  | [] => none
  | t :: ts => do
      let (a, ts) ←
        if t.is .WITH then (next? (fun u => u.kind = .leftParen) ts).map fun (n, ts) => (n + 1, ts)
        else if t.kind = .leftParen then some (1, ts)
        else none
      let (b, ts) ← next? (fun u => u.isWord "nolock") ts
      let (c, _) ← next? (fun u => u.kind = .rightParen) ts
      some (a + b + c)

/-- The hints of `ts`, a list that starts at position `i` after `blanks` tokens of blank space.
That blank space belongs to a hint. -/
def hintsFrom (i blanks : Nat) : List Token → List Bounds
  | [] => []
  | t :: ts =>
      match hintLength? (t :: ts) with
      | some n => ⟨i - blanks, i + n⟩ :: hintsFrom (i + n) 0 (ts.drop (n - 1))
      | none => hintsFrom (i + 1) (if t.kind = .blank then blanks + 1 else 0) ts
  termination_by ts => ts.length
  decreasing_by all_goals simp only [List.length_drop, List.length_cons]; omega

/-- The lock hints of a statement. -/
def hints (ts : List Token) : List Bounds := hintsFrom 0 0 ts

/-- The tokens outside the given bounds. -/
def outside (cuts : List Bounds) (ts : List Token) : List Token :=
  (ts.zipIdx.filter fun (_, i) => !cuts.any fun b => b.start ≤ i && i < b.stop).map Prod.fst

/-- The tokens that stay when the `TOP` clause and the hints are taken away. -/
def kept (ts : List Token) : List Token :=
  outside (((top? ts).map Top.bounds).toList ++ hints ts) ts

/-- The positions of `INTO` and of the table name after it, in a `SELECT INTO` statement. -/
def into? (ts : List Token) : Option (Nat × Nat) := do
  if firstKeyword? ts = some .SELECT then do
    let into ← topLevel? (·.is .INTO) ts
    let first := nextSignificant ts (into + 1)
    let name := if startsWithDbo (ts.drop first) then nextSignificant ts (first + 2) else first
    if (ts[name]?).any fun t => t.kind.isIdentifier then some (into, name) else none
  else none

/-- The statement without its clauses that move. -/
def body (ts : List Token) : Text :=
  match into? ts with
  | some (into, name) =>
      let table := Name.render (Name.dropTemporaryMark ((ts[name]?.map Token.text).getD []))
      "DROP TABLE IF EXISTS ".toList ++ table ++ ";\nCREATE TEMP TABLE ".toList ++ table ++
        " AS ".toList ++ (Expression.emit (ts.take into)).trimEnd ++
        Expression.emit (ts.drop (name + 1))
  | none => Expression.emit ts

/-- Puts a limit at the end of a query, before a final semicolon and before the blank space after
the query. -/
def withLimit (limit sql : Text) : Text :=
  let query := sql.trimEnd
  let trailing := sql.drop query.length
  let (query, final) : Text × Text :=
    match query.dropFinal? ';' with
    | some rest => (rest.trimEnd, [';'])
    | none => (query, [])
  query ++ " LIMIT ".toList ++ limit ++ final ++ trailing

/-- A query or another plain statement for the target. -/
def emit (ts : List Token) : Text :=
  match top? ts with
  | some top => withLimit top.limit (body (kept ts))
  | none => body (kept ts)

end SqlMigration.Query
