import SqlMigration.Dialect.Postgres
import SqlMigration.Pattern
import SqlMigration.Statement.Lexer

/-! # Cutting a script into pieces

A script is cut from the front, one piece at a time. The cut asks a statement lexer, which reads
the remaining text anew and may divide it into other tokens. Whatever it answers, a piece is never
empty and never longer than what is left, so the pieces put together are the script.
-/

namespace SqlMigration.Statement

/-- The length of the leading trivia through the last comment among them. -/
def leadingComments? (ts : List Token) : Option Nat :=
  let run := ts.takeWhile Token.isTrivia
  match (run.reverse.dropWhile fun t => !t.kind.isComment).length with
  | 0 => none
  | n => some n

/-- The pattern of a separator, which has no comment in it. -/
def separatorPattern (steps : List Step) : Pattern :=
  { steps, keepComments := true, dialect := .postgres }

/-- The length of `UNION` or `UNION ALL` at the head of the list, with no comment before or inside
it. -/
def union? (ts : List Token) : Option Nat :=
  match (separatorPattern [.keyword .UNION, .keyword .ALL]).run? ts with
  | some (_, n) => some n
  | none => ((separatorPattern [.keyword .UNION]).run? ts).map Prod.snd

/-- The length through the first semicolon outside parentheses. -/
def throughSemicolon (ts : List Token) : Nat :=
  ((topLevel? (fun t => t.kind = .semicolon) ts).map (· + 1)).getD ts.length

/-- The byte at which each token starts, when the first starts at `start`. -/
def byteOffsetsFrom (start : Nat) : List Token → List Nat
  | [] => []
  | t :: ts => start :: byteOffsetsFrom (start + t.text.byteLength) ts

/-- The byte at which each token starts. -/
def byteOffsets (ts : List Token) : List Nat := byteOffsetsFrom 0 ts

/-- The byte at which token `i` starts, or the length of the whole text. -/
def byteAt (ts : List Token) (i : Nat) : Nat := (byteOffsets ts)[i]?.getD (joinText ts).byteLength

/-- Carries bounds over `theirs` to `ours`, two divisions of one text. The start is moved down and
the end up to the next border between tokens. -/
def carryBounds (ours theirs : List Token) (b : Bounds) : Bounds :=
  let start := byteAt theirs b.start
  let stop := byteAt theirs b.stop
  let offsets := byteOffsets ours
  { start := (offsets.takeWhile fun o => decide (o ≤ start)).length - 1
    stop := (offsets.takeWhile fun o => decide (o < stop)).length }

/-- The length of the arm of a union, where `run` holds its tokens: through the first line break
after its last significant token, or else through that token. -/
def armLength (run : List Token) : Nat :=
  let n := significantLength run
  match (run.drop n).findIdx? Token.isNewline with
  | some i => n + i + 1
  | none => n

/-- The length of the piece for a statement with bounds `b`. The header of a definition and the
first arm of a union are cut off. -/
def cut (ts : List Token) (b : Bounds) : Nat :=
  let statement := (ts.take b.stop).drop b.start
  match (ts[b.start]?).bind Token.keyword? with
  | some .CREATE =>
      match topLevel? (·.is .AS) statement with
      | some i => b.start + i + 1
      | none => b.stop
  | some .SELECT =>
      match topLevel? (·.is .UNION) statement with
      | some i => b.start + armLength (statement.take i)
      | none => b.stop
  | _ => b.stop

/-- The length of the first piece as the lexer sees it. -/
def proposedLength (lexer : StatementLexer) (ts : List Token) : Nat :=
  match leadingComments? ts, union? ts with
  | some n, _ => n
  | none, some n => n
  | none, none =>
      match lexer.lex (joinText ts) with
      | .error _ => throughSemicolon ts
      | .ok theirs =>
          match lexer.bounds theirs with
          | [] => ts.length
          | b :: _ =>
              let b := carryBounds ts theirs b
              if triviaLength ts < b.start then b.start else cut ts b

/-- The length of the first piece of a list that is not empty: at least one token, and at most
all of them. -/
def pieceLength (lexer : StatementLexer) (ts : List Token) : Nat :=
  min (max 1 (proposedLength lexer ts)) ts.length

/-- The piece at the cursor, and the cursor after it. -/
def pieceAt (lexer : StatementLexer) (ts : List Token) (cursor : Nat) : List Token × Nat :=
  let rest := ts.drop cursor
  let n := pieceLength lexer rest
  (rest.take n, min cursor ts.length + n)

/-- All pieces of a list of tokens. -/
def pieces (lexer : StatementLexer) : List Token → List (List Token)
  | [] => []
  | t :: ts =>
      let n := pieceLength lexer (t :: ts) - 1
      (t :: ts.take n) :: pieces lexer (ts.drop n)
  termination_by ts => ts.length
  decreasing_by simp only [List.length_drop, List.length_cons]; omega

end SqlMigration.Statement
