import SqlMigration.Token.Lexer

/-! # Errors of a script's text -/

namespace SqlMigration

/-- Why a text has no clean reading, and where. -/
inductive LexError where
  /-- A string literal without its closing quote. -/
  | unterminatedString (span : Span)
  /-- A bracketed or double-quoted name without its closing delimiter. -/
  | unterminatedIdentifier (span : Span)
  /-- A block comment without its end. -/
  | unterminatedComment (span : Span)
  /-- A character that starts no token. -/
  | unexpectedCharacter (found : Char) (span : Span)
  deriving DecidableEq, Repr

namespace LexError

def span : LexError → Span
  | unterminatedString span => span
  | unterminatedIdentifier span => span
  | unterminatedComment span => span
  | unexpectedCharacter _ span => span

/-- The error that an error token stands for, told by how its text starts. -/
def ofToken (t : Token) : LexError :=
  match t.text with
  | '\'' :: _ => .unterminatedString t.span
  | 'N' :: '\'' :: _ => .unterminatedString t.span
  | 'n' :: '\'' :: _ => .unterminatedString t.span
  | '[' :: _ => .unterminatedIdentifier t.span
  | '"' :: _ => .unterminatedIdentifier t.span
  | '/' :: '*' :: _ => .unterminatedComment t.span
  | c :: _ => .unexpectedCharacter c t.span
  | [] => .unexpectedCharacter '\x00' t.span

/-- The first error of a list of tokens. -/
def firstIn? (ts : List Token) : Option LexError :=
  (ts.find? fun t => t.kind = .error).map ofToken

/-- A number in decimal digits. -/
def digits (n : Nat) : Text := Nat.toDigits 10 n

/-- The place of an error, as its range of bytes. -/
def place (span : Span) : Text := digits span.start ++ "..".toList ++ digits span.stop

/-- The wording of an error. -/
def message : LexError → Text
  | unterminatedString span => "Unterminated string literal at ".toList ++ place span
  | unterminatedIdentifier span => "Unterminated quoted identifier at ".toList ++ place span
  | unterminatedComment span => "Unterminated block comment at ".toList ++ place span
  | unexpectedCharacter found span =>
      "Unexpected character '".toList ++ found :: "' at ".toList ++ place span

end LexError

end SqlMigration
