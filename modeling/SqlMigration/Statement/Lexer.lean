import SqlMigration.Statement.Extent
import SqlMigration.Token.Error

/-! # Lexers that know statements -/

namespace SqlMigration

/-- A way to read text into tokens and to say where the statements of a list of tokens lie. -/
structure StatementLexer where
  lex : Text → Except LexError (List Token)
  bounds : List Token → List Bounds

namespace StatementLexer

/-- Reads a text and fails at its first error token. -/
def lexStrict (s : Text) : Except LexError (List Token) :=
  let ts := tokenize s
  match LexError.firstIn? ts with
  | some e => .error e
  | none => .ok ts

/-- The lexer of this library, with its own idea of where statements end. -/
def tsql : StatementLexer where
  lex := lexStrict
  bounds := Statement.bounds

end StatementLexer

end SqlMigration
