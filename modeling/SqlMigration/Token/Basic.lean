import SqlMigration.Token.Keyword

/-! # Tokens

A token keeps its exact text, delimiters included, so that the parts of a script that are left
alone can be copied character for character.
-/

namespace SqlMigration

/-- What a token is. -/
inductive Kind where
  | integer | numeric | money | binary | string | unicodeString
  | identifier | bracketed | doubleQuoted | variable
  | keyword (k : Keyword)
  | plus | minus | star | slash | percent
  | eq | notEq | lt | ltEq | gt | gtEq | notCompare
  | bitAnd | bitOr | bitXor | bitNot
  | leftParen | rightParen | comma | semicolon | dot | colon | doubleColon
  | blank | lineComment | blockComment
  | error
  deriving DecidableEq, Repr

namespace Kind

def isComment : Kind → Bool
  | .lineComment | .blockComment => true
  | _ => false

/-- Blank space and comments. -/
def isTrivia (k : Kind) : Bool := k = .blank || k.isComment

/-- The kinds that can name a table, a column or a type. Double-quoted text is a name or a string
by a setting of the server; it is read as a name. -/
def identifiers : List Kind := [.identifier, .bracketed, .doubleQuoted]

def isIdentifier (k : Kind) : Bool := identifiers.contains k

def isString : Kind → Bool
  | .string | .unicodeString => true
  | _ => false

def isNumber : Kind → Bool
  | .integer | .numeric | .money => true
  | _ => false

/-- Whether a keyword that can open a statement. -/
def startsStatement : Kind → Bool
  | .keyword k => k.startsStatement
  | _ => false

end Kind

/-- A half-open range of bytes of a script. -/
structure Span where
  start : Nat
  stop : Nat
  deriving DecidableEq, Repr

structure Token where
  kind : Kind
  text : Text
  span : Span
  deriving DecidableEq, Repr

namespace Token

def keyword? (t : Token) : Option Keyword :=
  match t.kind with
  | .keyword k => some k
  | _ => none

/-- Whether the token is the keyword `k`. -/
def is (t : Token) (k : Keyword) : Bool := t.kind = .keyword k

def isTrivia (t : Token) : Bool := t.kind.isTrivia

/-- Blank space that holds a line feed. -/
def isNewline (t : Token) : Bool := t.kind = .blank && t.text.contains '\n'

/-- Whether the token is an identifier that spells `word` inside its delimiters, in any case of
its ASCII letters. -/
def isWord (t : Token) (word : String) : Bool :=
  t.kind.isIdentifier &&
    (t.text.trimWhere ['[', ']', '"'].contains).eqIgnoringCase word.toList

/-- A string literal taken as a quoted name, as in `AS 'name'`; any other token as it is. -/
def asName (t : Token) : Token :=
  if t.kind.isString then { t with kind := .bracketed } else t

end Token

/-- The text of a list of tokens. -/
def joinText (ts : List Token) : Text := ts.flatMap Token.text

/-- The tokens from the first significant one on. -/
def skipTrivia (ts : List Token) : List Token := ts.dropWhile Token.isTrivia

/-- The number of tokens before the first significant one. -/
def triviaLength (ts : List Token) : Nat := (ts.takeWhile Token.isTrivia).length

/-- The position of the first significant token at or after `start`. -/
def nextSignificant (ts : List Token) (start : Nat) : Nat := start + triviaLength (ts.drop start)

/-- The first significant token. -/
def firstSignificant? (ts : List Token) : Option Token := (skipTrivia ts).head?

/-- The keyword at the first significant token. -/
def firstKeyword? (ts : List Token) : Option Keyword := (firstSignificant? ts).bind Token.keyword?

/-- The length of a list without the trivia at its end. -/
def significantLength (ts : List Token) : Nat := (ts.reverse.dropWhile Token.isTrivia).length

/-- Whether nothing is left but trivia and semicolons. -/
def isTerminator (ts : List Token) : Bool := ts.all fun t => t.isTrivia || t.kind = .semicolon

/-- Whether the tokens start with a `dbo` qualifier and its dot, with nothing in between. -/
def startsWithDbo : List Token → Bool
  | t :: d :: _ => t.isWord "dbo" && d.kind = .dot
  | _ => false

end SqlMigration
