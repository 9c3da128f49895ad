import SqlMigration.Token.Basic
import SqlMigration.Text.Classes

/-! # Reading a script into tokens

Each step looks at the first character of what is left and decides the kind of the token and how
many of the following characters belong to it. Text that starts no token, or a delimiter that is
never closed, becomes an error token, so that reading never fails and loses nothing.
-/

namespace SqlMigration.Token

/-- The number of characters up to and including the closing delimiter, if there is one. The
delimiter written twice stands for itself. -/
def delimitedLength? (close : Char) : Text → Option Nat
  | [] => none
  | c :: s =>
      if c = close then
        match s with
        | [] => some 1
        | d :: s => if d = close then (delimitedLength? close s).map (· + 2) else some 1
      else (delimitedLength? close s).map (· + 1)

/-- The number of characters through the end of a block comment, with `depth` more comments open
around it. Block comments nest. -/
def commentLength? : Nat → Text → Option Nat
  | _, [] => none
  | _, [_] => none
  | depth, c :: d :: s =>
      if c = '/' && d = '*' then (commentLength? (depth + 1) s).map (· + 2)
      else if c = '*' && d = '/' then
        match depth with
        | 0 => some 2
        | depth + 1 => (commentLength? depth s).map (· + 2)
      else (commentLength? depth (d :: s)).map (· + 1)

/-- The length of the longest start of `s` in a class. -/
def runLength (p : Char → Bool) (s : Text) : Nat := (s.takeWhile p).length

def isHexDigit (c : Char) : Bool :=
  c.isDigit || ('a' ≤ c && c ≤ 'f') || ('A' ≤ c && c ≤ 'F')

/-- Blank space within a line. -/
def isInlineBlank (cc : CharClasses) (c : Char) : Bool :=
  cc.isBlank c && c ≠ '\n' && c ≠ '\r'

/-- The characters of a name or variable after the first. -/
def isNameChar (cc : CharClasses) (c : Char) : Bool :=
  cc.isAlphanumeric c || ['_', '@', '#', '$'].contains c

/-- The length of an exponent: a letter E, and then a sign, digits, or both. -/
def exponentLength : Text → Nat
  | e :: c :: s =>
      if (e = 'e' || e = 'E') && (c.isDigit || c = '+' || c = '-') then
        2 + runLength Char.isDigit s
      else 0
  | _ => 0

/-- The length of the point and the digits after it, in a number that does not start with one. -/
def fractionLength (c : Char) (s : Text) : Nat :=
  if c ≠ '.' && s.head? = some '.' then 1 + runLength Char.isDigit s.tail else 0

/-- The number that starts with `c`, a digit or a point before one. -/
def number (c : Char) (s : Text) : Kind × Nat :=
  if c = '0' && (s.head? = some 'x' || s.head? = some 'X') then
    (.binary, 1 + runLength isHexDigit s.tail)
  else
    let digits := runLength Char.isDigit s
    let rest := s.drop digits
    let fraction := fractionLength c rest
    let exponent := exponentLength (rest.drop fraction)
    let kind := if c = '.' || fraction ≠ 0 || exponent ≠ 0 then Kind.numeric else Kind.integer
    (kind, digits + fraction + exponent)

/-- A token that runs to a closing delimiter, or an error that runs to the end. -/
def delimited (close : Char) (kind : Kind) (s : Text) : Kind × Nat :=
  match delimitedLength? close s with
  | some n => (kind, n)
  | none => (.error, s.length)

/-- A word is a keyword or else an identifier. -/
def wordKind (s : Text) : Kind :=
  match Keyword.ofText? s with
  | some k => .keyword k
  | none => .identifier

/-- An identifier or keyword that starts with `c`. -/
def word (cc : CharClasses) (c : Char) (s : Text) : Kind × Nat :=
  let tail := s.takeWhile (isNameChar cc)
  (wordKind (c :: tail), tail.length)

/-- The kind of the token that starts with `c`, and the number of its characters in the text after
`c`. -/
def classify (cc : CharClasses) (c : Char) : Text → Kind × Nat :=
  if c = '\n' then fun _ => (.blank, 0)
  else if c = '\r' then fun s => (.blank, if s.head? = some '\n' then 1 else 0)
  else if cc.isBlank c then fun s => (.blank, runLength (isInlineBlank cc) s)
  else
    match c with
    | '-' => fun s =>
        if s.head? = some '-' then
          (.lineComment, runLength (fun d => d ≠ '\n' && d ≠ '\r') s)
        else (.minus, 0)
    | '/' => fun s =>
        if s.head? = some '*' then
          match commentLength? 0 s.tail with
          | some n => (.blockComment, 1 + n)
          | none => (.error, s.length)
        else (.slash, 0)
    | '(' => fun _ => (.leftParen, 0)
    | ')' => fun _ => (.rightParen, 0)
    | ',' => fun _ => (.comma, 0)
    | ';' => fun _ => (.semicolon, 0)
    | '+' => fun _ => (.plus, 0)
    | '*' => fun _ => (.star, 0)
    | '%' => fun _ => (.percent, 0)
    | '&' => fun _ => (.bitAnd, 0)
    | '|' => fun _ => (.bitOr, 0)
    | '^' => fun _ => (.bitXor, 0)
    | '~' => fun _ => (.bitNot, 0)
    | '=' => fun _ => (.eq, 0)
    | ':' => fun s => if s.head? = some ':' then (.doubleColon, 1) else (.colon, 0)
    | '<' => fun s =>
        if s.head? = some '=' then (.ltEq, 1)
        else if s.head? = some '>' then (.notEq, 1)
        else (.lt, 0)
    | '>' => fun s => if s.head? = some '=' then (.gtEq, 1) else (.gt, 0)
    | '!' => fun s =>
        if s.head? = some '=' then (.notEq, 1)
        else if s.head? = some '<' || s.head? = some '>' then (.notCompare, 1)
        else (.error, 0)
    | '\'' => delimited '\'' .string
    | '[' => delimited ']' .bracketed
    | '"' => delimited '"' .doubleQuoted
    | '@' => fun s => (.variable, runLength (isNameChar cc) s)
    | '$' => fun s =>
        if s.head?.any Char.isDigit then (.money, runLength (fun d => d.isDigit || d = '.') s)
        else (.error, 0)
    | '.' => fun s => if s.head?.any Char.isDigit then number '.' s else (.dot, 0)
    | c => fun s =>
        if (c = 'N' || c = 'n') && s.head? = some '\'' then
          match delimited '\'' .unicodeString s.tail with
          | (kind, n) => (kind, 1 + n)
        else if c.isDigit then number c s
        else if cc.isLetter c || c = '_' || c = '#' then word cc c s
        else (.error, 0)

/-- The tokens of `s`, a text that starts at byte `start` of the script. -/
def read (cc : CharClasses) (start : Nat) : Text → List Token
  | [] => []
  | c :: s =>
      let (kind, n) := classify cc c s
      let text : Text := c :: s.take n
      let stop := start + text.byteLength
      ⟨kind, text, ⟨start, stop⟩⟩ :: read cc stop (s.drop n)
  termination_by s => s.length
  decreasing_by simp only [List.length_drop, List.length_cons]; omega

end SqlMigration.Token

namespace SqlMigration

/-- The tokens of a script. -/
def tokenize (s : Text) : List Token := Token.read .unicode 0 s

end SqlMigration
