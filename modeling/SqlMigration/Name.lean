import SqlMigration.Text.Lowercase
import SqlMigration.Text.Classes

/-! # Names

The target folds names to lower case and has no `dbo` schema. A name is normalised by taking off
delimiters and that qualifier until nothing changes.
-/

namespace SqlMigration.Name

/-- The delimiters of names and strings. -/
def isQuote (c : Char) : Bool := ['[', ']', '\'', '"'].contains c

/-- Takes off the mark of a Unicode string and its quote. -/
def dropUnicodeMark : Text → Text
  | 'N' :: '\'' :: s => s
  | 'n' :: '\'' :: s => s
  | s => s

/-- Takes off blanks and delimiters at both ends, and then a Unicode mark that they hid. -/
def trimQuotes (s : Text) : Text :=
  (dropUnicodeMark (s.trim.trimWhere isQuote)).trimWhere isQuote

/-- Takes off the `dbo` qualifiers at the start of a lower-case name. -/
def dropSchema : Text → Text
  | 'd' :: 'b' :: 'o' :: '.' :: s => dropSchema s
  | '[' :: 'd' :: 'b' :: 'o' :: ']' :: '.' :: s => dropSchema s
  | '"' :: 'd' :: 'b' :: 'o' :: '"' :: '.' :: s => dropSchema s
  | s => s

/-- Takes off qualifiers and delimiters as long as that shortens the name. -/
def settle (s : Text) : Text :=
  let next := trimQuotes (dropSchema s)
  if next.length < s.length then settle next else s
  termination_by s.length

/-- The normal form of a name: lower case, without delimiters and without the `dbo` schema. -/
def normalize (s : Text) : Text := settle s.trim.lower

/-- Whether a name can stand in a script without quotes. -/
def isPlain : Text → Bool
  | [] => false
  | c :: s =>
      (Text.isAlphabetic c || c = '_') &&
        (c :: s).all fun d => Text.isAlphanumeric d || d = '_'

/-- A name as it is written for the target: normalised, and quoted unless it is plain. -/
def render (s : Text) : Text :=
  let name := normalize s
  if isPlain name then name else '"' :: name ++ ['"']

/-- The name of a variable: in lower case, and without the marks at its start. -/
def ofVariable (s : Text) : Text := Text.lower (s.trim.dropWhile (· = '@'))

/-- A name without the marks of a temporary table. -/
def dropTemporaryMark (s : Text) : Text := s.dropWhile (· = '#')

end SqlMigration.Name
