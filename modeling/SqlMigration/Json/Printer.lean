import SqlMigration.Json.Basic

/-! # Printing JSON

Two layouts of the same values: one line without spaces, and one item a line with two spaces of
indentation for each level.
-/

namespace SqlMigration.Json

/-- A lower-case hexadecimal digit. -/
def hexDigit (n : Nat) : Char := Nat.digitChar n

/-- A character as it stands inside a string. Quotes, backslashes and control characters are
escaped, and nothing else. -/
def escape (c : Char) : Text :=
  if c = '"' then ['\\', '"']
  else if c = '\\' then ['\\', '\\']
  else if c = '\x08' then ['\\', 'b']
  else if c = '\x0c' then ['\\', 'f']
  else if c = '\n' then ['\\', 'n']
  else if c = '\r' then ['\\', 'r']
  else if c = '\t' then ['\\', 't']
  else if c.toNat < 0x20 then
    ['\\', 'u', '0', '0', hexDigit (c.toNat / 16), hexDigit (c.toNat % 16)]
  else [c]

/-- A string between its quotes. -/
def quoted (s : Text) : Text := '"' :: s.flatMap escape ++ ['"']

/-- The text of a truth value. -/
def boolText (b : Bool) : Text := if b then "true".toList else "false".toList

mutual

/-- A value on one line. -/
def compact : Json → Text
  | null => "null".toList
  | bool b => boolText b
  | number spelling => spelling
  | string s => quoted s
  | array items => '[' :: compactItems items ++ [']']
  | object fields => '\x7b' :: compactFields fields ++ ['\x7d']

def compactItems : List Json → Text
  | [] => []
  | [item] => compact item
  | item :: items => compact item ++ ',' :: compactItems items

def compactFields : List (Text × Json) → Text
  | [] => []
  | [(name, value)] => quoted name ++ ':' :: compact value
  | (name, value) :: fields => quoted name ++ ':' :: compact value ++ ',' :: compactFields fields

end

/-- The start of a line at a level of nesting. -/
def newline (level : Nat) : Text := '\n' :: List.replicate (2 * level) ' '

mutual

/-- A value with one item a line, where its first line stands at `level`. -/
def pretty (level : Nat) : Json → Text
  | null => "null".toList
  | bool b => boolText b
  | number spelling => spelling
  | string s => quoted s
  | array [] => ['[', ']']
  | array items => '[' :: prettyItems (level + 1) items ++ newline level ++ [']']
  | object [] => ['\x7b', '\x7d']
  | object fields => '\x7b' :: prettyFields (level + 1) fields ++ newline level ++ ['\x7d']

def prettyItems (level : Nat) : List Json → Text
  | [] => []
  | [item] => newline level ++ pretty level item
  | item :: items => newline level ++ pretty level item ++ ',' :: prettyItems level items

def prettyFields (level : Nat) : List (Text × Json) → Text
  | [] => []
  | [(name, value)] => newline level ++ quoted name ++ ':' :: ' ' :: pretty level value
  | (name, value) :: fields =>
      newline level ++ quoted name ++ ':' :: ' ' :: pretty level value ++
        ',' :: prettyFields level fields

end

end SqlMigration.Json
