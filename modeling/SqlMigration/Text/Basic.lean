import SqlMigration.Text.Blank

/-! # Text

Scripts, names and emitted SQL are lists of characters. This module holds the cutting and
trimming that the rest of the library shares.
-/

namespace SqlMigration

/-- A script, or any part of one. -/
abbrev Text := List Char

namespace Text

/-- The number of bytes of a text in UTF-8. -/
def byteLength : Text → Nat
  | [] => 0
  | c :: s => c.utf8Size + byteLength s

/-- Drops the characters of a class from the end. -/
def trimEndWhere (p : Char → Bool) (s : Text) : Text := (s.reverse.dropWhile p).reverse

/-- Drops the characters of a class from both ends. -/
def trimWhere (p : Char → Bool) (s : Text) : Text := trimEndWhere p (s.dropWhile p)

/-- Drops blank characters from the end. -/
def trimEnd (s : Text) : Text := trimEndWhere isBlank s

/-- Drops blank characters from both ends. -/
def trim (s : Text) : Text := trimWhere isBlank s

/-- The text before a final `c`, if it ends so. -/
def dropFinal? (c : Char) (s : Text) : Option Text :=
  if s.getLast? = some c then some s.dropLast else none

/-- Upper-case form, ASCII letters only. -/
def asciiUpper (s : Text) : Text := s.map Char.toUpper

/-- Lower-case form, ASCII letters only. -/
def asciiLower (s : Text) : Text := s.map Char.toLower

/-- Equality that does not tell the case of ASCII letters apart. -/
def eqIgnoringCase (s t : Text) : Bool := s.asciiLower == t.asciiLower

/-- The parts of a text between the occurrences of a character. There is always at least one. -/
def splitOn (c : Char) : Text → List Text
  | [] => [[]]
  | d :: s =>
      if d = c then [] :: splitOn c s
      else
        match splitOn c s with
        | [] => [[d]]
        | part :: parts => (d :: part) :: parts

end Text

end SqlMigration
