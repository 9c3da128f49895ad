import SqlMigration.Text.Blank
import SqlMigration.Text.Alphabetic
import SqlMigration.Text.Numeric

/-! # Character classes

What a reader of scripts has to know about characters outside ASCII.
-/

namespace SqlMigration

/-- The three classes by which words and gaps are told apart. -/
structure CharClasses where
  isBlank : Char → Bool
  isLetter : Char → Bool
  isAlphanumeric : Char → Bool

/-- Whether a character is a letter or a numeral, in any script. -/
def Text.isAlphanumeric (c : Char) : Bool := isAlphabetic c || isNumeric c

/-- The classes of Unicode. -/
def CharClasses.unicode : CharClasses where
  isBlank := Text.isBlank
  isLetter := Text.isAlphabetic
  isAlphanumeric := Text.isAlphanumeric

end SqlMigration
