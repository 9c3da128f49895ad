import SqlMigration.Text.Ranges

/-! # Blank characters -/

namespace SqlMigration.Text

/-- The code points with the Unicode property White_Space. -/
def blankRanges : CharRanges :=
  [ (0x0009, 0x000d), (0x0020, 0x0020), (0x0085, 0x0085), (0x00a0, 0x00a0), (0x1680, 0x1680),
    (0x2000, 0x200a), (0x2028, 0x2029), (0x202f, 0x202f), (0x205f, 0x205f), (0x3000, 0x3000) ]

/-- Whether a character is blank: a space, a line break or another separator of words. -/
def isBlank (c : Char) : Bool := blankRanges.holds c.toNat

end SqlMigration.Text
