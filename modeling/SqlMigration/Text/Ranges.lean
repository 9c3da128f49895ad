/-! # Sets of characters given by ranges -/

namespace SqlMigration

/-- A set of characters, as inclusive ranges of code points in increasing order. -/
abbrev CharRanges := List (Nat × Nat)

/-- Whether `n` lies in one of the ranges. The search stops at the first range above `n`, so
the ranges have to be in increasing order. -/
def CharRanges.holds : CharRanges → Nat → Bool
  | [], _ => false
  | (lo, hi) :: rest, n => decide (lo ≤ n) && (decide (n ≤ hi) || CharRanges.holds rest n)

end SqlMigration
