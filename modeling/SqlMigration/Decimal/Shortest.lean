import SqlMigration.Decimal.Binary64

/-! # Shortest decimals

The text of a binary number is the decimal with the fewest digits that reads back as that number,
and of these the nearest. It is written without an exponent.
-/

namespace SqlMigration.Binary64

/-- The reals that round to a number `value * 2 ^ exponent`: those from `low` to `high`, in units
of the same power, with the ends if `closed`. -/
structure Interval where
  low : Nat
  value : Nat
  high : Nat
  exponent : Int
  closed : Bool

/-- The reals that round to `m * 2 ^ e`. The next lower number is only half as far away if `m` is
the least mantissa and the exponent can still go down. -/
def interval (m : Nat) (e : Int) : Interval where
  low := if m = Nat.pow 2 52 && minExponent < e then 4 * m - 1 else 4 * m - 2
  value := 4 * m
  high := 4 * m + 2
  exponent := e - 2
  closed := m % 2 = 0

/-- The decimal `n * 10 ^ p` next to the value and inside the interval, if there is one. Of two
the nearer is taken, and the upper one if both are equally near. -/
def Interval.candidate? (v : Interval) (p : Int) : Option Nat :=
  let a := Nat.pow 2 v.exponent.toNat * Nat.pow 10 (-p).toNat
  let b := Nat.pow 2 (-v.exponent).toNat * Nat.pow 10 p.toNat
  let within (x y : Nat) : Bool := if v.closed then x ≤ y else x < y
  let n := v.value * a / b
  let below := within (v.low * a) (n * b)
  let above := within ((n + 1) * b) (v.high * a)
  if below && above then
    if b ≤ 2 * (v.value * a - n * b) then some (n + 1) else some n
  else if below then some n
  else if above then some (n + 1)
  else none

/-- The coarsest decimal inside the interval, among the powers of ten from `p` downwards. -/
def Interval.shortest (v : Interval) : Nat → Int → Nat × Int
  | 0, p => (0, p)
  | fuel + 1, p =>
      match v.candidate? p with
      | some n => (n, p)
      | none => v.shortest fuel (p - 1)

/-- The digits of `m * 2 ^ e` and the power of ten of the last one. No such number has its first
digit more than 324 places after the point, or needs more than 17 of them. -/
def shortestDigits (m : Nat) (e : Int) : Nat × Int :=
  let whole := m * Nat.pow 2 e.toNat / Nat.pow 2 (-e).toNat
  (interval m e).shortest 400 (Nat.toDigits 10 whole).length

/-- The decimal `n * 10 ^ p` without an exponent, and without zeros at the end of a fraction. -/
def positional (n : Nat) (p : Int) : Text :=
  let digits := Nat.toDigits 10 n
  let places := (-p).toNat
  let padded := List.replicate (places + 1 - digits.length) '0' ++ digits
  let whole := padded.take (padded.length - places) ++ List.replicate p.toNat '0'
  let fraction := Text.trimEndWhere (· = '0') (padded.drop (padded.length - places))
  if fraction.isEmpty then whole else whole ++ '.' :: fraction

/-- The text of a number. A zero keeps its sign. -/
def toText : Binary64 → Text
  | nan => "NaN".toList
  | infinite negative => if negative then "-inf".toList else "inf".toList
  | finite negative m e =>
      let (n, p) := if m = 0 then (0, 0) else shortestDigits m e
      if negative then '-' :: positional n p else positional n p

end SqlMigration.Binary64
