import SqlMigration.Text.Basic

/-! # Binary floating-point numbers

Numbers with 53 binary digits, as exact integers. Every operation is the exact one followed by
rounding to the nearest number, where a tie goes to an even mantissa.
-/

namespace SqlMigration

/-- A number `mantissa * 2 ^ exponent` with its sign, an infinity, or no number at all. -/
inductive Binary64 where
  | finite (negative : Bool) (mantissa : Nat) (exponent : Int)
  | infinite (negative : Bool)
  | nan
  deriving DecidableEq, Repr

namespace Binary64

/-- The least exponent; numbers that need a lower one lose digits. -/
def minExponent : Int := -1074

/-- The greatest exponent; numbers that need a higher one become infinite. -/
def maxExponent : Int := 971

def zero (negative : Bool) : Binary64 := finite negative 0 minExponent

/-- The integer nearest to a quotient, and the even one of two. -/
def divRound (num den : Nat) : Nat :=
  let q := num / den
  let r := num % den
  if 2 * r < den then q
  else if den < 2 * r then q + 1
  else q + q % 2

/-- The quotient `num / (den * 2 ^ e)` as one of natural numbers. -/
def scaled (num den : Nat) (e : Int) : Nat × Nat :=
  if 0 ≤ e then (num, den * Nat.pow 2 e.toNat) else (num * Nat.pow 2 (-e).toNat, den)

/-- The exponent at which a quotient has 53 digits before the point, if that is not too low. -/
def exponentOf (num den : Nat) : Int :=
  let low : Int := (num.log2 : Int) - den.log2 - 53
  let (n, d) := scaled num den low
  max (if Nat.pow 2 53 ≤ n / d then low + 1 else low) minExponent

/-- The number nearest to `num / den`. -/
def ofRatio (negative : Bool) (num den : Nat) : Binary64 :=
  if num = 0 then zero negative
  else
    let e := exponentOf num den
    let (n, d) := scaled num den e
    let m := divRound n d
    let (m, e) := if m = Nat.pow 2 53 then (Nat.pow 2 52, e + 1) else (m, e)
    if maxExponent < e then infinite negative else finite negative m e

/-- A decimal of this many digits before the point is infinite, and one that starts this many
places after it is zero. -/
def decimalReach : Int := 400

/-- The number nearest to `digits * 10 ^ exponent`. -/
def ofDecimal (negative : Bool) (digits : Nat) (exponent : Int) : Binary64 :=
  let size : Int := (Nat.toDigits 10 digits).length + exponent
  if digits = 0 || size < -decimalReach then zero negative
  else if decimalReach < size then infinite negative
  else if 0 ≤ exponent then ofRatio negative (digits * Nat.pow 10 exponent.toNat) 1
  else ofRatio negative digits (Nat.pow 10 (-exponent).toNat)

/-- The product with a natural number that is not zero. -/
def scaleBy (factor : Nat) : Binary64 → Binary64
  | finite negative m e =>
      if 0 ≤ e then ofRatio negative (m * factor * Nat.pow 2 e.toNat) 1
      else ofRatio negative (m * factor) (Nat.pow 2 (-e).toNat)
  | x => x

/-- The natural number that a list of decimal digits writes. -/
def natOfDigits (s : Text) : Nat := s.foldl (fun n c => 10 * n + (c.toNat - '0'.toNat)) 0

/-- Takes a sign off the front. -/
def takeSign : Text → Bool × Text
  | '-' :: s => (true, s)
  | '+' :: s => (false, s)
  | s => (false, s)

/-- The value of an exponent part that makes up the whole text. -/
def exponentPart? : Text → Option Int
  | [] => some 0
  | c :: s =>
      let (negative, digits) := takeSign s
      if (c = 'e' || c = 'E') && !digits.isEmpty && digits.all Char.isDigit then
        let n : Int := natOfDigits digits
        some (if negative then -n else n)
      else none

/-- Reads digits with an optional point and an optional exponent. There has to be a digit before
or after the point. -/
def decimal? (negative : Bool) (s : Text) : Option Binary64 :=
  let whole := s.takeWhile Char.isDigit
  let rest := s.dropWhile Char.isDigit
  let (fraction, rest) : Text × Text :=
    match rest with
    | '.' :: rest => (rest.takeWhile Char.isDigit, rest.dropWhile Char.isDigit)
    | rest => ([], rest)
  if whole.isEmpty && fraction.isEmpty then none
  else
    (exponentPart? rest).map fun e =>
      ofDecimal negative (natOfDigits (whole ++ fraction)) (e - fraction.length)

/-- Reads the words for an infinity and for no number, in any case. -/
def special? (negative : Bool) (s : Text) : Option Binary64 :=
  let word := s.asciiLower
  if word == "inf".toList || word == "infinity".toList then some (infinite negative)
  else if word == "nan".toList then some nan
  else none

/-- Reads a number with an optional sign and nothing around it. -/
def ofText? (s : Text) : Option Binary64 :=
  let (negative, s) := takeSign s
  (decimal? negative s).or (special? negative s)

end Binary64

end SqlMigration
