import Mathlib
import SqlMigration.Decimal.Shortest

/-! # Integers as binary numbers

A natural number below `2 ^ 53` is a binary number without rounding, and the shortest decimal of it
is that number again.
-/

namespace SqlMigration.Binary64

/-- The power of two that brings a natural number to 53 binary digits. -/
def shift (n : Nat) : Nat := 52 - n.log2

/-- A natural number with all its binary digits. -/
def ofNat (n : Nat) : Binary64 :=
  if n = 0 then zero false else finite false (n * 2 ^ shift n) (-shift n)

variable {n : Nat}

theorem log2_le_of_lt (h : n < 2 ^ 53) : n.log2 ≤ 52 := by
  by_cases hn : n = 0
  · simp [hn]
  · exact Nat.le_of_lt_succ ((Nat.log2_lt hn).mpr h)

theorem log2_mul_two_pow (hn : n ≠ 0) (k : Nat) : (n * 2 ^ k).log2 = n.log2 + k := by
  have hlow : 2 ^ n.log2 ≤ n := Nat.log2_self_le hn
  have hhigh : n < 2 ^ (n.log2 + 1) := Nat.lt_log2_self
  have hpos : 0 < 2 ^ k := Nat.two_pow_pos k
  rw [Nat.log2_eq_iff (Nat.mul_ne_zero hn (Nat.ne_of_gt hpos)), Nat.pow_add, Nat.add_right_comm,
    Nat.pow_add]
  exact ⟨Nat.mul_le_mul_right _ hlow, Nat.mul_lt_mul_of_pos_right hhigh hpos⟩

theorem divRound_mul (q : Nat) {d : Nat} (hd : 0 < d) : divRound (q * d) d = q := by
  simp [divRound, Nat.mul_div_cancel _ hd, hd]

theorem scaled_neg (num den j : Nat) : scaled num den (-(j : Int)) = (num * 2 ^ j, den) := by
  cases j with
  | zero => simp [scaled]
  | succ j =>
      have hneg : ¬ (0 : Int) ≤ -((j + 1 : Nat) : Int) := by omega
      rw [scaled, if_neg hneg, Int.neg_neg, Int.toNat_natCast]
      rfl

theorem two_pow_le_shifted (hn : n ≠ 0) (h : n < 2 ^ 53) : 2 ^ 52 ≤ n * 2 ^ shift n := by
  have hlog := log2_le_of_lt h
  calc 2 ^ 52 = 2 ^ n.log2 * 2 ^ shift n := by rw [← Nat.pow_add, shift]; congr 1; omega
    _ ≤ n * 2 ^ shift n := Nat.mul_le_mul_right _ (Nat.log2_self_le hn)

theorem shifted_lt (h : n < 2 ^ 53) : n * 2 ^ shift n < 2 ^ 53 := by
  have hlog := log2_le_of_lt h
  calc n * 2 ^ shift n < 2 ^ (n.log2 + 1) * 2 ^ shift n :=
        Nat.mul_lt_mul_of_pos_right Nat.lt_log2_self (Nat.two_pow_pos _)
    _ = 2 ^ 53 := by rw [← Nat.pow_add, shift]; congr 1; omega

/-- A quotient that is a natural number is not rounded. -/
theorem ofRatio_mul (hn : n ≠ 0) (h : n < 2 ^ 53) (k : Nat) :
    ofRatio false (n * 2 ^ k) (2 ^ k) = ofNat n := by
  have hpos : 0 < 2 ^ k := Nat.two_pow_pos k
  have hlog := log2_le_of_lt h
  have hne : n * 2 ^ k ≠ 0 := Nat.mul_ne_zero hn (Nat.ne_of_gt hpos)
  have hlow : ((n * 2 ^ k).log2 : Int) - (2 ^ k).log2 - 53 = -((shift n + 1 : Nat) : Int) := by
    rw [log2_mul_two_pow hn, Nat.log2_two_pow, shift]
    omega
  have hquotient (j : Nat) : n * 2 ^ k * 2 ^ j = n * 2 ^ j * 2 ^ k := by
    rw [Nat.mul_assoc, Nat.mul_assoc, Nat.mul_comm (2 ^ k)]
  have hexponent : exponentOf (n * 2 ^ k) (2 ^ k) = -(shift n : Int) := by
    have hlarge : 2 ^ 53 ≤ n * 2 ^ (shift n + 1) := by
      calc 2 ^ 53 = 2 ^ 52 * 2 := rfl
        _ ≤ n * 2 ^ shift n * 2 := Nat.mul_le_mul_right 2 (two_pow_le_shifted hn h)
        _ = n * 2 ^ (shift n + 1) := by rw [Nat.pow_succ, Nat.mul_assoc]
    have hshift : shift n ≤ 52 := Nat.sub_le _ _
    simp only [exponentOf, hlow, scaled_neg, hquotient, Nat.mul_div_cancel _ hpos, Nat.pow_eq,
      hlarge, if_true, minExponent]
    omega
  have hmantissa : n * 2 ^ shift n ≠ Nat.pow 2 53 := Nat.ne_of_lt (shifted_lt h)
  have hrange : ¬ maxExponent < -(shift n : Int) := by
    rw [maxExponent]
    omega
  simp only [ofRatio, if_neg hne, hexponent, scaled_neg, hquotient, divRound_mul _ hpos,
    if_neg hmantissa, if_neg hrange, ofNat, if_neg hn]

theorem length_toDigits_le (h : n < 2 ^ 53) : (Nat.toDigits 10 n).length ≤ 16 :=
  (Nat.length_toDigits_le_iff (by decide) (by decide)).mpr (Nat.lt_trans h (by decide))

theorem ofDecimal_ofNat (h : n < 2 ^ 53) : ofDecimal false n 0 = ofNat n := by
  by_cases hn : n = 0
  · simp [ofDecimal, ofNat, hn]
  · have hlength := length_toDigits_le h
    have hratio := ofRatio_mul hn h 0
    rw [Nat.pow_zero, Nat.mul_one] at hratio
    have hlow : ¬ ((Nat.toDigits 10 n).length : Int) + 0 < -decimalReach := by
      rw [decimalReach]
      omega
    have hhigh : ¬ decimalReach < ((Nat.toDigits 10 n).length : Int) + 0 := by
      rw [decimalReach]
      omega
    simp only [ofDecimal, hn, hlow, hhigh, decide_false, Bool.or_false, Bool.false_eq_true,
      if_false, Int.le_refl, if_true, Int.toNat_zero, Nat.pow_eq, Nat.pow_zero, Nat.mul_one, hratio]

/-- A product that stays below `2 ^ 53` is not rounded either. -/
theorem scaleBy_ofNat {f : Nat} (hf : f ≠ 0) (h : f * n < 2 ^ 53) :
    (ofNat n).scaleBy f = ofNat (f * n) := by
  by_cases hn : n = 0
  · simp [hn, ofNat, zero, scaleBy, minExponent, ofRatio]
  · have hproduct := ofRatio_mul (Nat.mul_ne_zero hf hn) h (shift n)
    have hcomm : n * 2 ^ shift n * f = f * n * 2 ^ shift n := by
      rw [Nat.mul_comm, Nat.mul_assoc]
    rw [ofNat, if_neg hn, scaleBy, hcomm]
    split
    · rename_i hzero
      have hshift : shift n = 0 := by omega
      rw [hshift] at hproduct ⊢
      simpa using hproduct
    · rw [Int.neg_neg, Int.toNat_natCast]
      exact hproduct

/-! ## Their decimals -/

/-- Whether `x` comes before `y`, or is `y` if that counts. -/
def before (closed : Bool) (x y : Nat) : Bool := if closed then x ≤ y else x < y

theorem before_of_lt {closed : Bool} {x y : Nat} (h : x < y) : before closed x y := by
  cases closed
  · simpa [before] using h
  · simpa [before] using Nat.le_of_lt h

theorem not_before_of_lt {closed : Bool} {x y : Nat} (h : y < x) : before closed x y = false := by
  cases closed
  · simpa [before] using Nat.le_of_lt h
  · simpa [before] using h

namespace Interval

/-- The interval is around a natural number, and ends before the next one on either side. -/
structure Around (v : Interval) (n k : Nat) : Prop where
  exponent : v.exponent = -(k : Int)
  unit : 4 ≤ 2 ^ k
  value : v.value = n * 2 ^ k
  high : v.high = n * 2 ^ k + 2
  low : n * 2 ^ k ≤ v.low + 2
  below : v.low < n * 2 ^ k

variable {v : Interval} {k : Nat}

theorem candidate?_eq (hv : v.exponent = -(k : Int)) (q : Nat) :
    v.candidate? q =
      let b := 2 ^ k * 10 ^ q
      let n := v.value / b
      let below := before v.closed v.low (n * b)
      let above := before v.closed ((n + 1) * b) v.high
      if below && above then
        if b ≤ 2 * (v.value - n * b) then some (n + 1) else some n
      else if below then some n
      else if above then some (n + 1)
      else none := by
  have hexponent : v.exponent.toNat = 0 := by omega
  have hpower : (-v.exponent).toNat = k := by omega
  have hplaces : (-(q : Int)).toNat = 0 := by omega
  simp only [candidate?, hexponent, hpower, hplaces, Int.toNat_natCast, Nat.pow_eq, Nat.pow_zero,
    Nat.mul_one]
  rfl

/-- There is no other natural number in the interval, so a decimal with no places after the point is
found there exactly when it is that number. -/
theorem Around.candidate? (h : v.Around n k) (q : Nat) :
    v.candidate? q = if n % 10 ^ q = 0 then some (n / 10 ^ q) else none := by
  obtain ⟨hexponent, hunit, hvalue, hhigh, hlow, hbelow⟩ := h
  rw [candidate?_eq hexponent, hvalue, hhigh]
  generalize 2 ^ k = u at hunit hlow hbelow ⊢
  have hpos : 0 < 10 ^ q := Nat.pow_pos (by decide)
  have hdiv : n * u / (u * 10 ^ q) = n / 10 ^ q := by
    rw [Nat.mul_comm n, Nat.mul_div_mul_left _ _ (by omega)]
  have hcomm (d : Nat) : d * (u * 10 ^ q) = d * 10 ^ q * u := by
    rw [Nat.mul_assoc, Nat.mul_comm u]
  have habove : before v.closed ((n / 10 ^ q + 1) * 10 ^ q * u) (n * u + 2) = false := by
    have hnext : n + 1 ≤ (n / 10 ^ q + 1) * 10 ^ q := by
      rw [Nat.add_mul, Nat.one_mul]
      exact Nat.lt_div_mul_add hpos
    apply not_before_of_lt
    calc n * u + 2 < (n + 1) * u := by rw [Nat.add_mul]; omega
      _ ≤ (n / 10 ^ q + 1) * 10 ^ q * u := Nat.mul_le_mul_right u hnext
  simp only [hdiv, hcomm, habove, Bool.and_false, Bool.false_eq_true, if_false]
  by_cases hzero : n % 10 ^ q = 0
  · rw [Nat.div_mul_cancel (Nat.dvd_of_mod_eq_zero hzero), before_of_lt hbelow, if_pos rfl,
      if_pos hzero]
  · have hprevious : n / 10 ^ q * 10 ^ q + 1 ≤ n := by
      have hmod := Nat.div_add_mod n (10 ^ q)
      rw [Nat.mul_comm]
      omega
    have hless : n / 10 ^ q * 10 ^ q * u < v.low := by
      have hle := Nat.mul_le_mul_right u hprevious
      rw [Nat.add_mul, Nat.one_mul] at hle
      omega
    rw [not_before_of_lt hless, if_neg hzero]
    rfl

/-- The search goes down to the last digit before the point at most. -/
theorem Around.shortest (h : v.Around n k) {fuel q : Nat} (hfuel : q < fuel) :
    ∃ d p : Nat, v.shortest fuel q = (d, (p : Int)) ∧ d * 10 ^ p = n := by
  induction q generalizing fuel with
  | zero =>
      obtain ⟨fuel, rfl⟩ := Nat.exists_eq_add_one_of_ne_zero (Nat.ne_of_gt hfuel)
      refine ⟨n, 0, ?_, by simp⟩
      rw [Interval.shortest, h.candidate?]
      simp [Nat.mod_one]
  | succ q ih =>
      obtain ⟨fuel, rfl⟩ :=
        Nat.exists_eq_add_one_of_ne_zero (Nat.ne_of_gt (Nat.zero_lt_of_lt hfuel))
      rw [Interval.shortest, h.candidate?]
      by_cases hzero : n % 10 ^ (q + 1) = 0
      · refine ⟨n / 10 ^ (q + 1), q + 1, ?_, Nat.div_mul_cancel (Nat.dvd_of_mod_eq_zero hzero)⟩
        simp only [hzero, if_true]
      · simp only [hzero, if_false]
        rw [show ((q + 1 : Nat) : Int) - 1 = (q : Int) by omega]
        exact ih (by omega)

end Interval

theorem around_interval (hn : n ≠ 0) :
    (interval (n * 2 ^ shift n) (-shift n)).Around n (shift n + 2) := by
  have hunit : 4 ≤ 2 ^ (shift n + 2) := by
    rw [Nat.pow_add]
    exact Nat.le_mul_of_pos_left 4 (Nat.two_pow_pos _)
  have hvalue : 4 * (n * 2 ^ shift n) = n * 2 ^ (shift n + 2) := by
    rw [Nat.pow_add, Nat.mul_comm, Nat.mul_assoc]
  have hpos : 4 ≤ n * 2 ^ (shift n + 2) :=
    Nat.le_trans hunit (Nat.le_mul_of_pos_left _ (Nat.pos_of_ne_zero hn))
  have hlow : n * 2 ^ (shift n + 2) ≤ (interval (n * 2 ^ shift n) (-shift n)).low + 2 ∧
      (interval (n * 2 ^ shift n) (-shift n)).low < n * 2 ^ (shift n + 2) := by
    simp only [interval, hvalue]
    split <;> omega
  refine ⟨?_, hunit, hvalue, by rw [← hvalue]; rfl, hlow.1, hlow.2⟩
  show -(shift n : Int) - 2 = _
  omega

theorem shortestDigits_shifted (hn : n ≠ 0) (h : n < 2 ^ 53) :
    ∃ d p : Nat, shortestDigits (n * 2 ^ shift n) (-shift n) = (d, (p : Int)) ∧ d * 10 ^ p = n := by
  have hlength := length_toDigits_le h
  have hpower : (-(shift n : Int)).toNat = 0 := by omega
  have hwhole : n * 2 ^ shift n * Nat.pow 2 (-(shift n : Int)).toNat /
      Nat.pow 2 (- -(shift n : Int)).toNat = n := by
    rw [hpower, Int.neg_neg, Int.toNat_natCast, Nat.pow_eq, Nat.pow_eq, Nat.pow_zero, Nat.mul_one,
      Nat.mul_div_cancel _ (Nat.two_pow_pos _)]
  rw [shortestDigits, hwhole]
  exact (around_interval hn).shortest (by omega)

/-! ## Their text -/

/-- Whether a text writes a natural number. -/
def isNumeral (s : Text) : Bool := !s.isEmpty && s.all Char.isDigit

theorem positional_natCast (d p : Nat) :
    positional d p = Nat.toDigits 10 d ++ List.replicate p '0' := by
  have hpos : 0 < (Nat.toDigits 10 d).length := Nat.length_toDigits_pos
  have hplaces : (-(p : Int)).toNat = 0 := by omega
  have hpadding : 0 + 1 - (Nat.toDigits 10 d).length = 0 := by omega
  simp [positional, hplaces, hpadding, Text.trimEndWhere]

theorem natOfDigits_append_zeros (s : Text) (p : Nat) :
    natOfDigits (s ++ List.replicate p '0') = natOfDigits s * 10 ^ p := by
  induction p generalizing s with
  | zero => simp
  | succ p ih =>
      have hzero : natOfDigits (s ++ ['0']) = natOfDigits s * 10 := by
        simp [natOfDigits, Nat.mul_comm]
      rw [List.replicate_succ, List.append_cons, ih, hzero, Nat.pow_succ', Nat.mul_assoc]

theorem natOfDigits_toDigits (d : Nat) : natOfDigits (Nat.toDigits 10 d) = d := by
  have hchars : natOfDigits (Nat.toDigits 10 d) = Nat.ofDigitChars 10 (Nat.toDigits 10 d) 0 := by
    rw [Nat.ofDigitChars_eq_foldl]
    rfl
  rw [hchars, Nat.ofDigitChars_ten_toDigits]

theorem isNumeral_positional (d p : Nat) : isNumeral (positional d p) := by
  have hdigits : ∀ c ∈ Nat.toDigits 10 d, c.isDigit :=
    fun _ hc => Nat.isDigit_of_mem_toDigits (b := 10) (n := d) (by decide) (by decide) hc
  rw [positional_natCast, isNumeral, Bool.and_eq_true, Bool.not_eq_true', List.all_append,
    Bool.and_eq_true]
  refine ⟨by simp, List.all_eq_true.mpr hdigits, ?_⟩
  rw [List.all_eq_true]
  intro c hc
  rw [List.eq_of_mem_replicate hc]
  rfl

theorem natOfDigits_positional (d p : Nat) : natOfDigits (positional d p) = d * 10 ^ p := by
  rw [positional_natCast, natOfDigits_append_zeros, natOfDigits_toDigits]

/-- The text of a natural number below `2 ^ 53` writes that number. -/
theorem toText_ofNat (h : n < 2 ^ 53) :
    isNumeral (ofNat n).toText ∧ natOfDigits (ofNat n).toText = n := by
  by_cases hn : n = 0
  · subst hn
    decide
  · obtain ⟨d, p, hdigits, hvalue⟩ := shortestDigits_shifted hn h
    have hmantissa : n * 2 ^ shift n ≠ 0 := Nat.mul_ne_zero hn (Nat.ne_of_gt (Nat.two_pow_pos _))
    have htext : (ofNat n).toText = positional d p := by
      simp only [ofNat, hn, if_false, toText, hmantissa, hdigits, Bool.false_eq_true]
    rw [htext, natOfDigits_positional]
    exact ⟨isNumeral_positional d p, hvalue⟩

/-! ## Reading -/

variable {s r : Text} {c : Char}

theorem takeSign_of_head (h : ∀ c ∈ s.head?, c ≠ '-' ∧ c ≠ '+') : takeSign s = (false, s) := by
  unfold takeSign
  split
  · exact absurd rfl (h '-' rfl).1
  · exact absurd rfl (h '+' rfl).2
  · rfl

theorem head_of_isNumeral (h : isNumeral s) : ∀ c ∈ s.head?, c.isDigit := by
  intro c hc
  exact List.all_eq_true.mp (Bool.and_eq_true_iff.mp h).2 c (List.mem_of_mem_head? hc)

/-- Without a point, what follows the digits is the exponent. -/
theorem decimal?_of_not_point {whole rest : Text} (hwhole : s.takeWhile Char.isDigit = whole)
    (hrest : s.dropWhile Char.isDigit = rest) (hpoint : rest.head? ≠ some '.') :
    decimal? false s =
      if whole.isEmpty then none
      else (exponentPart? rest).map fun e => ofDecimal false (natOfDigits whole) e := by
  unfold decimal?
  rw [hwhole, hrest]
  dsimp only
  split
  · exact absurd rfl hpoint
  · simp

/-- What follows the digits decides whether they are read as a number. -/
theorem decimal?_numeral_append (h : isNumeral s)
    (hr : ∀ c ∈ r.head?, c.isDigit = false ∧ c ≠ '.') :
    decimal? false (s ++ r) =
      (exponentPart? r).map fun e => ofDecimal false (natOfDigits s) e := by
  obtain ⟨hne, hdigits⟩ := Bool.and_eq_true_iff.mp h
  have hdigits := List.all_eq_true.mp hdigits
  have hwhole : (s ++ r).takeWhile Char.isDigit = s ∧ (s ++ r).dropWhile Char.isDigit = r := by
    rw [List.takeWhile_append_of_pos hdigits, List.dropWhile_append_of_pos hdigits]
    cases r with
    | nil => simp
    | cons c r => simp [(hr c rfl).1]
  have hempty : s.isEmpty = false := by simpa using hne
  rw [decimal?_of_not_point hwhole.1 hwhole.2 fun hc => (hr '.' hc).2 rfl, hempty]
  rfl

theorem takeSign_numeral_append (h : isNumeral s) (r : Text) :
    takeSign (s ++ r) = (false, s ++ r) := by
  have hhead : (s ++ r).head? = s.head? := by
    cases s with
    | nil => cases h
    | cons c s => rfl
  refine takeSign_of_head fun c hc => ?_
  have hdigit := head_of_isNumeral h c (hhead ▸ hc)
  constructor <;> rintro rfl <;> cases hdigit

theorem ofText?_numeral (h : isNumeral s) (hs : natOfDigits s < 2 ^ 53) :
    ofText? s = some (ofNat (natOfDigits s)) := by
  have hsign := takeSign_numeral_append h []
  have hdecimal := decimal?_numeral_append h (r := []) (by simp)
  rw [List.append_nil] at hsign hdecimal
  rw [ofText?, hsign]
  simp [hdecimal, exponentPart?, ofDecimal_ofNat hs]

/-- Digits that go on with something else than a fraction or an exponent are no number. -/
theorem ofText?_numeral_append (h : isNumeral s) (hc : c.isDigit = false)
    (hmark : c ∉ ['.', 'e', 'E']) : ofText? (s ++ c :: r) = special? false (s ++ c :: r) := by
  simp only [List.mem_cons, List.not_mem_nil, or_false, not_or] at hmark
  have hdecimal : decimal? false (s ++ c :: r) = none := by
    rw [decimal?_numeral_append h (by rintro d ⟨⟩; exact ⟨hc, hmark.1⟩)]
    simp [exponentPart?, hmark]
  rw [ofText?, takeSign_numeral_append h]
  simp [hdecimal]

/-- The words that are read as numbers have letters only. -/
theorem special?_of_mem (hc : c ∈ s) (h : c ∈ ['+', '-', '(']) : special? false s = none := by
  have hlower : c.toLower = c := by
    simp only [List.mem_cons, List.not_mem_nil, or_false] at h
    rcases h with rfl | rfl | rfl <;> rfl
  have hmem : c ∈ s.asciiLower := List.mem_map.mpr ⟨c, hc, hlower⟩
  have hne (word : String) (hword : word.toList.all fun d => d ∉ ['+', '-', '(']) :
      (s.asciiLower == word.toList) = false := by
    rw [beq_eq_false_iff_ne]
    intro heq
    rw [heq] at hmem
    exact absurd h (by simpa using List.all_eq_true.mp hword c hmem)
  simp only [special?, hne "inf" (by decide), hne "infinity" (by decide), hne "nan" (by decide),
    Bool.or_false, Bool.false_eq_true, if_false]

/-- A text that starts with neither a digit, a point nor a sign is a number only as a word. -/
theorem ofText?_of_head (hc : c.isDigit = false) (hmark : c ∉ ['.', '+', '-']) :
    ofText? (c :: s) = special? false (c :: s) := by
  simp only [List.mem_cons, List.not_mem_nil, or_false, not_or] at hmark
  have hsign : takeSign (c :: s) = (false, c :: s) := by
    refine takeSign_of_head fun d hd => ?_
    cases hd
    exact ⟨hmark.2.2, hmark.2.1⟩
  have hdecimal : decimal? false (c :: s) = none := by
    rw [decimal?_of_not_point (List.takeWhile_cons_of_neg (by simp [hc]))
      (List.dropWhile_cons_of_neg (by simp [hc])) (by simpa using hmark.1)]
    rfl
  rw [ofText?, hsign]
  simp [hdecimal]

end SqlMigration.Binary64
