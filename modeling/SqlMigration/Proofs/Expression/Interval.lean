import SqlMigration.Proofs.Expression.Magnitude
import SqlMigration.Proofs.Expression.Splitting

/-! # What date arithmetic adds

The text that stands for `DATEADD`, as a reader of the target takes it: the date, a sign, and an
interval that is written out or made of an expression at run time. Main statement: the quantity
that is added. It is that of the amount, but for a minus sign that is taken off a sum of several
terms and for a variable whose name is read as a number.
-/

namespace SqlMigration.Expression

open Token Text Binary64 Arithmetic

/-! ## Reading -/

/-- The text between two others. -/
def between? (before after s : Text) : Option Text :=
  (s.dropPrefix? before).bind fun s => s.dropSuffix? after

/-- How many units an interval has, where `σ` gives the values of the variables. -/
def interval? (σ : Text → Int) (unit s : Text) : Option Int :=
  match between? "INTERVAL '".toList (' ' :: unit ++ ['\'']) s with
  | some digits => if isNumeral digits then some (natOfDigits digits) else none
  | none =>
      (between? ['('] ("::text || ' ".toList ++ unit ++ "')::interval".toList) s).bind fun expr =>
        Arithmetic.value? σ (SqlMigration.spellings (tokenize expr))

/-- How many units are added to the date. -/
def quantity? (σ : Text → Int) (date unit s : Text) : Option Int :=
  (s.dropPrefix? date).bind fun s =>
    match s.dropPrefix? " + ".toList with
    | some s => interval? σ unit s
    | none => (s.dropPrefix? " - ".toList).bind fun s => (interval? σ unit s).map fun x => -x

variable {σ : Text → Int}

theorem dropPrefix?_append (s r : Text) : (s ++ r).dropPrefix? s = some r :=
  List.dropPrefix?_append_of_beq r (beq_self_eq_true s)

theorem between?_append (before after s : Text) :
    between? before after (before ++ (s ++ after)) = some s := by
  rw [between?, dropPrefix?_append, Option.bind_some, List.dropSuffix?_eq_some_iff]
  exact ⟨after, rfl, beq_self_eq_true after⟩

theorem interval?_written (σ : Text → Int) (unit t : Text) :
    interval? σ unit ("INTERVAL '".toList ++ (t ++ (' ' :: unit ++ ['\'']))) =
      if isNumeral t then some (natOfDigits t : Int) else none := by
  rw [interval?, between?_append]

theorem interval?_computed (σ : Text → Int) (unit expr : Text) :
    interval? σ unit
        (['('] ++ (expr ++ ("::text || ' ".toList ++ unit ++ "')::interval".toList))) =
      Arithmetic.value? σ (SqlMigration.spellings (tokenize expr)) := by
  have hwritten (r : Text) :
      between? "INTERVAL '".toList (' ' :: unit ++ ['\'']) (['('] ++ r) = none := rfl
  rw [interval?, hwritten, between?_append]
  rfl

theorem quantity?_append (σ : Text → Int) (date unit s : Text) (negative : Bool) :
    quantity? σ date unit (date ++ ((if negative then " - " else " + ").toList ++ s)) =
      (interval? σ unit s).map fun x => if negative then -x else x := by
  rw [quantity?, dropPrefix?_append, Option.bind_some]
  cases negative with
  | false =>
      have hplus := dropPrefix?_append " + ".toList s
      simp only [Bool.false_eq_true, if_false, hplus, Option.map_id']
  | true =>
      have hplus : (" - ".toList ++ s).dropPrefix? " + ".toList = none := rfl
      have hminus := dropPrefix?_append " - ".toList s
      simp only [if_true, hplus, hminus, Option.bind_some]

/-! ## Intervals -/

/-- Whether the text names quarters. -/
def isQuarter (s : Text) : Bool :=
  named quarterNames (asciiLower (trimWhere ['\'', '"'].contains s.trim))

/-- A quarter has three months, and any other part is one of its unit. -/
theorem factor_ofText (s : Text) : (DatePart.ofText s).factor = if isQuarter s then 3 else 1 := by
  rw [DatePart.ofText, isQuarter]
  split
  · rfl
  · split <;> rfl

/-- The words for numbers that have no digits. -/
def numberWords : List String := ["inf", "infinity", "nan"]

def Term.isNumberWord : Term → Bool
  | literal _ => false
  | named text => Expression.named numberWords (asciiLower (Name.ofVariable text))

theorem special?_eq_none {s : Text} (h : named numberWords s.asciiLower = false) :
    special? false s = none := by
  simp only [named, numberWords, List.any_cons, List.any_nil, Bool.or_eq_false_iff] at h
  obtain ⟨hinf, hinfinity, hnan, -⟩ := h
  rw [BEq.comm] at hinf hinfinity hnan
  simp only [special?, hinf, hinfinity, hnan, Bool.or_false, Bool.false_eq_true, if_false]

/-- No digits are written for the word of a number. -/
theorem exists_special?_eq {s : Text} (h : named numberWords s.asciiLower) (factor : Nat) :
    ∃ x, special? false s = some x ∧ isNumeral (x.scaleBy factor).toText = false := by
  simp only [named, numberWords, List.any_cons, List.any_nil, Bool.or_eq_true, beq_iff_eq,
    Bool.false_eq_true, or_false] at h
  rcases h with h | h | h
  · exact ⟨infinite false, by rw [special?, ← h]; rfl, rfl⟩
  · exact ⟨infinite false, by rw [special?, ← h]; rfl, rfl⟩
  · exact ⟨nan, by rw [special?, ← h]; rfl, rfl⟩

/-- An expression is made an interval with its value times the factor. -/
theorem interval?_of_yields {words : List (Kind × Text)} {x : Int} {part : DatePart} {s : Text}
    (hfactor : part.factor = 1 ∨ part.factor = 3) (hs : Laid (words.map Prod.snd) s)
    (hread : readsAs words (some ')')) (hwords : Yields σ words x) (hnone : ofText? s = none) :
    interval? σ part.unit (intervalText part s) = some (part.factor * x) := by
  have hvalue {vs : List (Kind × Text)} {t : Text} {y : Int} (ht : Laid (vs.map Prod.snd) t)
      (hvs : readsAs vs none) (hyields : Yields σ vs y) :
      Arithmetic.value? σ (SqlMigration.spellings (tokenize t)) = some y := by
    have hspell := spellings_laid (r := []) ht hvs
    have hnil : SqlMigration.spellings (tokenize []) = [] := by decide +kernel
    rw [hnil, List.append_nil, List.append_nil] at hspell
    rw [hspell, hyields.value?]
  have hassoc (expr tag tag' : Text) :
      '(' :: expr ++ tag ++ part.unit ++ tag' = ['('] ++ (expr ++ (tag ++ part.unit ++ tag')) := by
    simp
  rw [intervalText, hnone]
  dsimp only
  rw [hassoc, interval?_computed]
  rcases hfactor with hone | hthree
  · rw [if_pos hone, List.cons_append, hone,
      hvalue hs.parens (readsAs_parens hread none) hwords.parens]
    simp
  · have hproduct : "((".toList ++ s ++ ") * ".toList ++ Nat.toDigits 10 part.factor ++ [')'] =
        '(' :: ('(' :: (s ++ [')']) ++ ([' '] ++ (['*'] ++ ([' '] ++ ['3']))) ++ [')']) := by
      have hdigits : Nat.toDigits 10 3 = ['3'] := by decide
      simp [hthree, hdigits]
    rw [if_neg (by omega), hproduct, hvalue (hs.times ['3']).parens
      (readsAs_parens (readsAs_times hread rfl rfl) none) (hwords.times ['3']).parens, hthree,
      Int.mul_comm]
    rfl

namespace Amount

variable {a : Amount}

/-- Whether the amount is a variable whose name is read as a number. -/
def isMisread (a : Amount) : Bool := a.lone?.any Term.isNumberWord

/-- How many units the interval of a magnitude has. -/
theorem interval?_intervalText (σ : Text → Int) {part : DatePart} {s : Text} (h : a.isPlain)
    (hfactor : part.factor = 1 ∨ part.factor = 3)
    (hexact : ∀ digits, a.lone? = some (.literal digits) →
      part.factor * natOfDigits digits < 2 ^ 53)
    (hs : Laid (a.magnitude.map Prod.snd) s) :
    interval? σ part.unit (intervalText part s) =
      if a.isMisread then none else some (part.factor * a.magnitudeValue σ) := by
  have hnumber := ofText?_magnitude h hs
  have hcomputed := interval?_of_yields hfactor hs (readsAs_magnitude h _ rfl)
    (a.yields_magnitude σ)
  have hwritten {x : Binary64} (hx : ofText? s = some x) :
      interval? σ part.unit (intervalText part s) =
        let digits := (x.scaleBy part.factor).toText
        if isNumeral digits then some (natOfDigits digits : Int) else none := by
    rw [← interval?_written σ part.unit, intervalText, hx]
    simp only [List.append_assoc, List.cons_append]
  rw [isMisread]
  cases hlone : a.lone? with
  | none =>
      rw [hlone] at hnumber
      exact hcomputed hnumber
  | some t =>
      rw [hlone] at hnumber
      cases t with
      | literal digits =>
          obtain ⟨hnumeral, hdigits⟩ := toText_ofNat (hexact digits hlone)
          rw [hwritten hnumber, scaleBy_ofNat (by omega) (hexact digits hlone),
            magnitudeValue_of_lone hlone]
          simp [hnumeral, hdigits, Term.isNumberWord, Term.value]
      | named text =>
          cases hword : (Term.named text).isNumberWord with
          | false =>
              rw [Option.any_some, hword]
              exact hcomputed (hnumber.trans (special?_eq_none hword))
          | true =>
              obtain ⟨x, hx, hnone⟩ := exists_special?_eq hword part.factor
              rw [hwritten (hnumber.trans hx), Option.any_some, hword]
              simp [hnone]

/-- What is added for the amount. -/
def taken (a : Amount) (σ : Text → Int) : Int :=
  if a.losesSign then -a.magnitudeValue σ else a.magnitudeValue σ

/-- A minus sign that is taken off is taken for all terms. -/
theorem taken_eq_value_iff (a : Amount) (σ : Text → Int) :
    a.taken σ = a.value σ ↔ (a.losesSign → a.restValue σ = 0) := by
  cases hsign : a.losesSign with
  | false => simp [taken, magnitudeValue, hsign]
  | true =>
      have hnegative : a.negative = true := (Bool.and_eq_true_iff.mp hsign).2
      simp only [taken, magnitudeValue, hsign, value, signed, hnegative, if_true, forall_const]
      omega

end Amount

/-! ## Calls -/

theorem dateAddText_eq {amount t : Text} {negative : Bool} (part date : Text)
    (h : splitMinus (stripParens amount) = (negative, t)) :
    dateAddText [part, amount, date] =
      dateText date ++ ((if negative then " - " else " + ").toList ++
        intervalText (DatePart.ofText part) t) := by
  have hsplit : splitMinus (stripParens ([part, amount, date][1]?.getD [])) = (negative, t) := h
  rw [dateAddText, hsplit, ← List.append_assoc]
  rfl

/-- A call of `DATEADD` whose amount is a sum of literals and variables adds its part's factor times
what is taken of the amount. That is the amount itself exactly if it is no variable whose name is
read as a number and, where a minus sign is taken off, the terms after the first come to nothing.
A single literal has to stay below `2 ^ 53` with its factor. -/
theorem dateAdd_adds_amount_iff (σ : Text → Int) {a : Amount} {ts : List Token} {name : Nat}
    {part amount date : List Token}
    (hopen : (ts[nextSignificant ts (name + 1)]?).any fun u => u.kind = .leftParen)
    (hargs : commaParts 0 (groupTokens (ts.drop (nextSignificant ts (name + 1)))) =
      [part, amount, date])
    (hspaced : isSpaced amount) (hamount : SqlMigration.spellings amount = a.spellings)
    (hplain : a.isPlain)
    (hexact : ∀ digits, a.lone? = some (.literal digits) →
      (if isQuarter (emit part) then 3 else 1) * natOfDigits digits < 2 ^ 53) :
    let factor : Int := if isQuarter (emit part) then 3 else 1
    let added := quantity? σ (dateText (emit date)) (DatePart.ofText (emit part)).unit
      (dateAddAt ts name).1
    (added = if a.isMisread then none else some (factor * a.taken σ)) ∧
    (added = some (factor * a.value σ) ↔
      a.isMisread = false ∧ (a.losesSign → a.restValue σ = 0)) := by
  intro factor added
  have hfactor := factor_ofText (emit part)
  have hcast : ((DatePart.ofText (emit part)).factor : Int) = factor := by
    rw [hfactor]
    cases hquarter : isQuarter (emit part) <;> simp [factor, hquarter]
  have hadded : added = if a.isMisread then none else some (factor * a.taken σ) := by
    obtain ⟨n, hcall, -⟩ := callArguments?_eq_commaParts hopen
    obtain ⟨gap, s, gap', hemit, hgap, hgap', hs⟩ := emit_amount hspaced hamount
    obtain ⟨t, hsplit, ht⟩ := Amount.splitMinus_stripParens hplain hgap hgap' hs
    rw [← hemit] at hsplit
    have hunits := Amount.interval?_intervalText σ hplain
      (by rw [hfactor]; split <;> simp) (hfactor ▸ hexact) ht
    have hcut := dateAddText_eq (emit part) (emit date) hsplit
    rw [hargs] at hcall
    show quantity? σ _ _ (callAt dateAddText ts name).1 = _
    rw [callAt_eq hcall, List.map_cons, List.map_cons, List.map_cons, List.map_nil, hcut,
      quantity?_append, hunits, hcast, Amount.taken]
    cases a.isMisread <;> cases a.losesSign <;> simp
  refine ⟨hadded, ?_⟩
  have hne : factor ≠ 0 := by
    dsimp only [factor]
    split <;> decide
  rw [hadded, ← Amount.taken_eq_value_iff]
  cases a.isMisread with
  | true => simp
  | false => simp [hne]

/-- Quarters, for an amount that loses its sign. -/
theorem dateAdd_adds_amount_iff_quarters :
    let ts := tokenize "DATEADD(qq, ( -@a + 2 ), d)".toList
    let parts := commaParts 0 (groupTokens (ts.drop (nextSignificant ts 1)))
    let a : Amount := ⟨1, true, .named "@a".toList, [(false, .literal ['2'])]⟩
    let σ : Text → Int := fun _ => 5
    (ts[nextSignificant ts 1]?).any (fun u => u.kind = .leftParen) ∧
      parts.length = 3 ∧ parts[1]?.any isSpaced ∧
      parts[1]?.map SqlMigration.spellings = some a.spellings ∧ a.isPlain ∧
      quantity? σ "d".toList "month".toList (dateAddAt ts 0).1 = some (-21) ∧
      3 * a.value σ = -9 := by
  intro ts parts a σ
  let part := parts[0]?.getD []
  let amount := parts[1]?.getD []
  let date := parts[2]?.getD []
  have hfacts : (ts[nextSignificant ts 1]?).any (fun u => u.kind = .leftParen) ∧
      parts = [part, amount, date] ∧ isSpaced amount ∧
      SqlMigration.spellings amount = a.spellings ∧
      (part ++ date).all isPlainToken ∧ part.flatMap tokenText = "qq".toList ∧
      date.flatMap tokenText = " d".toList := by decide +kernel
  obtain ⟨hopen, hparts, hspaced, hamount, hplain, hpart, hdate⟩ := hfacts
  rw [List.all_append, Bool.and_eq_true] at hplain
  have hadded := (dateAdd_adds_amount_iff σ hopen hparts hspaced hamount (by decide +kernel)
    (by intro digits h; cases h)).1
  rw [emit_of_isPlainToken hplain.1, emit_of_isPlainToken hplain.2, hpart, hdate] at hadded
  rw [hparts]
  exact ⟨hopen, rfl, hspaced, congrArg some hamount, by decide +kernel, hadded, by decide +kernel⟩

theorem fst_dateAddAt_eq {ts : List Token} {name : Nat} {parts : List (List Token)}
    (hopen : (ts[nextSignificant ts (name + 1)]?).any fun u => u.kind = .leftParen)
    (hargs : commaParts 0 (groupTokens (ts.drop (nextSignificant ts (name + 1)))) = parts)
    (hplain : parts.all fun part => part.all isPlainToken) :
    (dateAddAt ts name).1 = dateAddText (parts.map fun part => part.flatMap tokenText) := by
  obtain ⟨n, hcall, -⟩ := callArguments?_eq_commaParts hopen
  have hemit : parts.map emit = parts.map fun part => part.flatMap tokenText :=
    List.map_congr_left fun part hpart =>
      emit_of_isPlainToken (List.all_eq_true.mp hplain part hpart)
  rw [hargs, hemit] at hcall
  show (callAt dateAddText ts name).1 = _
  rw [callAt_eq hcall]

/-- The sign of a first term is given to the whole sum; a variable is taken for an infinity; three
times a literal is rounded. -/
theorem dateAdd_changes_amount :
    let sum := tokenize "DATEADD(day, -@a + @b, d)".toList
    let infinity := tokenize "DATEADD(day, @inf, d)".toList
    let literal := tokenize "DATEADD(qq, 9007199254740991, d)".toList
    let σ : Text → Int := fun s => if s = ['a'] then 1 else 2
    (dateAddAt sum 0).1 = "d - ((a + b)::text || ' day')::interval".toList ∧
      quantity? σ ['d'] "day".toList (dateAddAt sum 0).1 = some (-3) ∧
      (⟨0, true, .named "@a".toList, [(false, .named "@b".toList)]⟩ : Amount).value σ = 1 ∧
      (dateAddAt infinity 0).1 = "d + INTERVAL 'inf day'".toList ∧
      (dateAddAt literal 0).1 = "d + INTERVAL '27021597764222972 month'".toList := by
  intro sum infinity literal σ
  have hcall {ts : List Token} {s : Text}
      (h : let parts := commaParts 0 (groupTokens (ts.drop (nextSignificant ts 1)))
        (ts[nextSignificant ts 1]?).any (fun u => u.kind = .leftParen) ∧
          (parts.all fun part => part.all isPlainToken) ∧
          dateAddText (parts.map fun part => part.flatMap tokenText) = s) :
      (dateAddAt ts 0).1 = s := (fst_dateAddAt_eq h.1 rfl h.2.1).trans h.2.2
  have hsum : (dateAddAt sum 0).1 = "d - ((a + b)::text || ' day')::interval".toList :=
    hcall (by decide +kernel)
  refine ⟨hsum, ?_, by decide +kernel, hcall (by decide +kernel), hcall (by decide +kernel)⟩
  rw [hsum]
  decide +kernel

end SqlMigration.Expression
