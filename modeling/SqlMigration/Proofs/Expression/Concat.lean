import SqlMigration.Expression.Concat
import SqlMigration.Proofs.Expression.Call
import SqlMigration.Token.Lexer

/-! # Operands of a concatenation

A sum is cut at every plus sign outside parentheses, also at those that stand inside a `CASE`. The
operands are whole expressions exactly if there are none of these.
-/

namespace SqlMigration

/-! ## Brackets -/

/-- A pair of brackets, each of them a token. -/
structure Brackets where
  opens : Token → Bool
  closes : Token → Bool

namespace Brackets

def parens : Brackets where
  opens t := t.kind = .leftParen
  closes t := t.kind = .rightParen

/-- `CASE` and its `END`. -/
def cases : Brackets where
  opens t := t.is .CASE
  closes t := t.is .END

/-- The number of open brackets after a token, unless it closes one that is not open. -/
def after? (b : Brackets) (depth : Nat) (t : Token) : Option Nat :=
  if b.opens t then some (depth + 1)
  else if b.closes t then if depth = 0 then none else some (depth - 1)
  else some depth

/-- The number of open brackets after the tokens, when `depth` are open before them. -/
def openAfter? (b : Brackets) (depth : Nat) (ts : List Token) : Option Nat :=
  ts.foldlM b.after? depth

/-- Whether each bracket that opens is closed and the other way round. -/
def balanced (b : Brackets) (ts : List Token) : Bool := b.openAfter? 0 ts = some 0

variable {b : Brackets} {depth e : Nat} {ts us : List Token} {t : Token}

@[simp] theorem openAfter?_nil : b.openAfter? depth [] = some depth := rfl

theorem openAfter?_cons :
    b.openAfter? depth (t :: ts) = (b.after? depth t).bind fun d => b.openAfter? d ts := rfl

theorem openAfter?_append :
    b.openAfter? depth (ts ++ us) = (b.openAfter? depth ts).bind fun d => b.openAfter? d us :=
  List.foldlM_append

theorem exists_openAfter?_of_append (h : b.openAfter? depth (ts ++ us) = some e) :
    ∃ d, b.openAfter? depth ts = some d ∧ b.openAfter? d us = some e :=
  Option.bind_eq_some_iff.mp (openAfter?_append.symm.trans h)

/-- A token that is no bracket changes nothing. -/
theorem after?_of_neutral (hopens : b.opens t = false) (hcloses : b.closes t = false) :
    b.after? depth t = some depth := by
  simp [after?, hopens, hcloses]

theorem depthAfter_of_after? (h : parens.after? depth t = some e) : t.depthAfter depth = e := by
  simp only [after?, parens, decide_eq_true_eq] at h
  by_cases hleft : t.kind = .leftParen
  · simpa [hleft, Token.depthAfter] using h
  by_cases hright : t.kind = .rightParen
  · by_cases hzero : depth = 0
    · simp [hright, hzero] at h
    · simpa [hright, hzero, Token.depthAfter] using h
  · simpa [hleft, hright, Token.depthAfter] using h

/-- As long as no parenthesis closes too much, the count that passes over such ones is the same. -/
theorem openAfter_of_openAfter? (h : parens.openAfter? depth ts = some e) :
    openAfter depth ts = e := by
  induction ts generalizing depth with
  | nil => exact Option.some.inj h
  | cons t ts ih =>
      obtain ⟨d, hd, hrest⟩ := Option.bind_eq_some_iff.mp h
      rw [openAfter_cons, depthAfter_of_after? hd]
      exact ih hrest

end Brackets

/-! ## Places -/

/-- The places of a list, each with the tokens in front of it and the token that stands there. -/
def placesFrom (before : List Token) : List Token → List (List Token × Token)
  | [] => []
  | t :: ts => (before, t) :: placesFrom (before ++ [t]) ts

def places (ts : List Token) : List (List Token × Token) := placesFrom [] ts

theorem isPrefix_of_mem_placesFrom {before ts : List Token} {p : List Token × Token}
    (h : p ∈ placesFrom before ts) : p.1 <+: before ++ ts := by
  induction ts generalizing before with
  | nil => cases h
  | cons t ts ih =>
      rcases List.mem_cons.mp h with rfl | h
      · exact List.prefix_append before (t :: ts)
      · rw [List.append_cons]
        exact ih h

/-- Whether no parenthesis is open at a place. -/
def isOuter (p : List Token × Token) : Bool := openAfter 0 p.1 = 0

/-- Whether neither a parenthesis nor a `CASE` is open at a place. -/
def isWhole (p : List Token × Token) : Bool :=
  Brackets.parens.balanced p.1 && Brackets.cases.balanced p.1

theorem isSome_topLevelFrom? (q : Token → Bool) (before ts : List Token)
    (hq : ∀ t, q t → t.kind ≠ .leftParen ∧ t.kind ≠ .rightParen) :
    (topLevelFrom? q (openAfter 0 before) ts).isSome =
      (placesFrom before ts).any fun p => isOuter p && q p.2 := by
  induction ts generalizing before with
  | nil => rfl
  | cons t ts ih =>
      have hstep := ih (before ++ [t])
      rw [openAfter_append, openAfter_cons, openAfter_nil] at hstep
      rw [placesFrom, List.any_cons, ← hstep, topLevelFrom?, isOuter]
      split
      · rename_i hkind
        have hno : q t = false := by
          by_contra h
          exact (hq t (by simpa using h)).1 hkind
        simp [hno, Token.depthAfter, hkind]
      · rename_i hkind
        have hno : q t = false := by
          by_contra h
          exact (hq t (by simpa using h)).2 hkind
        simp [hno, Token.depthAfter, hkind]
      · rename_i hleft hright
        have hdepth : t.depthAfter (openAfter 0 before) = openAfter 0 before := by
          simp [Token.depthAfter]
        rw [hdepth]
        split
        · rename_i h
          simp [h]
        · rename_i h
          simp [h]

namespace Expression

open Brackets

/-! ## Cutting at places -/

/-- The tokens between the places that satisfy `cut`. -/
def operandsAt (cut : List Token × Token → Bool) (ps : List (List Token × Token)) :
    List (List Token) :=
  (ps.splitOnP cut).map (List.map Prod.snd)

/-- Whether a plus sign stands outside parentheses at a place. -/
def isOuterPlus (p : List Token × Token) : Bool := isOuter p && p.2.kind = .plus

/-- Whether a plus sign stands outside parentheses and outside `CASE` at a place. -/
def isWholePlus (p : List Token × Token) : Bool := isWhole p && p.2.kind = .plus

theorem operandsAt_cons (cut : List Token × Token → Bool) (p : List Token × Token)
    (ps : List (List Token × Token)) :
    operandsAt cut (p :: ps) =
      if cut p then [] :: operandsAt cut ps
      else (operandsAt cut ps).modifyHead (p.2 :: ·) := by
  rw [operandsAt, List.splitOnP_cons_eq_if_modifyHead]
  split
  · rfl
  · rw [operandsAt]
    cases ps.splitOnP cut <;> rfl

theorem operandsFrom_ne_nil (depth : Nat) (ts : List Token) : operandsFrom depth ts ≠ [] := by
  cases ts with
  | nil => exact List.cons_ne_nil _ _
  | cons t ts =>
      unfold operandsFrom
      split
      · exact List.cons_ne_nil _ _
      · dsimp only
        split <;> exact List.cons_ne_nil _ _

theorem operandsFrom_cons (depth : Nat) (t : Token) (ts : List Token) :
    operandsFrom depth (t :: ts) =
      if depth = 0 && t.kind = .plus then [] :: operandsFrom (t.depthAfter depth) ts
      else (operandsFrom (t.depthAfter depth) ts).modifyHead (t :: ·) := by
  rw [operandsFrom]
  split
  · rename_i hplus
    obtain ⟨-, hkind⟩ : depth = 0 ∧ t.kind = .plus := by simpa using hplus
    simp [Token.depthAfter, hkind]
  · dsimp only
    split
    · rename_i hnil
      exact absurd hnil (operandsFrom_ne_nil _ ts)
    · rename_i heq
      exact (congrArg (List.modifyHead (t :: ·)) heq).symm

theorem operandsFrom_eq (before ts : List Token) :
    operandsFrom (openAfter 0 before) ts = operandsAt isOuterPlus (placesFrom before ts) := by
  induction ts generalizing before with
  | nil => rfl
  | cons t ts ih =>
      have hstep := ih (before ++ [t])
      rw [openAfter_append, openAfter_cons, openAfter_nil] at hstep
      rw [placesFrom, operandsAt_cons, operandsFrom_cons, hstep]
      rfl

theorem operands_eq (ts : List Token) : operands ts = operandsAt isOuterPlus (places ts) :=
  operandsFrom_eq [] ts

section
variable {b : Brackets} {cut : List Token × Token → Bool}
  (hcut : ∀ p, cut p → b.opens p.2 = false ∧ b.closes p.2 = false)
include hcut

/-- What has been cut off at places where nothing is open is balanced, and the other way round. -/
theorem exists_operandsAt {before ts : List Token} {depth : Nat}
    (hbefore : b.openAfter? 0 before = some depth) (hts : b.openAfter? depth ts = some 0) :
    ∃ first rest, operandsAt cut (placesFrom before ts) = first :: rest ∧
      ((b.openAfter? depth first = some 0 ∧ ∀ operand ∈ rest, b.balanced operand) ↔
        ∀ p ∈ placesFrom before ts, cut p → b.balanced p.1) := by
  induction ts generalizing before depth with
  | nil => exact ⟨[], [], rfl, by simpa [placesFrom] using hts⟩
  | cons t ts ih =>
      obtain ⟨d, hd, hrest⟩ := Option.bind_eq_some_iff.mp hts
      have hbefore' : b.openAfter? 0 (before ++ [t]) = some d := by
        rw [openAfter?_append, hbefore]
        simpa [openAfter?_cons] using hd
      obtain ⟨first, rest, heq, hiff⟩ := ih hbefore' hrest
      rw [placesFrom, operandsAt_cons, heq, List.forall_mem_cons, ← hiff]
      by_cases hp : cut (before, t)
      · obtain ⟨hopens, hcloses⟩ := hcut _ hp
        obtain rfl : depth = d := by
          rw [after?_of_neutral hopens hcloses] at hd
          exact Option.some.inj hd
        refine ⟨[], first :: rest, if_pos hp, ?_⟩
        simp only [openAfter?_nil, List.forall_mem_cons, hp, true_implies, balanced, hbefore,
          decide_eq_true_eq, Option.some.injEq]
        constructor
        · rintro ⟨rfl, hfirst, hothers⟩
          exact ⟨rfl, hfirst, hothers⟩
        · rintro ⟨rfl, hfirst, hothers⟩
          exact ⟨rfl, hfirst, hothers⟩
      · refine ⟨t :: first, rest, if_neg hp, ?_⟩
        simp [openAfter?_cons, hd, hp]

theorem forall_balanced_operandsAt {ts : List Token} (hts : b.balanced ts) :
    (∀ operand ∈ operandsAt cut (places ts), b.balanced operand) ↔
      ∀ p ∈ places ts, cut p → b.balanced p.1 := by
  have hstart : b.openAfter? 0 [] = some 0 := openAfter?_nil
  obtain ⟨first, rest, heq, hiff⟩ := exists_operandsAt hcut hstart (of_decide_eq_true hts)
  rw [places, heq, ← hiff, List.forall_mem_cons, balanced, decide_eq_true_eq]

end

/-- In a balanced list the parentheses before an outer place are balanced. -/
theorem balanced_of_isOuter {ts : List Token} (hts : parens.balanced ts) {p : List Token × Token}
    (hp : p ∈ places ts) (houter : isOuter p) : parens.balanced p.1 := by
  obtain ⟨rest, hrest⟩ := isPrefix_of_mem_placesFrom hp
  rw [List.nil_append] at hrest
  rw [← hrest] at hts
  obtain ⟨depth, hdepth, -⟩ := exists_openAfter?_of_append (of_decide_eq_true hts)
  have hzero := of_decide_eq_true houter
  rw [openAfter_of_openAfter? hdepth] at hzero
  rw [balanced, hdepth, hzero]
  rfl

/-! ## Concatenations of whole operands -/

/-- The call that joins the operands, if there is a string among them and they are at least two. -/
def joined? (hasString : Bool) (operands : List (List Token)) : Option Text :=
  let parts := (operands.map fun operand => (emit operand).trim).filter fun p => !p.isEmpty
  if hasString && 1 < parts.length then
    some ("CONCAT(".toList ++ ", ".toList.intercalate parts ++ [')'])
  else none

/-- Whether a string literal stands outside parentheses and outside `CASE`. -/
def hasWholeString (ts : List Token) : Bool :=
  (places ts).any fun p => isWhole p && p.2.kind.isString

/-- The operands of the plus signs outside parentheses and outside `CASE`. -/
def wholeOperands (ts : List Token) : List (List Token) := operandsAt isWholePlus (places ts)

/-- The concatenation that takes a `CASE` for one operand, as it does with a group in
parentheses. -/
def wholeConcat? (ts : List Token) : Option Text := joined? (hasWholeString ts) (wholeOperands ts)

/-- Whether no plus sign outside parentheses stands inside a `CASE`. -/
def cutsWhole (ts : List Token) : Bool :=
  (places ts).all fun p => !isOuterPlus p || cases.balanced p.1

theorem concat?_eq (ts : List Token) :
    concat? ts = joined? (topLevel? (fun t => t.kind.isString) ts).isSome (operands ts) := rfl

theorem isSome_joined? {hasString : Bool} {operands : List (List Token)}
    (h : (joined? hasString operands).isSome) : hasString = true := by
  unfold joined? at h
  dsimp only at h
  split at h
  · rename_i hboth
    exact (Bool.and_eq_true_iff.mp hboth).1
  · cases h

theorem isSome_topLevel?_string (ts : List Token) :
    (topLevel? (fun t => t.kind.isString) ts).isSome =
      (places ts).any fun p => isOuter p && p.2.kind.isString := by
  refine isSome_topLevelFrom? _ [] ts ?_
  intro t ht
  constructor <;>
  · intro hkind
    rw [hkind] at ht
    cases ht

section
variable {ts : List Token} (hparens : parens.balanced ts)
include hparens

theorem isWhole_iff {p : List Token × Token} (hp : p ∈ places ts) :
    isWhole p ↔ isOuter p ∧ cases.balanced p.1 := by
  rw [isWhole, Bool.and_eq_true_iff]
  refine and_congr_left fun _ => ⟨fun h => ?_, balanced_of_isOuter hparens hp⟩
  rw [isOuter, openAfter_of_openAfter? (of_decide_eq_true h)]
  rfl

theorem operands_eq_wholeOperands (h : cutsWhole ts) : operands ts = wholeOperands ts := by
  have hsame : ∀ p ∈ places ts, isOuterPlus p = isWholePlus p := by
    intro p hp
    have hplus := List.all_eq_true.mp h p hp
    have hwhole := isWhole_iff hparens hp
    rw [isOuterPlus, Bool.or_eq_true, Bool.not_eq_true'] at hplus
    rw [Bool.eq_iff_iff, isOuterPlus, isWholePlus, Bool.and_eq_true_iff, Bool.and_eq_true_iff,
      hwhole]
    grind
  rw [operands_eq, wholeOperands]
  generalize places ts = ps at hsame
  induction ps with
  | nil => rfl
  | cons p ps ih =>
      obtain ⟨hp, hps⟩ := List.forall_mem_cons.mp hsame
      rw [operandsAt_cons, operandsAt_cons, hp, ih hps]

/-- A string outside parentheses and `CASE` is one outside parentheses. -/
theorem hasString_of_hasWholeString (h : hasWholeString ts) :
    (topLevel? (fun t => t.kind.isString) ts).isSome := by
  obtain ⟨p, hp, hboth⟩ := List.any_eq_true.mp h
  obtain ⟨hwhole, hstring⟩ := Bool.and_eq_true_iff.mp hboth
  rw [isSome_topLevel?_string, List.any_eq_true]
  exact ⟨p, hp, by simp [((isWhole_iff hparens hp).mp hwhole).1, hstring]⟩

end

theorem neutral_of_plus {t : Token} (h : t.kind = .plus) :
    (parens.opens t = false ∧ parens.closes t = false) ∧
      cases.opens t = false ∧ cases.closes t = false := by
  simp [parens, cases, Token.is, h]

theorem kind_of_isOuterPlus {p : List Token × Token} (h : isOuterPlus p) : p.2.kind = .plus :=
  of_decide_eq_true (Bool.and_eq_true_iff.mp h).2

theorem kind_of_isWholePlus {p : List Token × Token} (h : isWholePlus p) : p.2.kind = .plus :=
  of_decide_eq_true (Bool.and_eq_true_iff.mp h).2

/-- Without calls and qualifiers, the operands are emitted token by token. -/
theorem concat?_eq_of_tokenText {ts : List Token}
    (h : (operands ts).all fun operand => operand.all isPlainToken) :
    concat? ts =
      let parts := ((operands ts).map fun operand => Text.trim (operand.flatMap tokenText)).filter
        fun p => !p.isEmpty
      if (topLevel? (fun t => t.kind.isString) ts).isSome && 1 < parts.length then
        some ("CONCAT(".toList ++ ", ".toList.intercalate parts ++ [')'])
      else none := by
  have hparts : ((operands ts).map fun operand => (emit operand).trim) =
      (operands ts).map fun operand => Text.trim (operand.flatMap tokenText) := by
    refine List.map_congr_left fun operand hoperand => ?_
    rw [emit_of_isPlainToken (List.all_eq_true.mp h operand hoperand)]
  rw [concat?, hparts]

/-- Cutting outside `CASE` gives balanced operands. Cutting at all plus signs outside parentheses
keeps the parentheses balanced, and keeps each `CASE` with its `END` if and only if none of these
signs stands inside a `CASE`. A concatenation is the one of whole operands if and only if in
addition a string literal stands outside `CASE`. -/
theorem concat_whole_iff {ts : List Token} (hparens : parens.balanced ts)
    (hcases : cases.balanced ts) :
    (∀ operand ∈ wholeOperands ts, parens.balanced operand ∧ cases.balanced operand) ∧
    (∀ operand ∈ operands ts, parens.balanced operand) ∧
    ((∀ operand ∈ operands ts, cases.balanced operand) ↔ cutsWhole ts) ∧
    ((concat? ts).isSome →
      ((∀ operand ∈ operands ts, parens.balanced operand ∧ cases.balanced operand) ∧
          concat? ts = wholeConcat? ts ↔
        cutsWhole ts ∧ hasWholeString ts)) := by
  have hwhole : ∀ operand ∈ wholeOperands ts, parens.balanced operand ∧ cases.balanced operand := by
    intro operand hoperand
    constructor
    · refine (forall_balanced_operandsAt (fun p hp => ?_) hparens).mpr ?_ operand hoperand
      · exact (neutral_of_plus (kind_of_isWholePlus hp)).1
      · exact fun p _ hp => (Bool.and_eq_true_iff.mp (Bool.and_eq_true_iff.mp hp).1).1
    · refine (forall_balanced_operandsAt (fun p hp => ?_) hcases).mpr ?_ operand hoperand
      · exact (neutral_of_plus (kind_of_isWholePlus hp)).2
      · exact fun p _ hp => (Bool.and_eq_true_iff.mp (Bool.and_eq_true_iff.mp hp).1).2
  have hoperands : ∀ operand ∈ operands ts, parens.balanced operand := by
    rw [operands_eq, forall_balanced_operandsAt
      (fun p hp => (neutral_of_plus (kind_of_isOuterPlus hp)).1) hparens]
    exact fun p hmem hp => balanced_of_isOuter hparens hmem (Bool.and_eq_true_iff.mp hp).1
  have hiff : (∀ operand ∈ operands ts, cases.balanced operand) ↔ cutsWhole ts := by
    rw [operands_eq, forall_balanced_operandsAt
      (fun p hp => (neutral_of_plus (kind_of_isOuterPlus hp)).2) hcases, cutsWhole,
      List.all_eq_true]
    refine forall₂_congr fun p _ => ?_
    cases isOuterPlus p <;> simp
  refine ⟨hwhole, hoperands, hiff, fun hsome => ?_⟩
  constructor
  · rintro ⟨hboth, heq⟩
    rw [heq, wholeConcat?] at hsome
    exact ⟨hiff.mp fun operand h => (hboth operand h).2, isSome_joined? hsome⟩
  · rintro ⟨hcuts, hstring⟩
    refine ⟨fun operand h => ⟨hoperands operand h, hiff.mpr hcuts operand h⟩, ?_⟩
    rw [concat?_eq, wholeConcat?, operands_eq_wholeOperands hparens hcuts,
      hasString_of_hasWholeString hparens hstring, hstring]

/-- A `CASE` with a string in it and with a plus sign in parentheses, next to a string. -/
theorem concat_whole_iff_case :
    let ts := tokenize "'a' + CASE WHEN x = 'b' THEN (1 + 2) ELSE 3 END + @c".toList
    parens.balanced ts ∧ cases.balanced ts ∧ (concat? ts).isSome ∧ (operands ts).length = 3 ∧
      (∀ operand ∈ operands ts, parens.balanced operand ∧ cases.balanced operand) ∧
      concat? ts = wholeConcat? ts := by
  intro ts
  have hchecks : ((operands ts).all fun operand => operand.all isPlainToken) ∧
      parens.balanced ts ∧ cases.balanced ts ∧ (operands ts).length = 3 ∧
      cutsWhole ts ∧ hasWholeString ts := by
    decide +kernel
  obtain ⟨hplain, hparens, hcases, hlength, hcuts, hstring⟩ := hchecks
  have hsome : (concat? ts).isSome := by
    rw [concat?_eq_of_tokenText hplain]
    decide +kernel
  obtain ⟨-, -, -, hconcat⟩ := concat_whole_iff hparens hcases
  exact ⟨hparens, hcases, hsome, hlength, (hconcat hsome).mpr ⟨hcuts, hstring⟩⟩

/-- A numeric sum inside a `CASE` is torn apart because the condition compares a string. -/
theorem concat_tears_case :
    let ts := tokenize "CASE WHEN @a = 'x' THEN 1 + 2 ELSE 3 END".toList
    parens.balanced ts ∧ cases.balanced ts ∧
      concat? ts = some "CONCAT(CASE WHEN a = 'x' THEN 1, 2 ELSE 3 END)".toList ∧
      ¬ (∀ operand ∈ operands ts, cases.balanced operand) ∧ wholeConcat? ts = none := by
  intro ts
  have hchecks : ((operands ts).all fun operand => operand.all isPlainToken) ∧
      parens.balanced ts ∧ cases.balanced ts ∧
      ¬ (∀ operand ∈ operands ts, cases.balanced operand) ∧ hasWholeString ts = false := by
    decide +kernel
  obtain ⟨hplain, hparens, hcases, htorn, hstring⟩ := hchecks
  refine ⟨hparens, hcases, ?_, htorn, by simp [wholeConcat?, joined?, hstring]⟩
  rw [concat?_eq_of_tokenText hplain]
  decide +kernel

end Expression

end SqlMigration
