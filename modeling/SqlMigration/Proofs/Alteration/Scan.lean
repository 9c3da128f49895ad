import SqlMigration.Proofs.Alteration.Acceptance
import SqlMigration.Proofs.Alteration.Defaults

/-! # The scan of a column, step by step

What each part of the scan finds and what it leaves, as equations. A scan counts tokens, trivia
included; these equations speak of the list that is left instead, so that trivia drop out.
-/

namespace SqlMigration

namespace Column

variable {d : Dialect} {c : ColumnType} {t u : Token} {ts us rest : List Token}

theorem exists_of_not_noGroup (h : ¬NoGroup us) :
    ∃ u rest, us = u :: rest ∧ u.kind = .leftParen := by
  cases us with
  | nil => simp [NoGroup] at h
  | cons u rest => exact ⟨u, rest, rfl, by simpa [NoGroup] using h⟩

theorem fst_dataType_group (hskip : skipTrivia ts = u :: rest) (hu : u.kind = .leftParen) :
    (dataType d t ts).1 = d.mapType (Name.trimQuotes t.text)
      (argumentTexts (compactText (rest.take (groupEnd (u :: rest) - 1)))) := by
  simp only [dataType, drop_triviaLength, hskip, hu, if_true]

theorem fst_dataType_of_noGroup (h : NoGroup (skipTrivia ts)) :
    (dataType d t ts).1 = d.mapType (Name.trimQuotes t.text) [] := by
  simp only [dataType, drop_triviaLength]
  split
  · rfl
  · rename_i u rest hskip
    rw [if_neg (h u (by rw [hskip]; rfl))]

theorem compactText_cons (t : Token) (ts : List Token) :
    compactText (t :: ts) = compactText [t] ++ compactText ts := by
  simp only [compactText, ← List.flatMap_append, ← List.filter_append, List.singleton_append]

theorem fst_defaultValue_group (ht : t.kind = .leftParen) :
    (defaultValue (t :: ts)).1 =
      Text.stripParens (compactText (t :: ts.take (groupEnd (t :: ts)))) := by
  simp only [defaultValue, ht, if_true, List.take_succ_cons]

theorem fst_defaultValue_call (ht : t.kind.isIdentifier) (hskip : skipTrivia ts = u :: rest)
    (hu : u.kind = .leftParen) :
    (defaultValue (t :: ts)).1 = compactText (t :: u :: rest.take (groupEnd (u :: rest))) := by
  have hleft : t.kind ≠ .leftParen := by
    intro h
    rw [h] at ht
    cases ht
  obtain ⟨gap, hts, hgap, hlength, -⟩ := eq_append_of_skipTrivia hskip
  have htake : ts.take (triviaLength ts + groupEnd (u :: rest) + 1) =
      gap ++ u :: rest.take (groupEnd (u :: rest)) := by
    rw [Nat.add_right_comm, hlength, hts, take_gap]
  simp only [defaultValue, hleft, if_false, drop_triviaLength, hskip, ht, hu, decide_true,
    Bool.and_self, if_true, List.take_succ_cons, htake]
  rw [compactText_cons, compactText_cons t (u :: _), compactText_eq (gap ++ _), significant_append,
    significant_eq_nil hgap, List.nil_append, ← compactText_eq]

theorem fst_defaultValue_negative (ht : t.kind = .minus) (hskip : skipTrivia ts = u :: rest)
    (hu : u.kind.isNumber) : (defaultValue (t :: ts)).1 = '-' :: u.text := by
  have hname : Kind.minus.isIdentifier = false := rfl
  simp only [defaultValue, ht, reduceCtorEq, if_false, drop_triviaLength, hskip, hname,
    Bool.false_and, Bool.false_eq_true, hu, decide_true, Bool.and_self, if_true]

theorem fst_defaultValue_single (hleft : t.kind ≠ .leftParen)
    (hnext : ∀ u ∈ (skipTrivia ts).head?, (t.kind.isIdentifier && u.kind = .leftParen) = false ∧
      (t.kind = .minus && u.kind.isNumber) = false) :
    (defaultValue (t :: ts)).1 = t.text := by
  simp only [defaultValue, hleft, if_false, drop_triviaLength]
  cases hskip : skipTrivia ts with
  | nil => rfl
  | cons u rest =>
      obtain ⟨hcall, hnegative⟩ := hnext u (by rw [hskip]; rfl)
      simp only [hcall, hnegative, Bool.false_eq_true, if_false]

/-- An option that is one token does not depend on what follows. -/
theorem option?_single (hleft : t.kind ≠ .leftParen) (hnot : t.is .NOT = false)
    (hidentity : t.is .IDENTITY = false) (hprimary : t.is .PRIMARY = false)
    (hconstraint : t.is .CONSTRAINT = false) (hdefault : t.is .DEFAULT = false)
    (ts us : List Token) :
    (option? d c t ts = none ∧ option? d c t us = none) ∨
      ∃ c', option? d c t ts = some (c', 0) ∧ option? d c t us = some (c', 0) := by
  unfold option?
  dsimp only
  split <;> simp_all [Token.is]

theorem option?_identity (ht : t.is .IDENTITY) (h : NoGroup (skipTrivia ts)) :
    option? d c t ts = some ({ c with identity := true }, 0) := by
  have hopen : ((skipTrivia ts).head?.any fun u => u.kind = .leftParen) = false := by
    rw [Bool.eq_false_iff]
    intro hany
    obtain ⟨u, hu, hkind⟩ := (Option.any_eq_true _ _).mp hany
    exact h u hu (of_decide_eq_true hkind)
  simp only [option?, kind_of_is ht, hopen, Bool.false_eq_true, if_false]

theorem option?_identityFrom (ht : t.is .IDENTITY) (hskip : skipTrivia ts = u :: rest)
    (hu : u.kind = .leftParen) :
    option? d c t ts =
      some ({ c with identity := true }, triviaLength ts + 1 + groupEnd (u :: rest)) := by
  simp only [option?, kind_of_is ht, hskip, List.head?_cons, Option.any_some, hu, decide_true,
    if_true]

theorem option?_default (ht : t.is .DEFAULT) :
    option? d c t ts =
      some ({ c with defaultValue := some (d.mapDefault (defaultValue (skipTrivia ts)).1) },
        triviaLength ts + (defaultValue (skipTrivia ts)).2) := by
  simp only [option?, kind_of_is ht]

theorem options_of_skipTrivia_eq_nil (h : skipTrivia ts = []) : options d c ts = (c, 0) := by
  rw [options]
  split
  · rfl
  · rename_i hcons
    rw [hcons] at h
    cases h

theorem options_of_none (hskip : skipTrivia ts = t :: rest) (h : option? d c t rest = none) :
    options d c ts = (c, triviaLength ts) := by
  rw [options]
  split
  · rename_i hnil
    rw [hnil] at hskip
    cases hskip
  · rename_i t' rest' hcons
    obtain ⟨rfl, rfl⟩ := List.cons.inj (hcons.symm.trans hskip)
    rw [h]

/-- The options of `ts` come down to those of `rest`, with `c'` in place of `c`. -/
def Continues (d : Dialect) (c : ColumnType) (ts : List Token) (c' : ColumnType)
    (rest : List Token) : Prop :=
  (options d c ts).1 = (options d c' rest).1 ∧
    ts.drop (options d c ts).2 = rest.drop (options d c' rest).2

theorem Continues.trans {c' c'' : ColumnType} (h : Continues d c ts c' rest)
    (h' : Continues d c' rest c'' us) : Continues d c ts c'' us :=
  ⟨h.1.trans h'.1, h.2.trans h'.2⟩

theorem options_of_some {c' : ColumnType} {n : Nat} (hskip : skipTrivia ts = t :: rest)
    (h : option? d c t rest = some (c', n)) : Continues d c ts c' (rest.drop n) := by
  rw [Continues, options]
  split
  · rename_i hnil
    rw [hnil] at hskip
    cases hskip
  · rename_i t' rest' hcons
    obtain ⟨rfl, rfl⟩ := List.cons.inj (hcons.symm.trans hskip)
    simp only [h, Nat.add_assoc _ n, true_and]
    rw [drop_of_skipTrivia hskip, List.drop_drop]

theorem define_of_type (hskip : skipTrivia ts = u :: us) (hu : u.kind.isIdentifier) :
    let start : ColumnType := { dataType := (dataType d u us).1 }
    let rest := us.drop (dataType d u us).2
    (define d t ts).1 = ⟨Name.normalize t.text, (options d start rest).1⟩ ∧
      ts.drop (define d t ts).2 = rest.drop (options d start rest).2 := by
  simp only [define, hskip, hu, if_true]
  rw [drop_of_skipTrivia hskip, ← List.drop_drop, drop_of_skipTrivia hskip]
  exact ⟨rfl, rfl⟩

theorem define_of_noType (h : ∀ u ∈ (skipTrivia ts).head?, u.kind.isIdentifier = false) :
    define d t ts = (⟨Name.normalize t.text, (options d {} ts).1⟩, (options d {} ts).2) := by
  simp only [define]
  split
  · rename_i u us hskip
    simp [h u (by rw [hskip]; rfl)]
  · simp

end Column

/-! ## Patterns -/

namespace Pattern

variable {p : Pattern} {ts : List Token}

theorem pos_of_matchSteps {s : Step} {steps : List Step} {c : Captures} {n : Nat}
    (h : p.matchSteps (s :: steps) ts = .ok (c, n)) : 0 < n := by
  rw [matchSteps] at h
  split at h
  · cases h
  · rename_i c' n' hstep
    have hpos : 0 < n' := by
      simp only [matchStep] at hstep
      split at hstep
      · cases hstep
      · split at hstep
        · split at hstep <;> cases hstep <;> omega
        · cases hstep
    split at h
    · cases h
    · cases h
      omega

theorem matchTail_of_error {n : Nat} (h : p.matchSteps p.tail ts = .error n) :
    p.matchTail ts = ({}, 0) := by
  cases ts with
  | nil => rw [matchTail]
  | cons t ts => rw [matchTail, h]

theorem matchTail_of_ok {c : Captures} {n : Nat} (h : p.matchSteps p.tail ts = .ok (c, n))
    (hn : 0 < n) :
    p.matchTail ts = (c ++ (p.matchTail (ts.drop n)).1, n + (p.matchTail (ts.drop n)).2) := by
  obtain ⟨n, rfl⟩ := Nat.exists_eq_add_one_of_ne_zero hn.ne'
  cases ts with
  | nil =>
      cases htail : p.tail with
      | nil =>
          rw [htail] at h
          cases h
      | cons s steps =>
          rw [htail] at h
          cases h
  | cons t ts =>
      rw [matchTail, h]
      rfl

theorem run?_of_error {n : Nat} (h : p.matchSteps p.steps ts = .error n) : p.run? ts = none := by
  rw [run?, run, h]
  split <;> rfl

theorem run?_of_ok {c : Captures} {n : Nat} (hsteps : p.steps ≠ [])
    (h : p.matchSteps p.steps ts = .ok (c, n)) :
    p.run? ts =
      some (c ++ (p.matchTail (ts.drop n)).1, n + (p.matchTail (ts.drop n)).2) := by
  have hempty : ts.isEmpty = false := by
    cases ts with
    | cons t ts => rfl
    | nil =>
        obtain ⟨s, steps, hcons⟩ := List.exists_cons_of_ne_nil hsteps
        rw [hcons] at h
        cases h
  rw [run?, run, h, hempty]
  rfl

end Pattern

end SqlMigration
