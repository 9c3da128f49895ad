import SqlMigration.Proofs.Alteration.Acceptance
import SqlMigration.Proofs.Alteration.Reach
import Mathlib.Data.List.Basic

/-! # Greedy matching

The relation `TakesAll` says what it means for steps to fit one after the other, by the positions of
the tokens and not by a computation. A run finds the steps of its pattern followed by the largest
number of repetitions of the tail that fit, or else the place where the first step fails to fit.
-/

namespace SqlMigration.Pattern

variable {p : Pattern} {ts : List Token}

/-! ## Steps that fit -/

/-- From `pos` on, the token `t` at `i` is the first that is not passed over. -/
structure Finds (p : Pattern) (ts : List Token) (pos i : Nat) (t : Token) : Prop where
  le : pos ≤ i
  token : ts[i]? = some t
  stays : p.skips t = false
  passed : ∀ j u, pos ≤ j → j < i → ts[j]? = some u → p.skips u

/-- The qualifier `dbo` at `i`, a dot and the name `u` follow each other directly. -/
def Qualifies (ts : List Token) (i : Nat) (u : Token) : Prop :=
  ∃ t dot, ts[i]? = some t ∧ t.isWord "dbo" ∧ ts[i + 1]? = some dot ∧ dot.kind = .dot ∧
    ts[i + 2]? = some u ∧ u.kind.isIdentifier

/-- The step fits the first token from `pos` on that is not passed over. It captures what the first
index says and leaves off at the position of the second. -/
inductive Takes (p : Pattern) (ts : List Token) (s : Step) (pos : Nat) :
    Captures → Nat → Prop where
  | nothing {i t} (hfinds : Finds p ts pos i t) (hkind : t.kind ∈ s.kinds)
      (hs : s.capture = .nothing) : Takes p ts s pos {} (i + 1)
  | raw {i t} (hfinds : Finds p ts pos i t) (hkind : t.kind ∈ s.kinds) (hs : s.capture = .raw) :
      Takes p ts s pos { values := [t.text] } (i + 1)
  | name {i t} (hfinds : Finds p ts pos i t) (hkind : t.kind ∈ s.kinds)
      (hs : s.capture = .identifier) (hplain : ∀ u, ¬ Qualifies ts i u) :
      Takes p ts s pos { values := [Name.normalize t.text] } (i + 1)
  | qualified {i t u} (hfinds : Finds p ts pos i t) (hkind : t.kind ∈ s.kinds)
      (hs : s.capture = .identifier) (hname : Qualifies ts i u) :
      Takes p ts s pos { values := [Name.normalize u.text] } (i + 3)
  | column {i t} (hfinds : Finds p ts pos i t) (hkind : t.kind ∈ s.kinds)
      (hs : s.capture = .column) :
      Takes p ts s pos { columns := [(Column.define p.dialect t (ts.drop (i + 1))).1] }
        (i + 1 + (Column.define p.dialect t (ts.drop (i + 1))).2)

/-- The steps fit one after the other, each from where the one before it leaves off. -/
inductive TakesAll (p : Pattern) (ts : List Token) :
    List Step → Nat → Captures → Nat → Prop where
  | nil (pos) : TakesAll p ts [] pos {} pos
  | cons {s steps pos mid next c c'} (h : Takes p ts s pos c mid)
      (hs : TakesAll p ts steps mid c' next) : TakesAll p ts (s :: steps) pos (c ++ c') next

/-- The step does not fit at `pos`: the token at `stop` is not of its kinds, or no token is left. -/
inductive Refuses (p : Pattern) (ts : List Token) (s : Step) (pos : Nat) : Nat → Prop where
  | token {i t} (hfinds : Finds p ts pos i t) (hkind : t.kind ∉ s.kinds) : Refuses p ts s pos i
  | nothingLeft (hpassed : ∀ j u, pos ≤ j → ts[j]? = some u → p.skips u) :
      Refuses p ts s pos (max pos ts.length)

/-! ## One step -/

section
variable {s : Step} {pos i next n : Nat} {t u : Token} {c : Captures} {gap rest : List Token}

theorem Finds.of_drop_eq (hdrop : ts.drop pos = gap ++ t :: rest) (hgap : ∀ u ∈ gap, p.skips u)
    (ht : p.skips t = false) : Finds p ts pos (pos + gap.length) t := by
  refine ⟨Nat.le_add_right _ _, ?_, ht, fun j u hle hlt hj => ?_⟩
  · rw [← List.getElem?_drop, hdrop, List.getElem?_append_right (Nat.le_refl _), Nat.sub_self]
    rfl
  · obtain ⟨k, rfl⟩ := Nat.exists_eq_add_of_le hle
    rw [← List.getElem?_drop, hdrop, List.getElem?_append_left (by omega)] at hj
    exact hgap u (List.mem_of_getElem? hj)

theorem Finds.exists_gap (h : Finds p ts pos i t) :
    ∃ gap, ts.drop pos = gap ++ t :: ts.drop (i + 1) ∧ pos + gap.length = i ∧
      ∀ u ∈ gap, p.skips u := by
  obtain ⟨hi, hget⟩ := List.getElem?_eq_some_iff.mp h.token
  refine ⟨(ts.drop pos).take (i - pos), ?_, ?_, fun u hu => ?_⟩
  · have hdrop : (ts.drop pos).drop (i - pos) = t :: ts.drop (i + 1) := by
      rw [List.drop_drop, Nat.add_sub_cancel' h.le, List.drop_eq_getElem_cons hi, hget]
    rw [← hdrop, List.take_append_drop]
  · have hle := h.le
    rw [List.length_take_of_le (by rw [List.length_drop]; omega)]
    omega
  · obtain ⟨j, hj⟩ := List.mem_iff_getElem?.mp hu
    rw [List.getElem?_take, List.getElem?_drop] at hj
    split at hj
    · exact h.passed (pos + j) u (Nat.le_add_right _ _) (by omega) hj
    · cases hj

theorem nameAt_of_qualifies (ht : ts[i]? = some t) (h : Qualifies ts i u) :
    nameAt t (ts.drop (i + 1)) = (Name.normalize u.text, 2) := by
  obtain ⟨t', dot, ht', hdbo, hdot, hkind, hu, hname⟩ := h
  obtain rfl : t = t' := Option.some.inj (ht.symm.trans ht')
  obtain ⟨hi, rfl⟩ := List.getElem?_eq_some_iff.mp hdot
  obtain ⟨hi', rfl⟩ := List.getElem?_eq_some_iff.mp hu
  rw [List.drop_eq_getElem_cons hi, List.drop_eq_getElem_cons hi']
  simp [nameAt, startsWithDbo, hdbo, hkind, hname]

theorem nameAt_of_not_qualifies (ht : ts[i]? = some t) (h : ∀ u, ¬ Qualifies ts i u) :
    nameAt t (ts.drop (i + 1)) = (Name.normalize t.text, 0) := by
  unfold nameAt
  split
  · rename_i dot u more hdrop
    split
    · rename_i hname
      have hget (k : Nat) : ts[i + 1 + k]? = (dot :: u :: more)[k]? := by
        rw [← List.getElem?_drop, hdrop]
      simp only [hdrop, startsWithDbo, Bool.and_eq_true, decide_eq_true_eq] at hname
      exact absurd ⟨t, dot, ht, hname.1.1, hget 0, hname.1.2, hget 1, hname.2⟩ (h u)
    · rfl
  · rfl

theorem takes_iff_taken : Takes p ts s pos c next ↔
    ∃ i t, Finds p ts pos i t ∧ t.kind ∈ s.kinds ∧ c = (p.taken s t (ts.drop (i + 1))).1 ∧
      next = i + 1 + (p.taken s t (ts.drop (i + 1))).2 := by
  constructor
  · intro h
    cases h with
    | nothing hfinds hkind hs | raw hfinds hkind hs | column hfinds hkind hs =>
        exact ⟨_, _, hfinds, hkind, by simp only [taken, hs], by simp only [taken, hs]⟩
    | name hfinds hkind hs hplain =>
        refine ⟨_, _, hfinds, hkind, ?_, ?_⟩ <;>
          simp only [taken, hs, nameAt_of_not_qualifies hfinds.token hplain]
    | qualified hfinds hkind hs hname =>
        refine ⟨_, _, hfinds, hkind, ?_, ?_⟩ <;>
          simp only [taken, hs, nameAt_of_qualifies hfinds.token hname]
  · rintro ⟨i, t, hfinds, hkind, rfl, rfl⟩
    cases hs : s.capture with
    | nothing => simpa only [taken, hs] using Takes.nothing hfinds hkind hs
    | raw => simpa only [taken, hs] using Takes.raw hfinds hkind hs
    | column => simpa only [taken, hs] using Takes.column hfinds hkind hs
    | identifier =>
        by_cases hname : ∃ u, Qualifies ts i u
        · obtain ⟨u, hu⟩ := hname
          simpa only [taken, hs, nameAt_of_qualifies hfinds.token hu] using
            Takes.qualified hfinds hkind hs hu
        · simpa only [taken, hs, nameAt_of_not_qualifies hfinds.token (not_exists.mp hname)] using
            Takes.name hfinds hkind hs (not_exists.mp hname)

theorem Takes.execution (h : Takes p ts s pos c next) :
    ∃ n, next = pos + (n + 1) ∧ p.matchStep s (ts.drop pos) = .ok (c, n + 1) := by
  obtain ⟨i, t, hfinds, hkind, rfl, rfl⟩ := takes_iff_taken.mp h
  obtain ⟨gap, hdrop, rfl, hgap⟩ := hfinds.exists_gap
  refine ⟨gap.length + (p.taken s t (ts.drop (pos + gap.length + 1))).2, by omega, ?_⟩
  rw [hdrop, matchStep_gap_append hgap hfinds.stays, if_pos hkind, Nat.add_right_comm gap.length]

theorem exists_finds_or_skips (p : Pattern) (ts : List Token) (pos : Nat) :
    (∃ i t, Finds p ts pos i t) ∨ ∀ u ∈ ts.drop pos, p.skips u := by
  cases hrest : (ts.drop pos).dropWhile p.skips with
  | nil => exact .inr (List.dropWhile_eq_nil_iff.mp hrest)
  | cons t rest =>
      have hstays := List.head?_dropWhile_not p.skips (ts.drop pos)
      rw [hrest] at hstays
      have hdrop : ts.drop pos = (ts.drop pos).takeWhile p.skips ++ t :: rest := by
        rw [← hrest, List.takeWhile_append_dropWhile]
      exact .inl ⟨_, t, .of_drop_eq hdrop (fun u hu => List.mem_takeWhile_imp hu) hstays⟩

theorem takes_of_matchStep (h : p.matchStep s (ts.drop pos) = .ok (c, n)) :
    Takes p ts s pos c (pos + n) := by
  rcases exists_finds_or_skips p ts pos with ⟨i, t, hfinds⟩ | hskips
  · obtain ⟨gap, hdrop, rfl, hgap⟩ := hfinds.exists_gap
    rw [hdrop, matchStep_gap_append hgap hfinds.stays] at h
    split at h
    · rename_i hkind
      cases h
      exact takes_iff_taken.mpr ⟨_, t, hfinds, hkind, rfl, by omega⟩
    · cases h
  · rw [matchStep_of_skips hskips] at h
    cases h

theorem refuses_of_matchStep (h : p.matchStep s (ts.drop pos) = .error n) :
    Refuses p ts s pos (pos + n) := by
  rcases exists_finds_or_skips p ts pos with ⟨i, t, hfinds⟩ | hskips
  · obtain ⟨gap, hdrop, rfl, hgap⟩ := hfinds.exists_gap
    rw [hdrop, matchStep_gap_append hgap hfinds.stays] at h
    split at h
    · cases h
    · rename_i hkind
      cases h
      exact .token hfinds hkind
  · rw [matchStep_of_skips hskips, List.length_drop] at h
    cases h
    have hend : pos + (ts.length - pos) = max pos ts.length := by omega
    rw [hend]
    refine .nothingLeft fun j u hle hj => hskips u ?_
    obtain ⟨k, rfl⟩ := Nat.exists_eq_add_of_le hle
    rw [← List.getElem?_drop] at hj
    exact List.mem_of_getElem? hj

end

/-! ## Several steps -/

theorem captures_append_assoc (a b c : Captures) : a ++ b ++ c = a ++ (b ++ c) :=
  congrArg₂ Captures.mk (List.append_assoc _ _ _) (List.append_assoc _ _ _)

section
variable {steps front back : List Step} {pos next n : Nat} {c : Captures}

theorem takesAll_append : TakesAll p ts (front ++ back) pos c next ↔
    ∃ c₁ mid c₂, TakesAll p ts front pos c₁ mid ∧ TakesAll p ts back mid c₂ next ∧
      c = c₁ ++ c₂ := by
  constructor
  · intro h
    induction front generalizing pos c with
    | nil => exact ⟨{}, pos, c, .nil pos, h, rfl⟩
    | cons s front ih =>
        cases h with
        | cons hstep hsteps =>
            obtain ⟨c₁, mid, c₂, hfront, hback, rfl⟩ := ih hsteps
            exact ⟨_, mid, c₂, .cons hstep hfront, hback, (captures_append_assoc _ _ _).symm⟩
  · rintro ⟨c₁, mid, c₂, hfront, hback, rfl⟩
    induction hfront with
    | nil pos => exact hback
    | cons hstep _ ih =>
        rw [captures_append_assoc]
        exact .cons hstep (ih hback)

theorem TakesAll.execution (h : TakesAll p ts steps pos c next) :
    ∃ n, next = pos + n ∧ steps.length ≤ n ∧ p.matchSteps steps (ts.drop pos) = .ok (c, n) := by
  induction h with
  | nil pos => exact ⟨0, rfl, Nat.le_refl 0, rfl⟩
  | cons hstep _ ih =>
      obtain ⟨n, rfl, hfirst⟩ := hstep.execution
      obtain ⟨m, rfl, hlen, hrest⟩ := ih
      refine ⟨n + 1 + m, Nat.add_assoc _ _ _, by rw [List.length_cons]; omega, ?_⟩
      simp only [matchSteps, hfirst, List.drop_drop, hrest]

theorem TakesAll.unique {c' : Captures} {next' : Nat} (h : TakesAll p ts steps pos c next)
    (h' : TakesAll p ts steps pos c' next') : c' = c ∧ next' = next := by
  obtain ⟨n, rfl, -, hrun⟩ := h.execution
  obtain ⟨n', rfl, -, hrun'⟩ := h'.execution
  rw [hrun] at hrun'
  cases hrun'
  exact ⟨rfl, rfl⟩

theorem takesAll_of_matchSteps (h : p.matchSteps steps (ts.drop pos) = .ok (c, n)) :
    TakesAll p ts steps pos c (pos + n) := by
  induction steps generalizing pos c n with
  | nil =>
      cases h
      exact .nil pos
  | cons s steps ih =>
      rw [matchSteps] at h
      split at h
      · cases h
      · rename_i c₁ n₁ hfirst
        rw [List.drop_drop] at h
        split at h
        · cases h
        · rename_i c₂ n₂ hrest
          cases h
          rw [← Nat.add_assoc]
          exact .cons (takes_of_matchStep hfirst) (ih hrest)

/-- Where the steps do not fit, one of them is refused behind the steps before it. -/
theorem refuses_of_matchSteps (h : p.matchSteps steps (ts.drop pos) = .error n) :
    ∃ front s back c mid, steps = front ++ s :: back ∧ TakesAll p ts front pos c mid ∧
      Refuses p ts s mid (pos + n) := by
  induction steps generalizing pos n with
  | nil => cases h
  | cons s steps ih =>
      rw [matchSteps] at h
      split at h
      · rename_i hfirst
        cases h
        exact ⟨[], s, steps, {}, pos, rfl, .nil pos, refuses_of_matchStep hfirst⟩
      · rename_i c₁ n₁ hfirst
        rw [List.drop_drop] at h
        split at h
        · rename_i hrest
          cases h
          obtain ⟨front, s', back, c, mid, rfl, hfront, hrefuses⟩ := ih hrest
          rw [Nat.add_assoc] at hrefuses
          exact ⟨s :: front, s', back, _, mid, rfl, .cons (takes_of_matchStep hfirst) hfront,
            hrefuses⟩
        · cases h

/-! ## Repetitions of the tail -/

/-- The steps of the pattern and `r` repetitions of its tail. -/
def unrolled (p : Pattern) (r : Nat) : List Step := p.steps ++ (List.replicate r p.tail).flatten

theorem not_takesAll_of_drop_eq_nil (hsteps : steps ≠ []) (hdrop : ts.drop pos = []) :
    ¬ TakesAll p ts steps pos c next := by
  intro h
  obtain ⟨n, -, -, hrun⟩ := h.execution
  obtain ⟨s, steps, rfl⟩ := List.exists_cons_of_ne_nil hsteps
  rw [hdrop, matchSteps, matchStep_of_skips (by simp)] at hrun
  cases hrun

/-- The tail repeats until it no longer fits. -/
theorem matchTail_derivation (p : Pattern) (ts : List Token) (pos : Nat) :
    ∃ r, TakesAll p ts (List.replicate r p.tail).flatten pos (p.matchTail (ts.drop pos)).1
        (pos + (p.matchTail (ts.drop pos)).2) ∧
      (p.tail ≠ [] → ∀ c n, ¬ TakesAll p ts p.tail (pos + (p.matchTail (ts.drop pos)).2) c n) := by
  generalize hus : ts.drop pos = us
  fun_induction p.matchTail us generalizing pos with
  | case1 =>
      exact ⟨0, .nil pos, fun htail c n => not_takesAll_of_drop_eq_nil htail hus⟩
  | case2 t us c n hmatch c' m hrest ih =>
      have hdrop : ts.drop (pos + (n + 1)) = us.drop n := by
        rw [← List.drop_drop, hus, List.drop_succ_cons]
      obtain ⟨r, htakes, hmost⟩ := ih (pos + (n + 1)) hdrop
      rw [hrest, Nat.add_assoc] at htakes hmost
      rw [← hus] at hmatch
      refine ⟨r + 1, ?_, hmost⟩
      rw [List.replicate_succ, List.flatten_cons]
      exact takesAll_append.mpr ⟨c, _, c', takesAll_of_matchSteps hmatch, htakes, rfl⟩
  | case3 t us hne =>
      -- A tail that fits takes a token for each step, so the scan would have gone on.
      refine ⟨0, .nil pos, fun htail c n h => ?_⟩
      obtain ⟨n, -, hlen, hrun⟩ := h.execution
      have hpos := List.length_pos_iff.mpr htail
      obtain ⟨k, rfl⟩ := Nat.exists_eq_add_of_le (hpos.trans_le hlen)
      rw [Nat.add_zero, hus, Nat.add_comm] at hrun
      exact hne _ _ hrun

/-- Where the tail does not fit again, no larger number of repetitions fits. -/
theorem le_of_takesAll_unrolled {r r' next' : Nat} {c' : Captures}
    (h : TakesAll p ts (p.unrolled r) pos c next)
    (hmost : ∀ c n, ¬ TakesAll p ts p.tail next c n)
    (h' : TakesAll p ts (p.unrolled r') pos c' next') : r' ≤ r := by
  by_contra hlt
  -- The first `r` of more repetitions end at `next` too, so one more would have to fit there.
  obtain ⟨k, rfl⟩ := Nat.exists_eq_add_of_lt (Nat.lt_of_not_le hlt)
  have hsplit : p.unrolled (r + k + 1) =
      p.unrolled r ++ (p.tail ++ (List.replicate k p.tail).flatten) := by
    rw [unrolled, unrolled, Nat.add_assoc, ← List.replicate_append_replicate, List.replicate_succ,
      List.flatten_append, List.flatten_cons, List.append_assoc]
  rw [hsplit] at h'
  obtain ⟨_, mid, _, hmid, hmore, -⟩ := takesAll_append.mp h'
  obtain ⟨-, rfl⟩ := h.unique hmid
  obtain ⟨c₁, n₁, _, htail, -, -⟩ := takesAll_append.mp hmore
  exact hmost c₁ n₁ htail

/-! ## Matches that overrun the list -/

/-- The last of the steps captures a column that ends with a `CONSTRAINT` that has no name. -/
def Overruns (p : Pattern) (ts : List Token) (steps : List Step) (start : Nat) : Prop :=
  ∃ front s c pos i t, steps = front ++ [s] ∧ s.capture = .column ∧
    TakesAll p ts front start c pos ∧ Finds p ts pos i t ∧
    Column.dangles p.dialect (ts.drop (i + 1))

theorem Finds.unique {i i' : Nat} {t t' : Token} (h : Finds p ts pos i t)
    (h' : Finds p ts pos i' t') : i' = i := by
  rcases Nat.lt_trichotomy i i' with hlt | heq | hlt
  · exact absurd (h'.passed i t h.le hlt h.token) (by simp [h.stays])
  · exact heq.symm
  · exact absurd (h.passed i' t' h'.le hlt h'.token) (by simp [h'.stays])

theorem Takes.reach {s : Step} (h : Takes p ts s pos c next) :
    next ≤ ts.length + 1 ∧ (ts.length < next ↔ s.capture = .column ∧
      ∃ i t, Finds p ts pos i t ∧ Column.dangles p.dialect (ts.drop (i + 1))) := by
  have hlt {i : Nat} {t : Token} (h : ts[i]? = some t) : i < ts.length :=
    (List.getElem?_eq_some_iff.mp h).1
  cases h with
  | nothing hfinds _ hs | raw hfinds _ hs | name hfinds _ hs =>
      have hi := hlt hfinds.token
      simp only [hs, reduceCtorEq, false_and, iff_false]
      omega
  | qualified hfinds _ hs hname =>
      obtain ⟨_, _, _, _, _, _, hu, _⟩ := hname
      have hi := hlt hu
      simp only [hs, reduceCtorEq, false_and, iff_false]
      omega
  | @column i t hfinds _ hs =>
      have hi := hlt hfinds.token
      have hdefine := Column.snd_define p.dialect t (ts.drop (i + 1))
      rw [List.length_drop] at hdefine
      split at hdefine
      · rename_i hdangles
        refine ⟨by omega, fun _ => ⟨hs, i, t, hfinds, hdangles⟩, fun _ => by omega⟩
      · rename_i hdangles
        refine ⟨by omega, fun _ => by omega, ?_⟩
        rintro ⟨-, i', t', hfinds', hdangles'⟩
        rw [hfinds.unique hfinds'] at hdangles'
        exact absurd hdangles' hdangles

/-- A match ends within the list, or one position beyond its end if it overruns. -/
theorem TakesAll.reach (h : TakesAll p ts steps pos c next) (hpos : pos ≤ ts.length) :
    next ≤ ts.length + 1 ∧ (ts.length < next ↔ Overruns p ts steps pos) := by
  rcases List.eq_nil_or_concat' steps with rfl | ⟨front, s, rfl⟩
  · cases h
    refine ⟨by omega, fun _ => by omega, ?_⟩
    rintro ⟨front, s, _, _, _, _, hnil, _⟩
    simp at hnil
  · obtain ⟨c₁, mid, _, hfront, hlast, -⟩ := takesAll_append.mp h
    cases hlast with
    | cons hstep hnil =>
        cases hnil
        obtain ⟨hle, hover⟩ := hstep.reach
        refine ⟨hle, hover.trans ⟨?_, ?_⟩⟩
        · rintro ⟨hs, i, t, hfinds, hdangles⟩
          exact ⟨front, s, c₁, mid, i, t, rfl, hs, hfront, hfinds, hdangles⟩
        · rintro ⟨front', s', c', mid', i, t, hsteps, hs, hfront', hfinds, hdangles⟩
          obtain ⟨rfl, hlast⟩ := List.append_inj' hsteps rfl
          obtain rfl : s = s' := List.head_eq_of_cons_eq hlast
          obtain ⟨-, rfl⟩ := hfront.unique hfront'
          exact ⟨hs, i, t, hfinds, hdangles⟩

theorem Refuses.lt_iff {s : Step} {stop : Nat} (h : Refuses p ts s pos stop) :
    ts.length < stop ↔ ts.length < pos := by
  cases h with
  | token hfinds _ =>
      have hi := (List.getElem?_eq_some_iff.mp hfinds.token).1
      have hle := hfinds.le
      omega
  | nothingLeft _ => omega

end

/-! ## Runs -/

/-- What a run at `start` gives, without mention of how it is computed. -/
structure IsGreedy (p : Pattern) (ts : List Token) (start : Nat) (o : Outcome) : Prop where
  matched_iff : o.matched ↔ ∃ c next, TakesAll p ts p.steps start c next
  /-- A match takes as many repetitions of the tail as fit, and nothing of the next one. -/
  success : o.matched → ∃ r, TakesAll p ts (p.unrolled r) start o.captures o.stop ∧
    (p.tail ≠ [] → ∀ r' c next, TakesAll p ts (p.unrolled r') start c next → r' ≤ r) ∧
    o.stop ≤ ts.length + 1 ∧ (ts.length < o.stop ↔ Overruns p ts (p.unrolled r) start)
  /-- A failure captures nothing and stops where a step is refused. -/
  failure : o.matched = false → o.captures = {} ∧ ∃ front s back c pos,
    p.steps = front ++ s :: back ∧ TakesAll p ts front start c pos ∧ Refuses p ts s pos o.stop ∧
    (ts.length < o.stop ↔ Overruns p ts front start)

section
variable {start n : Nat} {c : Captures}

theorem isEmpty_drop_of_lt (hstart : start < ts.length) : (ts.drop start).isEmpty = false := by
  rw [List.drop_eq_getElem_cons hstart, List.isEmpty_cons]

theorem runAt_of_error (hstart : start < ts.length)
    (h : p.matchSteps p.steps (ts.drop start) = .error n) :
    p.runAt ts start = { stop := start + n } := by
  rw [runAt, run, isEmpty_drop_of_lt hstart, if_neg Bool.false_ne_true, h]

theorem runAt_of_ok (hstart : start < ts.length)
    (h : p.matchSteps p.steps (ts.drop start) = .ok (c, n)) :
    p.runAt ts start =
      { matched := true
        captures := c ++ (p.matchTail (ts.drop (start + n))).1
        stop := start + n + (p.matchTail (ts.drop (start + n))).2 } := by
  rw [runAt, run, isEmpty_drop_of_lt hstart, if_neg Bool.false_ne_true, h, Nat.add_assoc,
    ← List.drop_drop]

theorem isGreedy_of_error (hstart : start < ts.length)
    (h : p.matchSteps p.steps (ts.drop start) = .error n) :
    IsGreedy p ts start { stop := start + n } := by
  obtain ⟨front, s, back, c, pos, hsplit, hfront, hrefuses⟩ := refuses_of_matchSteps h
  refine ⟨⟨by simp, ?_⟩, by simp, fun _ => ⟨rfl, front, s, back, c, pos, hsplit, hfront, hrefuses,
    hrefuses.lt_iff.trans (hfront.reach hstart.le).2⟩⟩
  rintro ⟨c, next, htakes⟩
  obtain ⟨m, -, -, hrun⟩ := htakes.execution
  rw [h] at hrun
  cases hrun

theorem isGreedy_of_ok (hstart : start < ts.length)
    (h : p.matchSteps p.steps (ts.drop start) = .ok (c, n)) :
    IsGreedy p ts start
      { matched := true
        captures := c ++ (p.matchTail (ts.drop (start + n))).1
        stop := start + n + (p.matchTail (ts.drop (start + n))).2 } := by
  have hsteps := takesAll_of_matchSteps h
  obtain ⟨r, htail, hmost⟩ := matchTail_derivation p ts (start + n)
  have hall := takesAll_append.mpr ⟨c, start + n, _, hsteps, htail, rfl⟩
  refine ⟨⟨fun _ => ⟨c, start + n, hsteps⟩, fun _ => rfl⟩, fun _ => ⟨r, hall, ?_, ?_⟩, by simp⟩
  · intro hne r' c' next hmore
    exact le_of_takesAll_unrolled hall (hmost hne) hmore
  · exact hall.reach hstart.le

theorem runAt_eq_shift (p : Pattern) (ts : List Token) (pos : Nat) :
    p.runAt ts pos = (p.runAt (ts.drop pos) 0).shift pos := by
  rw [runAt, runAt, List.drop_zero]
  cases p.run (ts.drop pos) with
  | error n => simp [Outcome.shift]
  | ok r => simp [Outcome.shift]

end

/-- A run is greedy, and sees only the tokens from its start on. Its end lies within the list,
except where a column that ends with a `CONSTRAINT` without a name makes it overrun. -/
theorem runAt_greedy (p : Pattern) {ts : List Token} {start : Nat} (hstart : start < ts.length) :
    IsGreedy p ts start (p.runAt ts start) ∧
      ∀ pos, p.runAt ts pos = (p.runAt (ts.drop pos) 0).shift pos := by
  refine ⟨?_, runAt_eq_shift p ts⟩
  cases hsteps : p.matchSteps p.steps (ts.drop start) with
  | error n =>
      rw [runAt_of_error hstart hsteps]
      exact isGreedy_of_error hstart hsteps
  | ok r =>
      rw [runAt_of_ok hstart hsteps]
      exact isGreedy_of_ok hstart hsteps

theorem runAt_greedy_columns :
    let ts := tokenize ("GO ALTER TABLE dbo.t ADD /* one */ a int NOT NULL, " ++
      "b varchar(5) DEFAULT (1) , c int CONSTRAINT k, ;").toList
    let p : Pattern :=
      { steps := [.keyword .ALTER, .keyword .TABLE, .identifier, .keyword .ADD, .column]
        tail := [.kind .comma, .column]
        dialect := .postgres }
    2 < ts.length ∧ (p.runAt ts 2).captures.columns.length = 3 ∧ (p.runAt ts 2).stop = 45 ∧
      IsGreedy p ts 2 (p.runAt ts 2) ∧ p.runAt ts 45 = (p.runAt (ts.drop 45) 0).shift 45 := by
  intro ts p
  have h : 2 < ts.length ∧ (p.runAt ts 2).captures.columns.length = 3 ∧
      (p.runAt ts 2).stop = 45 := by decide +kernel
  obtain ⟨hgreedy, hshift⟩ := runAt_greedy p h.1
  exact ⟨h.1, h.2.1, h.2.2, hgreedy, hshift 45⟩

/-- A match whose last column ends with `CONSTRAINT` stops behind the end of the list. -/
theorem runAt_overruns_list :
    let ts := tokenize "a int CONSTRAINT".toList
    ts.length = 5 ∧
      runAt { steps := [.column], dialect := .postgres } ts 0 =
        { matched := true
          captures := { columns := [⟨"a".toList, { dataType := "integer".toList }⟩] }
          stop := 6 } := by
  decide +kernel

end SqlMigration.Pattern
