import SqlMigration.Pattern

/-! # Matches lie within the list

A step takes the tokens it passes over and one more. A pattern that captures nothing matches one
token for each step at least, and no token behind the end of the list.
-/

namespace SqlMigration.Pattern

variable {p : Pattern} {ts : List Token} {c : Captures} {n : Nat}

theorem matchStep_bounds {s : Step} (hs : s.capture = .nothing)
    (h : p.matchStep s ts = .ok (c, n)) : 0 < n ∧ n ≤ ts.length := by
  simp only [matchStep, hs] at h
  split at h
  · cases h
  · rename_i t rest hdrop
    split at h
    · cases h
      have hlen := congrArg List.length hdrop
      rw [List.length_drop, List.length_cons] at hlen
      omega
    · cases h

theorem matchSteps_bounds {steps : List Step} (hs : ∀ s ∈ steps, s.capture = .nothing)
    (h : p.matchSteps steps ts = .ok (c, n)) : steps.length ≤ n ∧ n ≤ ts.length := by
  induction steps generalizing ts c n with
  | nil =>
      cases h
      exact ⟨Nat.le_refl 0, Nat.zero_le _⟩
  | cons s steps ih =>
      obtain ⟨hstep, hsteps⟩ := List.forall_mem_cons.mp hs
      rw [matchSteps] at h
      split at h
      · cases h
      · rename_i c₁ n₁ hfirst
        split at h
        · cases h
        · rename_i c₂ n₂ hrest
          cases h
          have hn₁ := matchStep_bounds hstep hfirst
          have hn₂ := ih hsteps hrest
          rw [List.length_drop] at hn₂
          rw [List.length_cons]
          omega

theorem matchTail_of_tail_eq_nil (h : p.tail = []) (ts : List Token) :
    p.matchTail ts = ({}, 0) := by
  cases ts with
  | nil => rw [matchTail]
  | cons t ts => rw [matchTail, h, matchSteps]

/-- A match without a tail that captures nothing has a token for each step, all in the list. -/
theorem run?_bounds (htail : p.tail = []) (hs : ∀ s ∈ p.steps, s.capture = .nothing)
    (h : p.run? ts = some (c, n)) : p.steps.length ≤ n ∧ n ≤ ts.length := by
  simp only [run?, run, matchTail_of_tail_eq_nil htail] at h
  split at h
  · cases h
  · split at h
    · cases h
    · rename_i hsteps
      cases h
      exact matchSteps_bounds hs hsteps

/-! ## One step -/

/-- What the step captures at `t`, and how many of the tokens after `t` belong to it. -/
def taken (p : Pattern) (s : Step) (t : Token) (rest : List Token) : Captures × Nat :=
  match s.capture with
  | .nothing => ({}, 0)
  | .raw => ({ values := [t.text] }, 0)
  | .identifier => ({ values := [(nameAt t rest).1] }, (nameAt t rest).2)
  | .column =>
      ({ columns := [(Column.define p.dialect t rest).1] }, (Column.define p.dialect t rest).2)

theorem matchStep_gap_append {gap : List Token} {t : Token} (hgap : ∀ u ∈ gap, p.skips u)
    (ht : p.skips t = false) (s : Step) (rest : List Token) :
    p.matchStep s (gap ++ t :: rest) =
      if t.kind ∈ s.kinds then .ok ((p.taken s t rest).1, gap.length + 1 + (p.taken s t rest).2)
      else .error gap.length := by
  have hrun : (gap ++ t :: rest).takeWhile p.skips = gap := by
    rw [List.takeWhile_append_of_pos hgap, List.takeWhile_cons_of_neg (by simp [ht]),
      List.append_nil]
  simp only [matchStep, hrun, List.drop_left, List.contains_iff_mem]
  split
  · unfold taken
    cases s.capture <;> rfl
  · rfl

theorem matchStep_of_skips (hts : ∀ u ∈ ts, p.skips u) (s : Step) :
    p.matchStep s ts = .error ts.length := by
  have hrun : (ts ++ []).takeWhile p.skips = ts ++ [].takeWhile p.skips :=
    List.takeWhile_append_of_pos hts
  rw [List.append_nil, List.takeWhile_nil, List.append_nil] at hrun
  simp only [matchStep, hrun, List.drop_length]

/-! ## Steps that capture nothing -/

/-- A step for one kind looks at the first token that is not white space. -/
theorem matchStep_kind {p : Pattern} (hp : p.keepComments) (k : Kind) {gap : List Token}
    (hgap : ∀ t ∈ gap, t.kind = .blank) {t : Token} (ht : t.kind ≠ .blank) (rest : List Token) :
    p.matchStep (.kind k) (gap ++ t :: rest) =
      if t.kind = k then .ok ({}, gap.length + 1) else .error gap.length := by
  have hskip : ∀ t ∈ gap, p.skips t := by
    intro t ht
    simp [skips, hgap t ht]
  have hstop : p.skips t = false := by simp [skips, ht, hp]
  simp only [matchStep_gap_append hskip hstop, Step.kind, taken, List.mem_singleton, Nat.add_zero]

theorem matchSteps_kind {p : Pattern} (hp : p.keepComments) (k : Kind) (steps : List Step)
    {gap : List Token} (hgap : ∀ t ∈ gap, t.kind = .blank) {t : Token} (ht : t.kind ≠ .blank)
    (rest : List Token) :
    ((p.matchSteps (.kind k :: steps) (gap ++ t :: rest)).toOption.map Prod.snd) =
      if t.kind = k then
        ((p.matchSteps steps rest).toOption.map Prod.snd).map (gap.length + 1 + ·)
      else none := by
  have hdrop : (gap ++ t :: rest).drop (gap.length + 1) = rest := by
    rw [List.drop_length_add_append, List.drop_one, List.tail_cons]
  rw [matchSteps, matchStep_kind hp k hgap ht]
  by_cases hkind : t.kind = k
  · simp only [hkind, if_true, hdrop]
    cases p.matchSteps steps rest with
    | error n => rfl
    | ok r => rfl
  · simp only [hkind, if_false]
    rfl

theorem matchSteps_blank {p : Pattern} {gap : List Token} (hgap : ∀ t ∈ gap, t.kind = .blank)
    (s : Step) (steps : List Step) :
    (p.matchSteps (s :: steps) gap).toOption.map Prod.snd = none := by
  have hskip : ∀ t ∈ gap, p.skips t := by
    intro t ht
    simp [skips, hgap t ht]
  rw [matchSteps, matchStep_of_skips hskip]
  rfl

/-- How far a pattern without a tail reaches. -/
theorem map_snd_run? {p : Pattern} (htail : p.tail = []) {ts : List Token} (hts : ts ≠ []) :
    (p.run? ts).map Prod.snd = (p.matchSteps p.steps ts).toOption.map Prod.snd := by
  have hempty : ts.isEmpty = false := by simpa using hts
  simp only [run?, run, hempty, matchTail_of_tail_eq_nil htail]
  cases p.matchSteps p.steps ts <;> rfl

end SqlMigration.Pattern
