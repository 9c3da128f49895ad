import SqlMigration.Proofs.Statement.Carry
import SqlMigration.Proofs.Statement.Isolation
import Mathlib.Order.Bounds.Basic
import Mathlib.Order.Interval.Finset.Nat

/-! # Carried bounds are rounded outward

Two divisions of one text need not agree on where a token starts. Bounds that are carried from one
to the other take in every byte that they took in before, and as few tokens as that allows.
-/

namespace SqlMigration

/-- Of two beginnings of a text, the one with fewer bytes begins the other. -/
theorem Text.isPrefix_of_byteLength_le {s₁ s₂ s : Text} (h₁ : s₁ <+: s) (h₂ : s₂ <+: s)
    (hle : s₁.byteLength ≤ s₂.byteLength) : s₁ <+: s₂ := by
  rcases List.prefix_or_prefix_of_prefix h₁ h₂ with h | ⟨r, rfl⟩
  · exact h
  · have hr : r = [] := by
      by_contra hne
      have hpos := byteLength_pos hne
      rw [byteLength_append] at hle
      omega
    simp [hr]

namespace Statement

theorem joinText_take_isPrefix (ts : List Token) (i : Nat) :
    joinText (ts.take i) <+: joinText ts := by
  refine ⟨joinText (ts.drop i), ?_⟩
  rw [← joinText_append, List.take_append_drop]

theorem joinText_take_append_slice (ts : List Token) {b : Bounds} (h : b.start ≤ b.stop) :
    joinText (ts.take b.start) ++ joinText (slice ts b) = joinText (ts.take b.stop) := by
  have htake : ts.take b.start = (ts.take b.stop).take b.start := by
    rw [List.take_take, Nat.min_eq_left h]
  rw [← joinText_append, slice, htake, List.take_append_drop]

theorem byteAt_zero (ts : List Token) : byteAt ts 0 = 0 := by
  rw [byteAt_eq, List.take_zero, joinText_nil, Text.byteLength_nil]

theorem byteAt_length (ts : List Token) : byteAt ts ts.length = (joinText ts).byteLength := by
  rw [byteAt_eq, List.take_length]

theorem byteAt_le (ts : List Token) (i : Nat) : byteAt ts i ≤ (joinText ts).byteLength := by
  obtain ⟨rest, hrest⟩ := joinText_take_isPrefix ts i
  rw [byteAt_eq, ← hrest, Text.byteLength_append]
  exact Nat.le_add_right _ _

/-- The bytes of the text that the tokens within bounds stand for. -/
def byteRange (ts : List Token) (b : Bounds) : Finset Nat :=
  Finset.Ico (byteAt ts b.start) (byteAt ts b.stop)

/-! ## The two ends -/

section

variable {ours : List Token} (theirs : List Token) (b : Bounds)

theorem le_carryBounds_start_iff (hne : ours ≠ []) (i : Nat) :
    i ≤ (carryBounds ours theirs b).start ↔
      i < ours.length ∧ byteAt ours i ≤ byteAt theirs b.start := by
  have hsearch (j : Nat) := lt_length_takeWhile_byteOffsets
    (p := fun o => decide (o ≤ byteAt theirs b.start)) (by simp; omega) j ours
  simp only [decide_eq_true_eq] at hsearch
  -- The first token starts at byte 0, so the search passes one token at least.
  have hpos := (hsearch 0).mpr ⟨List.length_pos_iff.mpr hne, by rw [byteAt_zero]; omega⟩
  rw [← hsearch]
  exact Nat.le_sub_one_iff_lt hpos

variable (ours) in
theorem lt_carryBounds_stop_iff (i : Nat) :
    i < (carryBounds ours theirs b).stop ↔
      i < ours.length ∧ byteAt ours i < byteAt theirs b.stop := by
  have hsearch := lt_length_takeWhile_byteOffsets
    (p := fun o => decide (o < byteAt theirs b.stop)) (by simp; omega) i ours
  rwa [decide_eq_true_iff] at hsearch

/-- The start is moved to the last token that does not start behind it. -/
theorem isGreatest_carryBounds_start (hne : ours ≠ []) :
    IsGreatest {i | i < ours.length ∧ byteAt ours i ≤ byteAt theirs b.start}
      (carryBounds ours theirs b).start :=
  ⟨(le_carryBounds_start_iff theirs b hne _).mp (Nat.le_refl _),
    fun i hi => (le_carryBounds_start_iff theirs b hne i).mpr hi⟩

/-- The end is moved to the first border of tokens that does not lie before it. -/
theorem isLeast_carryBounds_stop (htext : joinText ours = joinText theirs) :
    IsLeast {i | i ≤ ours.length ∧ byteAt theirs b.stop ≤ byteAt ours i}
      (carryBounds ours theirs b).stop := by
  have hsearch := lt_carryBounds_stop_iff ours theirs b
  have hle : (carryBounds ours theirs b).stop ≤ ours.length := by
    by_contra hlt
    exact Nat.lt_irrefl _ ((hsearch _).mp (Nat.lt_of_not_le hlt)).1
  refine ⟨⟨hle, ?_⟩, ?_⟩
  · rcases Nat.lt_or_eq_of_le hle with hlt | heq
    · by_contra hbyte
      exact Nat.lt_irrefl _ ((hsearch _).mpr ⟨hlt, Nat.lt_of_not_le hbyte⟩)
    · rw [heq, byteAt_length, htext]
      exact byteAt_le theirs _
  · rintro i ⟨-, hi⟩
    by_contra hlt
    exact Nat.not_lt_of_le hi ((hsearch i).mp (Nat.lt_of_not_le hlt)).2

end

/-! ## What lies between them -/

/-- Bounds that start no later and stop no earlier hold the text that the others hold, at its
place. -/
theorem exists_surroundings {ours theirs : List Token} {b c : Bounds}
    (htext : joinText ours = joinText theirs) (hb : b.start ≤ b.stop) (hc : c.start ≤ c.stop)
    (hstart : byteAt ours c.start ≤ byteAt theirs b.start)
    (hstop : byteAt theirs b.stop ≤ byteAt ours c.stop) :
    ∃ before after, joinText (ours.take c.start) ++ before = joinText (theirs.take b.start) ∧
      joinText (slice ours c) = before ++ joinText (slice theirs b) ++ after := by
  have hours (i : Nat) := joinText_take_isPrefix ours i
  have htheirs (i : Nat) := joinText_take_isPrefix theirs i
  rw [htext] at hours
  rw [byteAt_eq, byteAt_eq] at hstart hstop
  obtain ⟨before, hbefore⟩ := Text.isPrefix_of_byteLength_le (hours _) (htheirs _) hstart
  obtain ⟨after, hafter⟩ := Text.isPrefix_of_byteLength_le (htheirs _) (hours _) hstop
  refine ⟨before, after, hbefore, ?_⟩
  rw [← joinText_take_append_slice ours hc, ← joinText_take_append_slice theirs hb,
    ← hbefore] at hafter
  simpa using hafter.symm

variable {ours theirs : List Token} {b : Bounds}

theorem carryBounds_start_le_stop (hours : ∀ t ∈ ours, t.text ≠ []) (hne : ours ≠ [])
    (htext : joinText ours = joinText theirs) (hle : b.start ≤ b.stop) :
    (carryBounds ours theirs b).start ≤ (carryBounds ours theirs b).stop := by
  obtain ⟨hlt, hstart⟩ := (isGreatest_carryBounds_start theirs b hne).1
  obtain ⟨-, hstop⟩ := (isLeast_carryBounds_stop theirs b htext).1
  by_contra hgt
  have hbyte := byteAt_lt hours ((Nat.lt_of_not_le hgt).trans hlt) (Nat.lt_of_not_le hgt)
  have hmono := byteAt_mono theirs hle
  omega

theorem lt_byteAt_carryBounds_start_add_one (hne : ours ≠ [])
    (htext : joinText ours = joinText theirs)
    (hbyte : byteAt theirs b.start < byteAt theirs b.stop) :
    byteAt theirs b.start < byteAt ours ((carryBounds ours theirs b).start + 1) := by
  have hgreatest := isGreatest_carryBounds_start theirs b hne
  rcases Nat.lt_or_eq_of_le (Nat.add_one_le_of_lt hgreatest.1.1) with hlt | heq
  · by_contra hle
    exact Nat.not_add_one_le_self _ (hgreatest.2 ⟨hlt, Nat.le_of_not_lt hle⟩)
  · -- The start is in the last token, and all of the text stands before its end.
    rw [heq, byteAt_length, htext]
    exact hbyte.trans_le (byteAt_le theirs b.stop)

theorem byteAt_carryBounds_stop_sub_one_lt (htext : joinText ours = joinText theirs)
    (hbyte : byteAt theirs b.start < byteAt theirs b.stop) :
    byteAt ours ((carryBounds ours theirs b).stop - 1) < byteAt theirs b.stop := by
  by_contra hle
  have hleast := isLeast_carryBounds_stop theirs b htext
  have hpred := hleast.2 ⟨(Nat.sub_le _ _).trans hleast.1.1, Nat.le_of_not_lt hle⟩
  have hzero : (carryBounds ours theirs b).stop - 1 = 0 := by omega
  rw [hzero, byteAt_zero] at hle
  omega

/-- Bounds are carried to the last token that does not start behind them and to the first border
that does not lie before their end. So they take in all bytes that they took in before, no token at
either end of them can be spared, and between equal divisions they stay as they are. -/
theorem carryBounds_rounds_outward (hours : ∀ t ∈ ours, t.text ≠ [])
    (htheirs : ∀ t ∈ theirs, t.text ≠ []) (htext : joinText ours = joinText theirs)
    (hle : b.start ≤ b.stop) (hstop : b.stop ≤ theirs.length) (hstart : b.start < theirs.length) :
    let c := carryBounds ours theirs b
    IsGreatest {i | i < ours.length ∧ byteAt ours i ≤ byteAt theirs b.start} c.start ∧
    IsLeast {i | i ≤ ours.length ∧ byteAt theirs b.stop ≤ byteAt ours i} c.stop ∧
    c.start ≤ c.stop ∧ byteRange theirs b ⊆ byteRange ours c ∧
    (∃ before after, joinText (ours.take c.start) ++ before = joinText (theirs.take b.start) ∧
      joinText (slice ours c) = before ++ joinText (slice theirs b) ++ after) ∧
    (b.start < b.stop → c.start < c.stop ∧
      ¬ byteRange theirs b ⊆ byteRange ours { c with start := c.start + 1 } ∧
      ¬ byteRange theirs b ⊆ byteRange ours { c with stop := c.stop - 1 }) ∧
    (ours.map Token.text = theirs.map Token.text → c = b) := by
  intro c
  have hne : ours ≠ [] := by
    rintro rfl
    have hpos := byteAt_lt htheirs hstart hstart
    have htotal := byteAt_le theirs theirs.length
    rw [← htext] at htotal
    exact Nat.not_lt_zero _ (hpos.trans_le htotal)
  have hgreatest := isGreatest_carryBounds_start theirs b hne
  have hleast := isLeast_carryBounds_stop theirs b htext
  have hordered : c.start ≤ c.stop := carryBounds_start_le_stop hours hne htext hle
  refine ⟨hgreatest, hleast, hordered, Finset.Ico_subset_Ico hgreatest.1.2 hleast.1.2,
    exists_surroundings htext hle hordered hgreatest.1.2 hleast.1.2, fun hlt => ?_,
    fun h => carryBounds_of_map_text_eq htheirs h hstart hstop⟩
  have hbyte : byteAt theirs b.start < byteAt theirs b.stop := byteAt_lt htheirs hstart hlt
  refine ⟨?_, ?_, ?_⟩
  · rw [← byteAt_lt_iff hours hgreatest.1.1]
    exact hgreatest.1.2.trans_lt (hbyte.trans_le hleast.1.2)
  · rw [byteRange, byteRange, Finset.Ico_subset_Ico_iff hbyte]
    exact fun h => Nat.not_lt_of_le h.1 (lt_byteAt_carryBounds_start_add_one hne htext hbyte)
  · rw [byteRange, byteRange, Finset.Ico_subset_Ico_iff hbyte]
    exact fun h => Nat.not_lt_of_le h.2 (byteAt_carryBounds_stop_sub_one_lt htext hbyte)

theorem carryBounds_rounds_outward_blank_split :
    let ours := tokenize "né  1;".toList
    let theirs : List Token := [⟨.identifier, "né ".toList, ⟨0, 4⟩⟩,
      ⟨.identifier, " 1".toList, ⟨4, 6⟩⟩, ⟨.semicolon, ";".toList, ⟨6, 7⟩⟩]
    carryBounds ours theirs ⟨1, 2⟩ = ⟨1, 3⟩ ∧
      IsGreatest {i | i < ours.length ∧ byteAt ours i ≤ byteAt theirs 1} 1 ∧
      IsLeast {i | i ≤ ours.length ∧ byteAt theirs 2 ≤ byteAt ours i} 3 ∧
      byteRange theirs ⟨1, 2⟩ ⊆ byteRange ours ⟨1, 3⟩ ∧
      ¬ byteRange theirs ⟨1, 2⟩ ⊆ byteRange ours ⟨2, 3⟩ ∧
      ¬ byteRange theirs ⟨1, 2⟩ ⊆ byteRange ours ⟨1, 2⟩ := by
  intro ours theirs
  have hfacts : (∀ t ∈ ours, t.text ≠ []) ∧ (∀ t ∈ theirs, t.text ≠ []) ∧
      joinText ours = joinText theirs ∧ theirs.length = 3 ∧
      carryBounds ours theirs ⟨1, 2⟩ = ⟨1, 3⟩ := by
    decide +kernel
  clear_value ours theirs
  obtain ⟨hours, htheirs, htext, hlen, hcarry⟩ := hfacts
  have hround := carryBounds_rounds_outward (b := ⟨1, 2⟩) hours htheirs htext (by decide)
    (by rw [hlen]; decide) (by rw [hlen]; decide)
  rw [hcarry] at hround
  obtain ⟨hgreatest, hleast, -, hcover, -, hleft, -⟩ := hround
  exact ⟨hcarry, hgreatest, hleast, hcover, (hleft (by decide)).2⟩

end Statement

end SqlMigration
