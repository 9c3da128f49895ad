import SqlMigration.Name

/-! # Characters outside given ranges

Letters and numerals of any script stay clear of the few marks that matter to a reader of scripts,
and so does what they become in lower case. Both are checked on ranges of code points.
-/

namespace SqlMigration

theorem CharRanges.exists_of_holds {r : CharRanges} {n : Nat} (h : r.holds n) :
    ∃ range ∈ r, range.1 ≤ n ∧ n ≤ range.2 := by
  induction r with
  | nil => cases h
  | cons range r ih =>
      obtain ⟨hlo, h⟩ := Bool.and_eq_true_iff.mp h
      rcases Bool.or_eq_true_iff.mp h with hhi | hrest
      · exact ⟨range, List.mem_cons_self, of_decide_eq_true hlo, of_decide_eq_true hhi⟩
      · obtain ⟨range', hmem, hbounds⟩ := ih hrest
        exact ⟨range', List.mem_cons_of_mem _ hmem, hbounds⟩

/-- Whether none of the code points from `lo` to `hi` is in the ranges. -/
def CharRanges.misses (r : CharRanges) (lo hi : Nat) : Bool :=
  r.all fun range => hi < range.1 || range.2 < lo

theorem CharRanges.misses_mono {r : CharRanges} {lo hi lo' hi' : Nat} (h : r.misses lo hi)
    (hlo : lo ≤ lo') (hhi : hi' ≤ hi) : r.misses lo' hi' := by
  rw [misses, List.all_eq_true] at h ⊢
  intro range hmem
  have hapart := h range hmem
  simp only [Bool.or_eq_true, decide_eq_true_eq] at hapart ⊢
  omega

namespace Text

/-- Whether a character is in none of the ranges. -/
def avoids (gaps : CharRanges) (c : Char) : Bool := gaps.misses c.toNat c.toNat

variable {gaps : CharRanges}

theorem avoids_of_misses {lo hi : Nat} (h : gaps.misses lo hi) {c : Char} (hlo : lo ≤ c.toNat)
    (hhi : c.toNat ≤ hi) : avoids gaps c :=
  CharRanges.misses_mono h hlo hhi

theorem avoids_of_holds {r : CharRanges} (hr : r.all fun range => gaps.misses range.1 range.2)
    {c : Char} (h : r.holds c.toNat) : avoids gaps c := by
  obtain ⟨range, hmem, hlo, hhi⟩ := CharRanges.exists_of_holds h
  exact avoids_of_misses (List.all_eq_true.mp hr range hmem) hlo hhi

theorem avoids_of_isDigit (h : gaps.misses 48 57) {c : Char} (hc : c.isDigit) :
    avoids gaps c := by
  simp only [Char.isDigit, Bool.and_eq_true, decide_eq_true_eq, ge_iff_le, UInt32.le_iff_toNat_le]
    at hc
  exact avoids_of_misses h hc.1 hc.2

/-! ## Lower case -/

theorem smallCode_cases (runs : List CaseRun) (n : Nat) :
    smallCode runs n = n ∨ ∃ run ∈ runs, run.small ≤ smallCode runs n ∧
      smallCode runs n ≤ run.small + (run.last - run.first) := by
  fun_induction smallCode runs n with
  | case1 => exact .inl rfl
  | case2 => exact .inl rfl
  | case3 run rest n hlt hle hstep =>
      right
      exact ⟨run, List.mem_cons_self, by omega, by omega⟩
  | case4 => exact .inl rfl
  | case5 run rest n hlt hle ih =>
      refine ih.imp id ?_
      rintro ⟨run', hmem, hbounds⟩
      exact ⟨run', List.mem_cons_of_mem _ hmem, hbounds⟩

/-- Whether no small letter is in the ranges, nor the character that stands for an invalid code
point. -/
def missesSmall (gaps : CharRanges) : Bool :=
  (capitalRuns.all fun run => gaps.misses run.small (run.small + (run.last - run.first))) &&
    ['\x00', 'i', '\u0307', '\u03c2', '\u03c3'].all (avoids gaps)

theorem avoids_ofNat (hgaps : missesSmall gaps) {lo hi n : Nat} (h : gaps.misses lo hi)
    (hlo : lo ≤ n) (hhi : n ≤ hi) : avoids gaps (Char.ofNat n) := by
  by_cases hvalid : n.isValidChar
  · have hcode : (Char.ofNat n).toNat = n := by
      rw [Char.ofNat, dif_pos hvalid]
      rfl
    exact avoids_of_misses h (by omega) (by omega)
  · have hzero := List.all_eq_true.mp (Bool.and_eq_true_iff.mp hgaps).2 '\x00' (by simp)
    rw [Char.ofNat, dif_neg hvalid]
    exact hzero

section
variable {p : Char → Prop} (hp : ∀ c, avoids gaps c → p c) (hgaps : missesSmall gaps)
include hp hgaps

theorem of_mem_lowerChar {c d : Char} (hc : p c) (hd : d ∈ lowerChar c) : p d := by
  obtain ⟨hruns, hsmall⟩ := Bool.and_eq_true_iff.mp hgaps
  rw [lowerChar] at hd
  split at hd
  · have hmem : d ∈ ['\x00', 'i', '\u0307', '\u03c2', '\u03c3'] := by
      simp only [List.mem_cons, List.not_mem_nil, or_false] at hd ⊢
      rcases hd with rfl | rfl <;> simp
    exact hp d (List.all_eq_true.mp hsmall d hmem)
  · rw [List.mem_singleton] at hd
    subst hd
    have hcases := smallCode_cases capitalRuns c.toNat
    generalize smallCode capitalRuns c.toNat = n at hcases ⊢
    rcases hcases with rfl | ⟨run, hmem, hlo, hhi⟩
    · rwa [Char.ofNat_toNat]
    · exact hp _ (avoids_ofNat hgaps (List.all_eq_true.mp hruns run hmem) hlo hhi)

/-- What holds of all characters outside the ranges is kept in lower case. -/
theorem of_mem_lowerAfter {s before : Text} (hs : ∀ c ∈ s, p c) :
    ∀ d ∈ lowerAfter before s, p d := by
  have hsmall := List.all_eq_true.mp (Bool.and_eq_true_iff.mp hgaps).2
  induction s generalizing before with
  | nil => simp [lowerAfter]
  | cons c s ih =>
      obtain ⟨hc, hs⟩ := List.forall_mem_cons.mp hs
      intro d hd
      rw [lowerAfter] at hd
      rcases List.mem_append.mp hd with hd | hd
      · split at hd
        · split at hd <;>
            (rw [List.mem_singleton] at hd; subst hd; exact hp _ (hsmall _ (by simp)))
        · exact of_mem_lowerChar hp hgaps hc hd
      · exact ih hs d hd

end

end Text

end SqlMigration
