import SqlMigration.Text.Lowercase

/-! # Lower case is final

A text in lower case is its own lower-case form: none of the letters that lower-casing gives is a
capital, and none depends on its neighbours. That is checked on the table of capitals.
-/

namespace SqlMigration.Text

/-- Whether a character is its own lower-case form, whatever stands next to it. -/
def isSmall (c : Char) : Bool := c ≠ 'Σ' && lowerChar c = [c]

theorem lowerAfter_of_isSmall {s : Text} (before : Text) (h : ∀ c ∈ s, isSmall c) :
    lowerAfter before s = s := by
  induction s generalizing before with
  | nil => rfl
  | cons c s ih =>
      obtain ⟨hc, hs⟩ := List.forall_mem_cons.mp h
      obtain ⟨hsigma, hlower⟩ := Bool.and_eq_true_iff.mp hc
      rw [lowerAfter, if_neg (of_decide_eq_true hsigma), of_decide_eq_true hlower, ih _ hs]
      rfl

/-- Either a code point stays, or it is one of a run of capitals. -/
theorem smallCode_eq (runs : List CaseRun) (n : Nat) :
    smallCode runs n = n ∨ ∃ run ∈ runs, ∃ k ≤ run.last - run.first, k % run.step = 0 ∧
      smallCode runs n = run.small + k := by
  fun_induction smallCode runs n with
  | case1 | case2 | case4 => exact .inl rfl
  | case3 run rest n hlt hle hstep =>
      exact .inr ⟨run, List.mem_cons_self, n - run.first, by omega, hstep, rfl⟩
  | case5 run rest n hlt hle ih =>
      refine ih.imp id ?_
      rintro ⟨run', hmem, hrun⟩
      exact ⟨run', List.mem_cons_of_mem _ hmem, hrun⟩

/-- Whether no small letter of one run is a capital of the other: their ranges are apart, or every
second code point is meant in both and these alternate. -/
def CaseRun.misses (run other : CaseRun) : Bool :=
  Nat.blt (run.small + (run.last - run.first)) other.first || Nat.blt other.last run.small ||
    ((Nat.beq run.step 2 || Nat.beq run.first run.last) && Nat.beq other.step 2 &&
      Nat.beq ((run.small + other.first) % 2) 1)

/-- Whether the small letters of a run are apart from the capital that has two small letters. -/
def CaseRun.isSingle (run : CaseRun) : Bool :=
  Nat.blt (run.small + (run.last - run.first)) 0x130 || Nat.blt 0x130 run.small

theorem all_misses : capitalRuns.all fun run => run.isSingle && capitalRuns.all run.misses := by
  decide +kernel

theorem CaseRun.not_capital {run other : CaseRun} (h : run.misses other) {k : Nat}
    (hk : k ≤ run.last - run.first) (hstep : k % run.step = 0) :
    ¬ (other.first ≤ run.small + k ∧ run.small + k ≤ other.last ∧
      (run.small + k - other.first) % other.step = 0) := by
  simp only [misses, Bool.or_eq_true, Bool.and_eq_true, Nat.blt_eq, Nat.beq_eq] at h
  rintro ⟨hfirst, hlast, hother⟩
  rcases h with (h | h) | ⟨⟨hself, htwo⟩, hodd⟩
  · omega
  · omega
  · have heven : k % 2 = 0 := by
      rcases hself with hself | hself
      · rwa [hself] at hstep
      · omega
    rw [htwo] at hother
    omega

theorem smallCode_of_not_capital {runs : List CaseRun} {n : Nat}
    (h : ∀ run ∈ runs, ¬ (run.first ≤ n ∧ n ≤ run.last ∧ (n - run.first) % run.step = 0)) :
    smallCode runs n = n := by
  fun_induction smallCode runs n with
  | case1 | case2 | case4 => rfl
  | case3 run rest n hlt hle hstep =>
      exact absurd ⟨Nat.le_of_not_lt hlt, hle, hstep⟩ (h run List.mem_cons_self)
  | case5 run rest n hlt hle ih => exact ih fun run' hmem => h run' (List.mem_cons_of_mem _ hmem)

theorem isSmall_of_smallCode {c : Char} (hsigma : c ≠ 'Σ') (hdotted : c ≠ '\u0130')
    (h : smallCode capitalRuns c.toNat = c.toNat) : isSmall c := by
  rw [isSmall, lowerChar, if_neg hdotted, h, Char.ofNat_toNat]
  simpa using hsigma

/-- The small letters of the table are their own lower-case forms. -/
theorem isSmall_ofNat {run : CaseRun} (hrun : run ∈ capitalRuns) {k : Nat}
    (hk : k ≤ run.last - run.first) (hstep : k % run.step = 0) :
    isSmall (Char.ofNat (run.small + k)) := by
  obtain ⟨hsingle, hmisses⟩ := Bool.and_eq_true_iff.mp (List.all_eq_true.mp all_misses run hrun)
  have hcapital : ∀ other ∈ capitalRuns, _ := fun other hmem =>
    CaseRun.not_capital (List.all_eq_true.mp hmisses other hmem) hk hstep
  have hstays := smallCode_of_not_capital hcapital
  by_cases hvalid : (run.small + k).isValidChar
  · have hcode : (Char.ofNat (run.small + k)).toNat = run.small + k := by
      rw [Char.ofNat, dif_pos hvalid]
      rfl
    refine isSmall_of_smallCode ?_ ?_ ?_
    · intro hsigma
      have hnat : run.small + k = 0x3a3 := hcode.symm.trans (congrArg Char.toNat hsigma)
      rw [hnat] at hstays
      exact absurd hstays (by decide +kernel)
    · intro hdotted
      have hnat : run.small + k = 0x130 := hcode.symm.trans (congrArg Char.toNat hdotted)
      simp only [CaseRun.isSingle, Bool.or_eq_true, Nat.blt_eq] at hsingle
      omega
    · rwa [hcode]
  · rw [Char.ofNat, dif_neg hvalid]
    decide +kernel

theorem isSmall_of_mem_lowerChar {c d : Char} (hsigma : c ≠ 'Σ') (h : d ∈ lowerChar c) :
    isSmall d := by
  rw [lowerChar] at h
  split at h
  · have hboth : ['i', '\u0307'].all isSmall := by decide +kernel
    exact List.all_eq_true.mp hboth d h
  · rename_i hdotted
    rw [List.mem_singleton] at h
    subst h
    rcases smallCode_eq capitalRuns c.toNat with hstays | ⟨run, hrun, k, hk, hstep, hcode⟩
    · rw [hstays, Char.ofNat_toNat]
      exact isSmall_of_smallCode hsigma hdotted hstays
    · rw [hcode]
      exact isSmall_ofNat hrun hk hstep

theorem isSmall_of_mem_lowerAfter {s before : Text} : ∀ d ∈ lowerAfter before s, isSmall d := by
  induction s generalizing before with
  | nil => simp [lowerAfter]
  | cons c s ih =>
      intro d hd
      rw [lowerAfter] at hd
      rcases List.mem_append.mp hd with hd | hd
      · split at hd
        · have hsigmas : ['\u03c2', '\u03c3'].all isSmall := by decide +kernel
          refine List.all_eq_true.mp hsigmas d ?_
          split at hd <;> simp_all
        · rename_i hsigma
          exact isSmall_of_mem_lowerChar hsigma hd
      · exact ih d hd

theorem isSmall_of_mem_lower {s : Text} : ∀ d ∈ lower s, isSmall d := isSmall_of_mem_lowerAfter

theorem lower_of_isSmall {s : Text} (h : ∀ c ∈ s, isSmall c) : lower s = s :=
  lowerAfter_of_isSmall [] h

end SqlMigration.Text
