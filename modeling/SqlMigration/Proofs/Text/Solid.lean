import SqlMigration.Proofs.Text.Ranges

/-! # Solid characters

Blank characters and a semicolon at the end of a statement's text may be taken away; all other
characters stay, and are solid. Letters and numerals of any script are solid, and so is what they
become in lower case.
-/

namespace SqlMigration

namespace Text

/-- Whether a character is neither blank nor a semicolon. -/
def isSolid (c : Char) : Bool := !isBlank c && c ≠ ';'

/-- Whether the last character of a text is neither blank nor a semicolon. -/
def endsSolid (s : Text) : Bool := s.getLast?.any isSolid

theorem endsSolid_append {s : Text} (r : Text) (h : endsSolid s) : endsSolid (r ++ s) := by
  rw [endsSolid] at h ⊢
  cases hlast : s.getLast? with
  | none => simp [hlast] at h
  | some c => simpa [List.getLast?_append, hlast] using h

theorem endsSolid_of_forall {s : Text} (hne : s ≠ []) (h : ∀ c ∈ s, isSolid c) : endsSolid s := by
  rw [endsSolid, List.getLast?_eq_some_getLast hne]
  exact h _ (List.getLast_mem hne)

theorem endsSolid_concat (s : Text) {c : Char} (h : isSolid c) : endsSolid (s ++ [c]) := by
  simpa [endsSolid] using h

theorem last_of_endsSolid {w : Text} (h : endsSolid w) :
    ∃ c, w.getLast? = some c ∧ isBlank c = false ∧ c ≠ ';' := by
  obtain ⟨c, hc, hlast⟩ := (Option.any_eq_true _ _).mp h
  simp only [isSolid, Bool.and_eq_true, Bool.not_eq_true', decide_eq_true_eq] at hlast
  exact ⟨c, hc, hlast⟩

/-- The code points that are not solid, as ranges. -/
def gapRanges : CharRanges := (0x3b, 0x3b) :: blankRanges

theorem isSolid_of_avoids {c : Char} (h : avoids gapRanges c) : isSolid c := by
  have hgap : ∀ gap ∈ gapRanges, ¬(gap.1 ≤ c.toNat ∧ c.toNat ≤ gap.2) := by
    intro gap hmem hc
    have hapart := List.all_eq_true.mp h gap hmem
    simp only [Bool.or_eq_true, decide_eq_true_eq] at hapart
    omega
  rw [isSolid, Bool.and_eq_true_iff]
  constructor
  · rw [Bool.not_eq_true']
    cases hblank : isBlank c with
    | false => rfl
    | true =>
        obtain ⟨gap, hmem, hc⟩ := CharRanges.exists_of_holds hblank
        exact absurd hc (hgap gap (List.mem_cons_of_mem _ hmem))
  · rw [decide_eq_true_eq]
    rintro rfl
    exact hgap _ List.mem_cons_self (by decide)

/-- Whether a range of code points has no blank character and no semicolon in it. -/
def isSolidRange (lo hi : Nat) : Bool := gapRanges.misses lo hi

theorem isSolid_of_isSolidRange {lo hi : Nat} (h : isSolidRange lo hi) {c : Char}
    (hlo : lo ≤ c.toNat) (hhi : c.toNat ≤ hi) : isSolid c :=
  isSolid_of_avoids (avoids_of_misses h hlo hhi)

theorem isSolid_of_isAlphanumeric {c : Char} (h : isAlphanumeric c) : isSolid c := by
  rcases Bool.or_eq_true_iff.mp h with h | h
  · exact isSolid_of_avoids (avoids_of_holds (by decide +kernel) h)
  · exact isSolid_of_avoids (avoids_of_holds (by decide +kernel) h)

theorem isSolid_of_isDigit {c : Char} (h : c.isDigit) : isSolid c :=
  isSolid_of_avoids (avoids_of_isDigit (by decide) h)

theorem isSolid_of_mem_lowerAfter {s before : Text} (hs : ∀ c ∈ s, isSolid c) :
    ∀ d ∈ lowerAfter before s, isSolid d :=
  of_mem_lowerAfter (fun _ => isSolid_of_avoids) (by decide +kernel : missesSmall gapRanges) hs

/-! ## Trimming -/

theorem dropWhile_isBlank {s : Text} (h : ∀ c ∈ s, isSolid c) : s.dropWhile isBlank = s := by
  cases s with
  | nil => rfl
  | cons c s =>
      have hc : isBlank c = false := by
        simpa [isSolid] using (Bool.and_eq_true_iff.mp (h c List.mem_cons_self)).1
      rw [List.dropWhile_cons_of_neg (by simp [hc])]

theorem trim_of_forall_isSolid {s : Text} (h : ∀ c ∈ s, isSolid c) : s.trim = s := by
  have hreverse : ∀ c ∈ s.reverse, isSolid c := fun c hc => h c (List.mem_reverse.mp hc)
  rw [trim, trimWhere, dropWhile_isBlank h, trimEndWhere, dropWhile_isBlank hreverse,
    List.reverse_reverse]

end Text

end SqlMigration
