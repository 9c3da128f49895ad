import Mathlib.Data.List.TakeWhile
import SqlMigration.Proofs.Token.Joining

/-! # Trimmed texts -/

namespace SqlMigration.Text

variable {p : Char → Bool} {s a b : Text}

theorem isPrefix_trimEndWhere (p : Char → Bool) (s : Text) : trimEndWhere p s <+: s := by
  obtain ⟨b, hs, -⟩ := exists_append_trimEndWhere p s
  exact ⟨b, hs.symm⟩

theorem head_trimWhere {c : Char} (h : c ∈ (trimWhere p s).head?) : p c = false := by
  obtain ⟨b, hb⟩ := isPrefix_trimEndWhere p (s.dropWhile p)
  have hhead : c ∈ (s.dropWhile p).head? := by
    rw [← hb, List.head?_append]
    exact Option.or_eq_some_iff.mpr (.inl h)
  have hnot := List.head?_dropWhile_not p s
  rw [Option.mem_def.mp hhead] at hnot
  simpa using hnot

theorem trimEndWhere_append (hb : ∀ c ∈ b, p c) : trimEndWhere p (s ++ b) = trimEndWhere p s := by
  have hreverse : ∀ c ∈ b.reverse, p c := fun c hc => hb c (List.mem_reverse.mp hc)
  rw [trimEndWhere, List.reverse_append, List.dropWhile_append_of_pos hreverse, trimEndWhere]

/-- What is taken off at the ends may stand there or not. -/
theorem trimWhere_append (ha : ∀ c ∈ a, p c) (hb : ∀ c ∈ b, p c) :
    trimWhere p (a ++ s ++ b) = trimWhere p s := by
  rw [trimWhere, List.append_assoc, List.dropWhile_append_of_pos ha, List.dropWhile_append]
  split
  · rename_i hempty
    have hall : b.dropWhile p = [] := List.dropWhile_eq_nil_iff.mpr hb
    rw [hall, trimWhere, List.isEmpty_iff.mp hempty]
  · exact trimEndWhere_append hb

theorem trimWhere_of_ends (hhead : ∀ c ∈ s.head?, p c = false)
    (hlast : ∀ c ∈ s.getLast?, p c = false) : trimWhere p s = s := by
  have hstays : ∀ r : Text, (∀ c ∈ r.head?, p c = false) → r.dropWhile p = r := by
    intro r hr
    cases r with
    | nil => rfl
    | cons c r => exact List.dropWhile_cons_of_neg (by simp [hr c rfl])
  rw [trimWhere, hstays s hhead, trimEndWhere, hstays s.reverse (by rwa [List.head?_reverse]),
    List.reverse_reverse]

/-- A text between two characters that stay is not trimmed. -/
theorem trimWhere_between {c d : Char} (hc : p c = false) (hd : p d = false) (s : Text) :
    trimWhere p (c :: s ++ [d]) = c :: s ++ [d] :=
  trimWhere_of_ends (by simpa using hc) (by rw [List.getLast?_concat]; simpa using hd)

/-! ## The end of a text -/

theorem trimEnd_append_of_ne {r s : Text} (h : trimEnd s ≠ []) :
    trimEnd (r ++ s) = r ++ trimEnd s := by
  have hdrop : s.reverse.dropWhile isBlank ≠ [] := by
    intro hnil
    rw [trimEnd, trimEndWhere, hnil] at h
    exact h rfl
  rw [trimEnd, trimEndWhere, List.reverse_append, List.dropWhile_append,
    if_neg (by simpa using hdrop), List.reverse_append, List.reverse_reverse]
  rfl

theorem isBlank_of_trimEnd_eq_nil {s : Text} (h : trimEnd s = []) : ∀ c ∈ s, isBlank c := by
  obtain ⟨b, hs, hb⟩ := exists_append_trimEndWhere isBlank s
  rw [show trimEndWhere isBlank s = [] from h, List.nil_append] at hs
  rwa [hs]

theorem trimEnd_eq_nil {s : Text} (h : ∀ c ∈ s, isBlank c) : trimEnd s = [] :=
  trimEndWhere_append (s := []) h

theorem trimEnd_append_of_eq_nil (r : Text) {s : Text} (h : trimEnd s = []) :
    trimEnd (r ++ s) = trimEnd r := trimEndWhere_append (isBlank_of_trimEnd_eq_nil h)

theorem trimEnd_trimEnd (s : Text) : trimEnd (trimEnd s) = trimEnd s := by
  obtain ⟨b, hs, hb⟩ := exists_append_trimEndWhere isBlank s
  have h := trimEndWhere_append (s := trimEnd s) hb
  rw [show trimEnd s ++ b = s from hs.symm] at h
  exact h.symm

theorem trimEnd_of_last {s : Text} (h : ∀ c ∈ s.getLast?, isBlank c = false) : trimEnd s = s := by
  rcases List.eq_nil_or_concat s with rfl | ⟨r, c, rfl⟩
  · rfl
  · rw [List.concat_eq_append] at h ⊢
    have hc := h c (by simp)
    simp [trimEnd, trimEndWhere, hc]

end SqlMigration.Text
