import SqlMigration.Statement.Extent
import Mathlib.Data.List.TakeWhile

/-! # Statements end within their list

Every scan for the end of a statement stops at the end of the list at the latest, so that the
bounds of a statement lie within the list.
-/

namespace SqlMigration

/-! ## Trivia -/

theorem triviaLength_add_length_skipTrivia (ts : List Token) :
    triviaLength ts + (skipTrivia ts).length = ts.length := by
  rw [triviaLength, skipTrivia, ← List.length_append, List.takeWhile_append_dropWhile]

theorem triviaLength_lt_of_firstSignificant? {ts : List Token} {p : Token → Bool}
    (h : (firstSignificant? ts).any p) : triviaLength ts < ts.length := by
  have hlen := triviaLength_add_length_skipTrivia ts
  cases hskip : skipTrivia ts with
  | nil => simp [firstSignificant?, hskip] at h
  | cons t rest =>
      rw [hskip, List.length_cons] at hlen
      omega

theorem significantLength_le (ts : List Token) : significantLength ts ≤ ts.length := by
  have hsub : (ts.reverse.dropWhile Token.isTrivia).Sublist ts.reverse := List.dropWhile_sublist _
  have hlen := hsub.length_le
  rwa [List.length_reverse] at hlen

theorem significantLength_pos {t : Token} {ts : List Token} (h : t.isTrivia = false) :
    0 < significantLength (t :: ts) := by
  rw [significantLength, List.length_pos_iff, Ne, List.dropWhile_eq_nil_iff]
  intro hall
  have ht := hall t (by simp)
  simp [h] at ht

theorem isTrivia_of_keyword? {t : Token} {k : Keyword} (h : t.keyword? = some k) :
    t.isTrivia = false := by
  simp only [Token.keyword?] at h
  split at h
  · rename_i hkind
    rw [Token.isTrivia, hkind]
    rfl
  · cases h

theorem is_of_keyword? {t : Token} {k k' : Keyword} (h : t.keyword? = some k) (hne : k ≠ k') :
    t.is k' = false := by
  simp only [Token.keyword?] at h
  split at h
  · rename_i hkind
    cases h
    simp [Token.is, hkind, hne]
  · cases h

/-! ## Nesting -/

theorem topLevelFrom?_lt {p : Token → Bool} {depth k : Nat} {ts : List Token}
    (h : topLevelFrom? p depth ts = some k) : k < ts.length := by
  fun_induction topLevelFrom? p depth ts generalizing k with
  | case1 => cases h
  | case2 depth t ts hkind ih | case3 depth t ts hkind ih =>
      obtain ⟨j, hj, rfl⟩ := Option.map_eq_some_iff.mp h
      exact Nat.succ_lt_succ (ih hj)
  | case4 =>
      cases h
      exact Nat.zero_lt_succ _
  | case5 depth t ts hp hleft hright ih =>
      obtain ⟨j, hj, rfl⟩ := Option.map_eq_some_iff.mp h
      exact Nat.succ_lt_succ (ih hj)

theorem topLevelFrom?_pos {p : Token → Bool} {depth k : Nat} {t : Token} {ts : List Token}
    (hp : p t = false) (h : topLevelFrom? p depth (t :: ts) = some k) : 0 < k := by
  have hmap {o : Option Nat} (ho : o.map (· + 1) = some k) : 0 < k := by
    obtain ⟨j, -, rfl⟩ := Option.map_eq_some_iff.mp ho
    exact Nat.succ_pos j
  simp only [topLevelFrom?, hp, Bool.and_false, Bool.false_eq_true, if_false] at h
  split at h <;> exact hmap h

theorem throughEndFrom?_le {depth n : Nat} {ts : List Token}
    (h : throughEndFrom? depth ts = some n) : n ≤ ts.length := by
  fun_induction throughEndFrom? depth ts generalizing n with
  | case1 => cases h
  | case2 depth t ts hkind ih | case3 depth t ts hkind ih =>
      obtain ⟨j, hj, rfl⟩ := Option.map_eq_some_iff.mp h
      exact Nat.succ_le_succ (ih hj)
  | case4 =>
      cases h
      exact Nat.succ_le_succ (Nat.zero_le _)
  | case5 depth t ts hkind hdepth ih =>
      obtain ⟨j, hj, rfl⟩ := Option.map_eq_some_iff.mp h
      exact Nat.succ_le_succ (ih hj)
  | case6 depth t ts hbegin hcase hend ih =>
      obtain ⟨j, hj, rfl⟩ := Option.map_eq_some_iff.mp h
      exact Nat.succ_le_succ (ih hj)

namespace Statement

/-! ## Extents -/

theorem moduleExtent_le (ts : List Token) : moduleExtent ts ≤ ts.length + 1 := by
  have hsub : (ts.takeWhile fun t => !t.is .GO).Sublist ts := List.takeWhile_sublist _
  have hlen := Nat.le_trans (significantLength_le _) hsub.length_le
  unfold moduleExtent
  omega

theorem withSemicolon_le {ts : List Token} {n : Nat} (h : n ≤ ts.length) :
    withSemicolon ts n ≤ ts.length := by
  simp only [withSemicolon]
  split
  · rename_i hsemicolon
    have hlt := triviaLength_lt_of_firstSignificant? hsemicolon
    rw [List.length_drop] at hlt
    omega
  · exact h

theorem blockExtent_le {ts : List Token} (h : ts ≠ []) : blockExtent ts ≤ ts.length := by
  unfold blockExtent
  split
  · rename_i n hend
    have hn : n ≤ ts.length := throughEndFrom?_le hend
    simp only
    split
    · rename_i hword
      have hlt := triviaLength_lt_of_firstSignificant? hword
      rw [List.length_drop] at hlt
      exact withSemicolon_le (by omega)
    · exact withSemicolon_le hn
  · exact Nat.max_le.mpr ⟨List.length_pos_iff.mpr h, significantLength_le ts⟩

theorem plainFrom_le (first : Option Keyword) (st : Scan) {i stop : Nat} (ts : List Token)
    (h : stop ≤ i) : plainFrom first st i stop ts ≤ i + ts.length := by
  fun_induction plainFrom first st i stop ts with
  | case1 => exact h
  | case2 st i stop t ts htrivia ih =>
      rw [List.length_cons]
      omega
  | case3 => exact Nat.le_trans h (Nat.le_add_right _ _)
  | case4 => exact Nat.add_le_add_left (Nat.succ_le_succ (Nat.zero_le _)) _
  | case5 st i stop t ts htrivia st' hpass ih =>
      rw [List.length_cons]
      omega

theorem plainExtent_le (t : Token) (ts : List Token) : plainExtent t ts ≤ ts.length + 1 := by
  rw [Nat.add_comm]
  simp only [plainExtent]
  split
  · exact Nat.le_add_right _ _
  · exact plainFrom_le _ _ ts (Nat.le_refl 1)
  · exact plainFrom_le _ _ ts (Nat.le_refl 1)

theorem extent_le_length (ts : List Token) : extent ts ≤ ts.length := by
  fun_induction extent ts with
  | case1 => exact Nat.le_refl 0
  | case2 => exact Nat.succ_le_succ (Nat.zero_le _)
  | case3 t ts hopening => exact moduleExtent_le ts
  | case4 t ts hopening => exact blockExtent_le (List.cons_ne_nil t ts)
  | case5 t ts hopening hbody =>
      exact Nat.max_le.mpr ⟨Nat.succ_le_succ (Nat.zero_le _), significantLength_le _⟩
  | case6 t ts hopening k hbody n rest helse m after otherwise hempty ih =>
      have hk := topLevelFrom?_lt hbody
      have hrest := triviaLength_lt_of_firstSignificant? helse
      simp only [List.length_drop, List.length_cons, rest, n, m] at ih hrest ⊢
      omega
  | case7 t ts hopening k hbody n rest helse m after otherwise hne ihbody ihelse =>
      have hrest := triviaLength_add_length_skipTrivia rest
      have hlt := triviaLength_lt_of_firstSignificant? helse
      have hafter : triviaLength after + otherwise.length = after.length :=
        triviaLength_add_length_skipTrivia after
      have hpos : 0 < otherwise.length := List.length_pos_iff.mpr (by simpa using hne)
      simp only [List.length_drop, List.length_tail, List.length_cons, rest, after, m] at *
      omega
  | case8 t ts hopening k hbody n rest helse ih =>
      have hk := topLevelFrom?_lt hbody
      simp only [List.length_drop, List.length_cons, n] at ih ⊢
      omega
  | case9 t ts hopening => exact plainExtent_le t ts

/-! ## Bounds -/

theorem boundsFrom_eq_cons {i : Nat} {ts : List Token} {b : Bounds} {bs : List Bounds}
    (h : boundsFrom i ts = b :: bs) :
    b.start = i + triviaLength ts ∧ b.start < b.stop ∧ b.stop ≤ i + ts.length := by
  fun_induction boundsFrom i ts with
  | case1 => cases h
  | case2 i t ts htrivia ih =>
      obtain ⟨hstart, hlt, hle⟩ := ih h
      have hlen : triviaLength (t :: ts) = triviaLength ts + 1 := by
        simp [triviaLength, htrivia]
      rw [List.length_cons, hlen]
      omega
  | case3 i t ts htrivia n ih =>
      have hlen : triviaLength (t :: ts) = 0 := by
        simp [triviaLength, htrivia]
      have hextent := extent_le_length (t :: ts)
      obtain ⟨rfl, -⟩ := List.cons.inj h
      rw [List.length_cons] at hextent ⊢
      simp only [hlen]
      omega

/-- The first statement starts with the first significant token and ends within the list. -/
theorem bounds_eq_cons {ts : List Token} {b : Bounds} {bs : List Bounds}
    (h : bounds ts = b :: bs) :
    b.start = triviaLength ts ∧ b.start < b.stop ∧ b.stop ≤ ts.length := by
  have hfrom := boundsFrom_eq_cons h
  rwa [Nat.zero_add, Nat.zero_add] at hfrom

end Statement

end SqlMigration
