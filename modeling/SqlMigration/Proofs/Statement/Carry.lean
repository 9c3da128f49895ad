import SqlMigration.Proofs.Statement.Shift
import SqlMigration.Statement.Piece
import Mathlib.Order.Nat

/-! # Bounds carried between two divisions of a text

The byte at which a token starts is the length of the text before it, so it grows from token to
token. A search for a byte among these finds the token that starts there, and bounds carried
between two equal divisions stay as they are.
-/

namespace SqlMigration.Statement

/-! ## Byte offsets -/

theorem getElem?_byteOffsetsFrom (start i : Nat) (ts : List Token) :
    (byteOffsetsFrom start ts)[i]? =
      if i < ts.length then some (start + (joinText (ts.take i)).byteLength) else none := by
  induction ts generalizing start i with
  | nil => rfl
  | cons t ts ih =>
      cases i with
      | zero => simp [byteOffsetsFrom]
      | succ i => simp [byteOffsetsFrom, ih, Nat.add_assoc]

theorem byteAt_eq (ts : List Token) (i : Nat) :
    byteAt ts i = (joinText (ts.take i)).byteLength := by
  rw [byteAt, byteOffsets, getElem?_byteOffsetsFrom]
  split
  · simp
  · rename_i hi
    rw [List.take_of_length_le (Nat.le_of_not_lt hi)]
    rfl

theorem byteAt_mono (ts : List Token) {i j : Nat} (h : i ≤ j) : byteAt ts i ≤ byteAt ts j := by
  have hprefix : ts.take i <+: ts.take j := List.take_prefix_take_left h
  obtain ⟨after, hafter⟩ := hprefix
  rw [byteAt_eq, byteAt_eq, ← hafter, joinText_append, Text.byteLength_append]
  exact Nat.le_add_right _ _

theorem byteAt_lt {ts : List Token} {i j : Nat} (hne : ∀ t ∈ ts, t.text ≠ []) (hi : i < ts.length)
    (h : i < j) : byteAt ts i < byteAt ts j := by
  refine Nat.lt_of_lt_of_le ?_ (byteAt_mono ts h)
  have hpos := Text.byteLength_pos (hne ts[i] (List.getElem_mem hi))
  rw [byteAt_eq, byteAt_eq, List.take_succ_eq_append_getElem hi, joinText_append,
    Text.byteLength_append]
  simpa using hpos

theorem byteAt_lt_iff {ts : List Token} {i j : Nat} (hne : ∀ t ∈ ts, t.text ≠ [])
    (hi : i < ts.length) : byteAt ts i < byteAt ts j ↔ i < j := by
  refine ⟨fun h => ?_, byteAt_lt hne hi⟩
  by_contra hle
  exact Nat.not_lt_of_le (byteAt_mono ts (Nat.le_of_not_lt hle)) h

theorem byteAt_of_map_text_eq {ts us : List Token} (h : us.map Token.text = ts.map Token.text)
    (i : Nat) : byteAt us i = byteAt ts i := by
  rw [byteAt_eq, byteAt_eq, joinText, joinText, List.flatMap_def, List.flatMap_def, List.map_take,
    List.map_take, h]

/-! ## Searches -/

theorem lt_length_takeWhile_byteOffsetsFrom {p : Nat → Bool} (hp : ∀ {m n}, m ≤ n → p n → p m)
    (start i : Nat) (ts : List Token) :
    i < ((byteOffsetsFrom start ts).takeWhile p).length ↔
      i < ts.length ∧ p (start + (joinText (ts.take i)).byteLength) := by
  induction ts generalizing start i with
  | nil => simp [byteOffsetsFrom]
  | cons t ts ih =>
      rw [byteOffsetsFrom, List.takeWhile_cons]
      split
      · rename_i hstart
        cases i with
        | zero => simp [hstart]
        | succ i => simp [ih, Nat.add_assoc]
      · rename_i hstart
        -- What fails at the first offset fails at all later ones.
        have hfail (n : Nat) : ¬ p (start + n) := fun h => hstart (hp (Nat.le_add_right _ _) h)
        simp [hfail]

/-- A search for the offsets below some point passes the tokens that start below it. -/
theorem lt_length_takeWhile_byteOffsets {p : Nat → Bool} (hp : ∀ {m n}, m ≤ n → p n → p m)
    (i : Nat) (ts : List Token) :
    i < ((byteOffsets ts).takeWhile p).length ↔ i < ts.length ∧ p (byteAt ts i) := by
  rw [byteOffsets, lt_length_takeWhile_byteOffsetsFrom hp, byteAt_eq, Nat.zero_add]

variable {ts : List Token} (hne : ∀ t ∈ ts, t.text ≠ [])

include hne

theorem length_takeWhile_lt_byteAt {i : Nat} (hi : i ≤ ts.length) :
    ((byteOffsets ts).takeWhile fun o => decide (o < byteAt ts i)).length = i := by
  refine eq_of_forall_lt_iff fun j => ?_
  rw [lt_length_takeWhile_byteOffsets (by simp; omega), decide_eq_true_iff]
  constructor
  · rintro ⟨hj, hlt⟩
    exact (byteAt_lt_iff hne hj).mp hlt
  · intro hlt
    have hj : j < ts.length := Nat.lt_of_lt_of_le hlt hi
    exact ⟨hj, (byteAt_lt_iff hne hj).mpr hlt⟩

theorem length_takeWhile_le_byteAt {i : Nat} (hi : i < ts.length) :
    ((byteOffsets ts).takeWhile fun o => decide (o ≤ byteAt ts i)).length = i + 1 := by
  refine eq_of_forall_lt_iff fun j => ?_
  rw [lt_length_takeWhile_byteOffsets (by simp; omega), decide_eq_true_iff, Nat.lt_succ_iff,
    ← Nat.not_lt, byteAt_lt_iff hne hi, Nat.not_lt]
  exact ⟨And.right, fun hle => ⟨Nat.lt_of_le_of_lt hle hi, hle⟩⟩

/-- Bounds stay as they are where the two divisions have the same texts. -/
theorem carryBounds_of_map_text_eq {us : List Token} (h : us.map Token.text = ts.map Token.text)
    {b : Bounds} (hstart : b.start < ts.length) (hstop : b.stop ≤ ts.length) :
    carryBounds us ts b = b := by
  have hlen : us.length = ts.length := by simpa using congrArg List.length h
  have hne' : ∀ t ∈ us, t.text ≠ [] := by
    have htexts : ∀ s ∈ us.map Token.text, s ≠ [] := by simpa [h] using hne
    simpa using htexts
  have hstart' := length_takeWhile_le_byteAt hne' (hstart.trans_eq hlen.symm)
  have hstop' := length_takeWhile_lt_byteAt hne' (hstop.trans_eq hlen.symm)
  rw [byteAt_of_map_text_eq h] at hstart' hstop'
  rw [carryBounds, hstart', hstop', Nat.add_sub_cancel]

theorem carryBounds_map_shift (d : Nat) {b : Bounds} (hstart : b.start < ts.length)
    (hstop : b.stop ≤ ts.length) : carryBounds (ts.map (Token.shift d)) ts b = b := by
  refine carryBounds_of_map_text_eq hne ?_ hstart hstop
  rw [List.map_map]
  rfl

end SqlMigration.Statement
