import SqlMigration.Statement.Piece
import Mathlib.Data.List.TakeWhile

/-! # Pieces partition a script

A statement lexer is not trusted. It may fail, cut the text into other tokens, and report any
bounds whatever: a piece still starts at the cursor, holds a token at least and ends within the
list. Cutting piece after piece gives the whole list back.
-/

namespace SqlMigration.Statement

/-! ## Leading comments -/

theorem take_triviaLength (ts : List Token) :
    ts.take (triviaLength ts) = ts.takeWhile Token.isTrivia :=
  (List.prefix_iff_eq_take.mp (List.takeWhile_prefix _)).symm

theorem leadingComments?_eq_some {ts : List Token} {n : Nat} (h : leadingComments? ts = some n) :
    0 < n ∧ n ≤ triviaLength ts := by
  let comments := (ts.takeWhile Token.isTrivia).reverse.dropWhile fun t => !t.kind.isComment
  have hle : comments.length ≤ triviaLength ts := by
    have hsub : comments.Sublist (ts.takeWhile Token.isTrivia).reverse :=
      List.dropWhile_sublist _
    have hlen := hsub.length_le
    rwa [List.length_reverse] at hlen
  simp only [leadingComments?] at h
  split at h
  · cases h
  · rename_i hne
    cases h
    exact ⟨Nat.pos_of_ne_zero hne, hle⟩

theorem leadingComments?_eq_none {ts : List Token} (h : leadingComments? ts = none) :
    ∀ t ∈ ts.takeWhile Token.isTrivia, t.kind.isComment = false := by
  intro t ht
  simp only [leadingComments?] at h
  split at h
  · rename_i hzero
    have hall := List.dropWhile_eq_nil_iff.mp (List.eq_nil_of_length_eq_zero hzero)
    simpa using hall t (List.mem_reverse.mpr ht)
  · cases h

/-- No comment stands before the first significant token, if there is such a token. -/
def Uncommented (ts : List Token) : Prop :=
  (∀ t ∈ ts, t.isTrivia) ∨ ∀ t ∈ ts.takeWhile Token.isTrivia, t.kind.isComment = false

/-! ## One piece -/

variable (lexer : StatementLexer)

theorem pieceLength_pos {ts : List Token} (h : ts ≠ []) : 0 < pieceLength lexer ts := by
  have hlen := List.length_pos_iff.mpr h
  unfold pieceLength
  omega

theorem pieceLength_le (ts : List Token) : pieceLength lexer ts ≤ ts.length :=
  Nat.min_le_right _ _

theorem uncommented_take_pieceLength (ts : List Token) :
    Uncommented (ts.take (pieceLength lexer ts)) := by
  cases h : leadingComments? ts with
  | some n =>
      obtain ⟨hpos, hle⟩ := leadingComments?_eq_some h
      have hn : pieceLength lexer ts ≤ triviaLength ts := by
        simp only [pieceLength, proposedLength, h]
        omega
      left
      intro t ht
      have hmem : t ∈ ts.takeWhile Token.isTrivia := by
        rw [← take_triviaLength]
        exact (List.take_subset_take_left ts hn) ht
      exact List.mem_takeWhile_imp hmem
  | none =>
      right
      intro t ht
      apply leadingComments?_eq_none h t
      rw [← List.take_takeWhile] at ht
      exact List.mem_of_mem_take ht

theorem drop_ne_nil {ts : List Token} {cursor : Nat} (h : cursor < ts.length) :
    ts.drop cursor ≠ [] := by
  intro hnil
  exact Nat.not_le_of_lt h (List.drop_eq_nil_iff.mp hnil)

/-- What one call does at a cursor within the list: it returns the tokens from the cursor up to a
later one, both within the list, and sets the cursor there. -/
structure PieceSpec (ts : List Token) (cursor : Nat) (piece : List Token) (next : Nat) : Prop where
  advances : cursor < next
  within : next ≤ ts.length
  slice : piece = (ts.take next).drop cursor
  uncommented : Uncommented piece

theorem PieceSpec.append_drop {ts piece : List Token} {cursor next : Nat}
    (h : PieceSpec ts cursor piece next) : piece ++ ts.drop next = ts.drop cursor := by
  have hdrop : ts.drop next = (ts.drop cursor).drop (next - cursor) := by
    rw [List.drop_drop, Nat.add_sub_cancel' (Nat.le_of_lt h.advances)]
  rw [h.slice, List.drop_take, hdrop, List.take_append_drop]

theorem pieceAt_spec {ts : List Token} {cursor : Nat} (h : cursor < ts.length) :
    PieceSpec ts cursor (pieceAt lexer ts cursor).1 (pieceAt lexer ts cursor).2 := by
  have hpos := pieceLength_pos lexer (drop_ne_nil h)
  have hle := pieceLength_le lexer (ts.drop cursor)
  rw [List.length_drop] at hle
  have hmin : min cursor ts.length = cursor := Nat.min_eq_left (Nat.le_of_lt h)
  refine ⟨?_, ?_, ?_, uncommented_take_pieceLength lexer _⟩
  · simp only [pieceAt, hmin]
    omega
  · simp only [pieceAt, hmin]
    omega
  · simp only [pieceAt, hmin, List.drop_take, Nat.add_sub_cancel_left]

/-! ## All pieces -/

/-- The calls that are made until the cursor reaches the end, and the pieces they return. -/
inductive Run (ts : List Token) : Nat → List (List Token) → Prop where
  | done {cursor} (h : ts.length ≤ cursor) : Run ts cursor []
  | call {cursor ps} (h : cursor < ts.length) (rest : Run ts (pieceAt lexer ts cursor).2 ps) :
      Run ts cursor ((pieceAt lexer ts cursor).1 :: ps)

theorem pieces_of_ne_nil {ts : List Token} (h : ts ≠ []) :
    pieces lexer ts =
      ts.take (pieceLength lexer ts) :: pieces lexer (ts.drop (pieceLength lexer ts)) := by
  cases ts with
  | nil => exact absurd rfl h
  | cons t ts =>
      obtain ⟨n, hn⟩ := Nat.exists_eq_succ_of_ne_zero (pieceLength_pos lexer h).ne'
      rw [pieces]
      simp [hn]

theorem pieces_drop {ts : List Token} {cursor : Nat} (h : cursor < ts.length) :
    pieces lexer (ts.drop cursor) =
      (pieceAt lexer ts cursor).1 :: pieces lexer (ts.drop (pieceAt lexer ts cursor).2) := by
  rw [pieces_of_ne_nil lexer (drop_ne_nil h)]
  simp only [pieceAt, Nat.min_eq_left (Nat.le_of_lt h), List.drop_drop]

theorem Run.eq_pieces {lexer : StatementLexer} {ts : List Token} {cursor : Nat}
    {ps : List (List Token)} (h : Run lexer ts cursor ps) : ps = pieces lexer (ts.drop cursor) := by
  induction h with
  | done h => rw [List.drop_of_length_le h, pieces]
  | call h rest ih => rw [pieces_drop lexer h, ih]

theorem run_pieces (ts : List Token) (cursor : Nat) :
    Run lexer ts cursor (pieces lexer (ts.drop cursor)) := by
  -- Each call brings the cursor closer to the end.
  induction hgap : ts.length - cursor using Nat.strong_induction_on generalizing cursor with
  | _ gap ih =>
      by_cases h : cursor < ts.length
      · have hspec := pieceAt_spec lexer h
        have hgap' : ts.length - (pieceAt lexer ts cursor).2 < gap := by
          have := hspec.advances
          omega
        rw [pieces_drop lexer h]
        exact .call h (ih _ hgap' _ rfl)
      · have hle : ts.length ≤ cursor := Nat.le_of_not_lt h
        rw [List.drop_of_length_le hle, pieces]
        exact .done hle

namespace Run

variable {lexer} {ts : List Token} {cursor : Nat} {ps : List (List Token)}

theorem flatten (h : Run lexer ts cursor ps) : ps.flatten = ts.drop cursor := by
  induction h with
  | done h => rw [List.drop_of_length_le h, List.flatten_nil]
  | call h rest ih => rw [List.flatten_cons, ih, (pieceAt_spec lexer h).append_drop]

theorem length_le (h : Run lexer ts cursor ps) : ps.length ≤ ts.length - cursor := by
  induction h with
  | done h => exact Nat.zero_le _
  | call h rest ih =>
      have hspec := pieceAt_spec lexer h
      have hadvances := hspec.advances
      have hwithin := hspec.within
      rw [List.length_cons]
      omega

theorem uncommented (h : Run lexer ts cursor ps) : ∀ p ∈ ps, Uncommented p := by
  induction h with
  | done h => simp
  | call h rest ih =>
      intro p hp
      rcases List.mem_cons.mp hp with rfl | hp
      · exact (pieceAt_spec lexer h).uncommented
      · exact ih p hp

end Run

/-- Each call returns the tokens up to its new cursor and no others. At most one call for each
token reaches the end, and the pieces put together are the tokens from the first cursor on. -/
theorem pieceAt_partition (ts : List Token) (start : Nat) :
    (∀ cursor, cursor < ts.length →
      PieceSpec ts cursor (pieceAt lexer ts cursor).1 (pieceAt lexer ts cursor).2) ∧
    ∃ ps, Run lexer ts start ps ∧ (∀ qs, Run lexer ts start qs → qs = ps) ∧
      ps.length ≤ ts.length ∧ ps.flatten = ts.drop start ∧ ∀ p ∈ ps, Uncommented p := by
  have hrun := run_pieces lexer ts start
  refine ⟨fun cursor h => pieceAt_spec lexer h, _, hrun, ?_, ?_, hrun.flatten, hrun.uncommented⟩
  · intro qs hqs
    exact hqs.eq_pieces
  · exact hrun.length_le.trans (Nat.sub_le _ _)

/-- A lexer that finds no tokens, and reports bounds that end before they start, does no harm. -/
theorem pieceAt_partition_of_wild_bounds :
    let lexer : StatementLexer := ⟨fun _ => .ok [], fun _ => [⟨7, 3⟩]⟩
    let ts := tokenize "SELECT 1".toList
    1 < ts.length ∧ PieceSpec ts 1 (pieceAt lexer ts 1).1 (pieceAt lexer ts 1).2 := by
  have hlt : 1 < (tokenize "SELECT 1".toList).length := by decide +kernel
  exact ⟨hlt, (pieceAt_partition _ _ 0).1 1 hlt⟩

end SqlMigration.Statement
