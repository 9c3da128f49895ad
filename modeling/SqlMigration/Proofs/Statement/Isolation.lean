import SqlMigration.Proofs.Statement.Lookahead
import SqlMigration.Token.Lexer

/-! # Statements that stand alone

A statement is one statement also when it is taken out of its list. What stands before `GO` and what
stands behind it are divided into statements without regard to each other.
-/

namespace SqlMigration

/-- Bounds that are moved up by `d`. -/
def Bounds.shift (d : Nat) (b : Bounds) : Bounds := ⟨d + b.start, d + b.stop⟩

theorem map_shift_shift (d e : Nat) (bs : List Bounds) :
    (bs.map (Bounds.shift e)).map (Bounds.shift d) = bs.map (Bounds.shift (d + e)) := by
  rw [List.map_map]
  congr 1
  funext b
  simp only [Function.comp_apply, Bounds.shift, Nat.add_assoc]

namespace Statement

/-! ## The list of statements -/

theorem boundsFrom_add (d i : Nat) (ts : List Token) :
    boundsFrom (d + i) ts = (boundsFrom i ts).map (Bounds.shift d) := by
  fun_induction boundsFrom i ts with
  | case1 => rw [boundsFrom, List.map_nil]
  | case2 i t ts htrivia ih => rw [boundsFrom, if_pos htrivia, Nat.add_assoc, ih]
  | case3 i t ts htrivia n ih =>
      rw [boundsFrom, if_neg htrivia, List.map_cons, ← ih]
      simp only [Bounds.shift, Nat.add_assoc, n]

theorem bounds_cons_of_isTrivia {t : Token} (ht : t.isTrivia) (ts : List Token) :
    bounds (t :: ts) = (bounds ts).map (Bounds.shift 1) := by
  rw [bounds, boundsFrom, if_pos ht]
  exact boundsFrom_add 1 0 ts

theorem bounds_cons {t : Token} (ht : t.isTrivia = false) (ts : List Token) :
    bounds (t :: ts) = ⟨0, extent (t :: ts)⟩ ::
      (bounds ((t :: ts).drop (extent (t :: ts)))).map (Bounds.shift (extent (t :: ts))) := by
  have hpos := extent_pos t ts
  have hextent : 0 + (extent (t :: ts) - 1) + 1 = extent (t :: ts) := by omega
  have hdrop : ts.drop (extent (t :: ts) - 1) = (t :: ts).drop (extent (t :: ts)) := by
    rw [← List.drop_succ_cons, Nat.sub_add_cancel hpos]
  rw [bounds, boundsFrom, ht, if_neg Bool.false_ne_true]
  simp only [hextent, hdrop]
  exact congrArg (_ :: ·) (boundsFrom_add _ 0 _)

theorem bounds_trivia_append {gap : List Token} (hgap : ∀ t ∈ gap, t.isTrivia) (ts : List Token) :
    bounds (gap ++ ts) = (bounds ts).map (Bounds.shift gap.length) := by
  induction gap with
  | nil =>
      have hid : Bounds.shift 0 = id := by
        funext b
        simp [Bounds.shift]
      rw [List.nil_append, List.length_nil, hid, List.map_id]
  | cons t gap ih =>
      obtain ⟨ht, hgap⟩ := List.forall_mem_cons.mp hgap
      rw [List.cons_append, bounds_cons_of_isTrivia ht, ih hgap, map_shift_shift, List.length_cons,
        Nat.add_comm]

/-- The tokens within bounds. -/
def slice (ts : List Token) (b : Bounds) : List Token := (ts.take b.stop).drop b.start

theorem slice_shift (ts : List Token) (d : Nat) (b : Bounds) :
    slice ts (b.shift d) = slice (ts.drop d) b := by
  rw [slice, slice, Bounds.shift, ← List.drop_drop, List.drop_take, Nat.add_sub_cancel_left]

/-- The statements of a list of tokens, in order. -/
def statements (ts : List Token) : List (List Token) := (bounds ts).map (slice ts)

theorem statements_nil : statements [] = [] := by
  rw [statements, bounds, boundsFrom, List.map_nil]

theorem statements_cons_of_isTrivia {t : Token} (ht : t.isTrivia) (ts : List Token) :
    statements (t :: ts) = statements ts := by
  rw [statements, bounds_cons_of_isTrivia ht, List.map_map, statements]
  congr 1
  funext b
  exact slice_shift (t :: ts) 1 b

theorem statements_cons {t : Token} (ht : t.isTrivia = false) (ts : List Token) :
    statements (t :: ts) = (t :: ts).take (extent (t :: ts)) ::
      statements ((t :: ts).drop (extent (t :: ts))) := by
  rw [statements, bounds_cons ht, List.map_cons, List.map_map, statements]
  congr 2
  funext b
  exact slice_shift (t :: ts) _ b

/-- Lists of tokens are made of trivia and of statements. -/
theorem statements_induction {P : List Token → Prop} (nil : P [])
    (trivia : ∀ t ts, t.isTrivia → P ts → P (t :: ts))
    (statement : ∀ t ts, t.isTrivia = false → P ((t :: ts).drop (extent (t :: ts))) → P (t :: ts))
    (ts : List Token) : P ts := by
  induction hlen : ts.length using Nat.strong_induction_on generalizing ts with
  | _ len ih =>
      subst hlen
      cases ts with
      | nil => exact nil
      | cons t ts =>
          cases ht : t.isTrivia with
          | true => exact trivia t ts ht (ih ts.length (Nat.lt_succ_self _) ts rfl)
          | false =>
              have hpos := extent_pos t ts
              refine statement t ts ht (ih _ ?_ _ rfl)
              rw [List.length_drop, List.length_cons]
              omega

theorem trivia_of_statements_eq_nil {ts : List Token} (h : statements ts = []) :
    ∀ t ∈ ts, t.isTrivia := by
  induction ts using statements_induction with
  | nil => simp
  | trivia t ts ht ih =>
      rw [statements_cons_of_isTrivia ht] at h
      exact List.forall_mem_cons.mpr ⟨ht, ih h⟩
  | statement t ts ht ih =>
      rw [statements_cons ht] at h
      cases h

/-- The last statement stands at the end of the list, but for trivia. -/
theorem eq_append_of_getLast?_statements {ts s : List Token}
    (h : (statements ts).getLast? = some s) :
    ∃ front gap, ts = front ++ s ++ gap ∧ ∀ t ∈ gap, t.isTrivia := by
  induction ts using statements_induction with
  | nil => simp [statements_nil] at h
  | trivia t ts ht ih =>
      rw [statements_cons_of_isTrivia ht] at h
      obtain ⟨front, gap, rfl, hgap⟩ := ih h
      exact ⟨t :: front, gap, rfl, hgap⟩
  | statement t ts ht ih =>
      rw [statements_cons ht] at h
      cases hrest : statements ((t :: ts).drop (extent (t :: ts))) with
      | nil =>
          rw [hrest, List.getLast?_singleton] at h
          cases h
          exact ⟨[], _, (List.take_append_drop _ _).symm, trivia_of_statements_eq_nil hrest⟩
      | cons next more =>
          rw [hrest, List.getLast?_cons_cons, ← hrest] at h
          obtain ⟨front, gap, hdrop, hgap⟩ := ih h
          refine ⟨(t :: ts).take (extent (t :: ts)) ++ front, gap, ?_, hgap⟩
          rw [List.append_assoc, List.append_assoc, ← List.append_assoc front, ← hdrop,
            List.take_append_drop]

/-! ## Statements on their own -/

/-- Each statement, taken out of its list, is one statement and nothing else. -/
theorem bounds_statement_alone {ts : List Token} {b : Bounds} (hb : b ∈ bounds ts) :
    bounds (slice ts b) = [⟨0, b.stop - b.start⟩] := by
  obtain ⟨-, t, rest, hdrop, ht, hstop⟩ := mem_boundsFrom hb
  rw [Nat.sub_zero] at hdrop
  have hslice : slice ts b = (t :: rest).take (extent (t :: rest)) := by
    rw [slice, List.drop_take, hdrop, hstop, Nat.add_sub_cancel_left]
  have halone := extent_take (List.cons_ne_nil t rest) (Nat.le_refl (extent (t :: rest)))
  have hlen : ((t :: rest).take (extent (t :: rest))).length = extent (t :: rest) :=
    List.length_take_of_le (extent_le_length _)
  obtain ⟨n, hn⟩ := Nat.exists_eq_succ_of_ne_zero (extent_pos t rest).ne'
  rw [hn, List.take_succ_cons] at hslice halone hlen
  rw [hslice, hstop, Nat.add_sub_cancel_left, hn, bounds_cons ht, halone,
    List.drop_of_length_le hlen.le, bounds, boundsFrom, List.map_nil]

theorem bounds_statement_alone_conditional :
    let ts := tokenize ("SELECT 0 IF @a = 1 BEGIN TRY SELECT 1 END TRY; " ++
      "ELSE ALTER TABLE t DROP COLUMN c DROP TABLE t").toList
    ⟨4, 38⟩ ∈ bounds ts ∧ bounds (slice ts ⟨4, 38⟩) = [⟨0, 34⟩] := by
  intro ts
  have hb : ⟨4, 38⟩ ∈ bounds ts := by decide +kernel
  exact ⟨hb, bounds_statement_alone hb⟩

/-! ## Separators -/

theorem extent_separator {t : Token} (ht : t.is .GO) (ts : List Token) : extent (t :: ts) = 1 := by
  have hkeyword : t.keyword? = some .GO := by simp [Token.keyword?, kind_of_is ht]
  rw [extent, opening, hkeyword]

theorem showsNoMore_of_separator {t : Token} (ht : t.is .GO) (gap us : List Token) :
    ShowsNoMore (t :: gap) (t :: (gap ++ us)) := by
  have hfirst (ts : List Token) : firstSignificant? (t :: ts) = some t := by
    simp [firstSignificant?, skipTrivia, isTrivia_of_is ht]
  exact .inr ⟨t, ht, hfirst gap, hfirst (gap ++ us)⟩

/-- A statement before `GO` does not see what stands behind it. -/
theorem extent_append_of_separator {ts us : List Token} {t u : Token} (ht : t.is .GO)
    (hlast : (statements ((u :: ts).drop (extent (u :: ts)))).getLast? = some [t]) :
    extent (u :: (ts ++ us)) = extent (u :: ts) := by
  obtain ⟨front, gap, hdrop, -⟩ := eq_append_of_getLast?_statements hlast
  have hlen : ((u :: ts).take (extent (u :: ts))).length = extent (u :: ts) :=
    List.length_take_of_le (extent_le_length _)
  have hts : u :: ts = (u :: ts).take (extent (u :: ts)) ++ front ++ t :: gap := by
    rw [List.append_assoc, List.append_cons, ← hdrop, List.take_append_drop]
  have hsettled := extent_append (showsNoMore_of_separator ht gap us)
    ((u :: ts).take (extent (u :: ts)) ++ front)
  rw [Settled, ← hts, List.length_append, hlen, ← List.cons_append, ← List.append_assoc, ← hts]
    at hsettled
  refine hsettled ?_ (Nat.le_add_right _ _)
  have hpos := extent_pos u ts
  rw [← List.length_pos_iff, List.length_append, hlen]
  omega

/-- What stands behind `GO` changes nothing before it, and is divided as if it stood alone. -/
theorem bounds_append_of_separator {ts : List Token} {t : Token} (ht : t.is .GO)
    (hlast : (statements ts).getLast? = some [t]) (us : List Token) :
    bounds (ts ++ us) = bounds ts ++ (bounds us).map (Bounds.shift ts.length) := by
  induction ts using statements_induction with
  | nil => simp [statements_nil] at hlast
  | trivia u ts hu ih =>
      rw [statements_cons_of_isTrivia hu] at hlast
      rw [List.cons_append, bounds_cons_of_isTrivia hu, bounds_cons_of_isTrivia hu, ih hlast,
        List.map_append, map_shift_shift, List.length_cons, Nat.add_comm]
  | statement u ts hu ih =>
      have hle := extent_le_length (u :: ts)
      rw [statements_cons hu] at hlast
      cases hrest : statements ((u :: ts).drop (extent (u :: ts))) with
      | nil =>
          -- The first statement is the `GO`, and only trivia stand behind it.
          rw [hrest, List.getLast?_singleton] at hlast
          have hlen := congrArg List.length (Option.some.inj hlast)
          rw [List.length_take_of_le hle, List.length_singleton] at hlen
          rw [hlen] at hlast hrest
          obtain rfl : u = t := by simpa using hlast
          rw [List.cons_append, bounds_cons hu, bounds_cons hu, extent_separator ht,
            extent_separator ht]
          simp only [List.drop_succ_cons, List.drop_zero] at hrest ⊢
          have hnone : bounds ts = [] := List.map_eq_nil_iff.mp hrest
          rw [bounds_trivia_append (trivia_of_statements_eq_nil hrest), map_shift_shift, hnone,
            List.length_cons, Nat.add_comm]
          rfl
      | cons next more =>
          rw [hrest, List.getLast?_cons_cons, ← hrest] at hlast
          have hdrop : (u :: (ts ++ us)).drop (extent (u :: ts)) =
              (u :: ts).drop (extent (u :: ts)) ++ us := by
            rw [← List.cons_append, List.drop_append_of_le_length hle]
          have hlen : extent (u :: ts) + ((u :: ts).drop (extent (u :: ts))).length =
              (u :: ts).length := by
            rw [List.length_drop]
            omega
          rw [List.cons_append, bounds_cons hu, bounds_cons hu, extent_append_of_separator ht hlast,
            hdrop, ih hlast, List.map_append, map_shift_shift, hlen, List.cons_append]

/-- An `ELSE` behind `GO` does not belong to the `IF` before it. -/
theorem bounds_append_of_separator_else :
    let ts := tokenize "BEGIN TRAN IF @a = 1 SELECT 1 /* c */\nGO\n".toList
    let us := tokenize "ELSE SELECT 2".toList
    let t : Token := ⟨.keyword .GO, "GO".toList, ⟨38, 40⟩⟩
    t.is .GO ∧ (statements ts).getLast? = some [t] ∧
      bounds (ts ++ us) = bounds ts ++ (bounds us).map (Bounds.shift ts.length) := by
  intro ts us t
  have hfacts : t.is .GO ∧ (statements ts).getLast? = some [t] := by decide +kernel
  exact ⟨hfacts.1, hfacts.2, bounds_append_of_separator hfacts.1 hfacts.2 us⟩

end Statement

end SqlMigration
