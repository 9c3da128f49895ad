import SqlMigration.Proofs.Pattern
import SqlMigration.Proofs.Statement.Carry
import SqlMigration.Proofs.Statement.Extent
import SqlMigration.Proofs.Statement.Partition

/-! # Cutting without reading anew

The cut of a script joins the remaining text, reads it again and carries the bounds it is told
over to its own tokens. With the lexer of this library all of that can be left out: for tokens of
a script without errors, the pieces are found on the tokens themselves.
-/

namespace SqlMigration.Statement

/-- The end of the piece at the cursor, found on the tokens themselves. -/
def directEnd (ts : List Token) (cursor : Nat) : Nat :=
  let rest := ts.drop cursor
  match leadingComments? rest, union? rest with
  | some n, _ => cursor + n
  | none, some n => cursor + n
  | none, none =>
      match bounds rest with
      | [] => ts.length
      | b :: _ => cut ts ⟨cursor + b.start, cursor + b.stop⟩

/-- The piece at the cursor and the cursor after it, found on the tokens themselves. -/
def directPiece (ts : List Token) (cursor : Nat) : List Token × Nat :=
  ((ts.take (directEnd ts cursor)).drop cursor, directEnd ts cursor)

/-! ## Cuts -/

theorem union?_bounds {ts : List Token} {n : Nat} (h : union? ts = some n) :
    0 < n ∧ n ≤ ts.length := by
  simp only [union?] at h
  split at h
  · rename_i c m hall
    cases h
    have hbounds := Pattern.run?_bounds rfl (by decide) hall
    exact ⟨Nat.lt_of_lt_of_le Nat.two_pos hbounds.1, hbounds.2⟩
  · obtain ⟨⟨c, m⟩, hunion, rfl⟩ := Option.map_eq_some_iff.mp h
    exact Pattern.run?_bounds rfl (by decide) hunion

theorem armLength_le (run : List Token) : armLength run ≤ run.length := by
  have hsig := significantLength_le run
  simp only [armLength]
  split
  · rename_i i hnewline
    have hi := (List.findIdx?_eq_some_iff_getElem.mp hnewline).1
    rw [List.length_drop] at hi
    omega
  · exact hsig

theorem armLength_pos {t : Token} {ts : List Token} (h : t.isTrivia = false) :
    0 < armLength (t :: ts) := by
  have hsig : 0 < significantLength (t :: ts) := significantLength_pos h
  simp only [armLength]
  split
  · exact Nat.succ_pos _
  · exact hsig

/-- The first arm of a union is cut after its `SELECT` at the earliest. -/
theorem armLength_bounds {t : Token} {ts : List Token} {i : Nat}
    (hselect : t.keyword? = some .SELECT)
    (hunion : topLevel? (·.is .UNION) (t :: ts) = some i) :
    0 < armLength ((t :: ts).take i) ∧ armLength ((t :: ts).take i) ≤ ts.length + 1 := by
  have hpos : 0 < i := topLevelFrom?_pos (is_of_keyword? hselect (by decide)) hunion
  obtain ⟨j, rfl⟩ := Nat.exists_eq_succ_of_ne_zero hpos.ne'
  refine ⟨armLength_pos (isTrivia_of_keyword? hselect), ?_⟩
  exact (armLength_le _).trans (List.take_sublist _ _).length_le

/-- A cut is made within the bounds, after their first token at the earliest. -/
theorem cut_bounds {ts : List Token} {b : Bounds} (hlt : b.start < b.stop)
    (hle : b.stop ≤ ts.length) : b.start < cut ts b ∧ cut ts b ≤ b.stop := by
  have hlen : ((ts.take b.stop).drop b.start).length = b.stop - b.start := by
    rw [List.length_drop, List.length_take, Nat.min_eq_left hle]
  simp only [cut]
  split
  · split
    · rename_i i has
      have hi : i < _ := topLevelFrom?_lt has
      rw [hlen] at hi
      omega
    · exact ⟨hlt, Nat.le_refl _⟩
  · rename_i hselect
    split
    · rename_i i hunion
      -- The statement starts with the token at its bound, the `SELECT`.
      have hstart : b.start < (ts.take b.stop).length := by
        rw [List.length_take, Nat.min_eq_left hle]
        exact hlt
      rw [List.getElem?_eq_getElem (hlt.trans_le hle), ← List.getElem_take (h := hstart)] at hselect
      rw [List.drop_eq_getElem_cons hstart] at hlen hunion ⊢
      have harm := armLength_bounds hselect hunion
      rw [List.length_cons] at hlen
      omega
    · exact ⟨hlt, Nat.le_refl _⟩
  · exact ⟨hlt, Nat.le_refl _⟩

/-- Bounds over the tokens from the cursor on are bounds over all tokens, moved up by it. -/
theorem cut_drop (ts : List Token) (cursor : Nat) (b : Bounds) :
    cut ts ⟨cursor + b.start, cursor + b.stop⟩ = cursor + cut (ts.drop cursor) b := by
  have hstatement : (ts.take (cursor + b.stop)).drop (cursor + b.start) =
      ((ts.drop cursor).take b.stop).drop b.start := by
    rw [← List.drop_drop, List.drop_take, Nat.add_sub_cancel_left]
  have hfirst : ts[cursor + b.start]? = (ts.drop cursor)[b.start]? := List.getElem?_drop.symm
  dsimp only [cut]
  rw [hstatement, hfirst]
  split
  · split <;> omega
  · split <;> omega
  · rfl

/-! ## The direct end -/

theorem directEnd_drop {ts : List Token} {cursor : Nat} (h : cursor ≤ ts.length) :
    directEnd ts cursor = cursor + directEnd (ts.drop cursor) 0 := by
  simp only [directEnd, List.drop_zero, Nat.zero_add]
  split
  · rfl
  · rfl
  · split
    · rw [List.length_drop, Nat.add_sub_cancel' h]
    · exact cut_drop ts cursor _

/-- The direct end needs no correction: a token at least is taken, and none that is not there. -/
theorem directEnd_bounds {ts : List Token} (h : ts ≠ []) :
    0 < directEnd ts 0 ∧ directEnd ts 0 ≤ ts.length := by
  simp only [directEnd, List.drop_zero, Nat.zero_add]
  split
  · rename_i n hcomments
    obtain ⟨hpos, hle⟩ := leadingComments?_eq_some hcomments
    have htrivia := triviaLength_add_length_skipTrivia ts
    omega
  · rename_i n hunion
    exact union?_bounds hunion
  · split
    · exact ⟨List.length_pos_iff.mpr h, Nat.le_refl _⟩
    · rename_i b bs hbounds
      obtain ⟨-, hlt, hle⟩ := bounds_eq_cons hbounds
      obtain ⟨hstart, hstop⟩ := cut_bounds hlt hle
      exact ⟨Nat.zero_lt_of_lt hstart, hstop.trans hle⟩

/-! ## Reading anew -/

/-- Reading the text of `ts` again finds nothing new: the same statements, at the same tokens. -/
structure Relexed (ts theirs : List Token) : Prop where
  lex : StatementLexer.tsql.lex (joinText ts) = .ok theirs
  bounds : StatementLexer.tsql.bounds theirs = bounds ts
  carried : ∀ b ∈ (Statement.bounds ts).head?, carryBounds ts theirs b = b

theorem lexStrict_of_forall_ne_error {s : Text} (h : ∀ t ∈ tokenize s, t.kind ≠ .error) :
    StatementLexer.lexStrict s = .ok (tokenize s) := by
  have hfind : LexError.firstIn? (tokenize s) = none := by
    simpa [LexError.firstIn?] using h
  simp only [StatementLexer.lexStrict, hfind]

/-- A slice of a script without errors is read again as it stands. -/
theorem relexed_tokenize {s : Text} {ts : List Token} (hslice : ts <:+: tokenize s)
    (herr : ∀ t ∈ ts, t.kind ≠ .error) : Relexed ts (tokenize (joinText ts)) := by
  obtain ⟨before, after, hsplit⟩ := hslice
  obtain ⟨d, hshift⟩ : ∃ d, (tokenize (joinText ts)).map (Token.shift d) = ts :=
    ⟨_, Token.map_shift_read_joinText .unicode hsplit.symm⟩
  generalize htheirs : tokenize (joinText ts) = theirs at hshift ⊢
  have hbounds : bounds theirs = bounds ts := by
    rw [← bounds_map_shift d theirs, hshift]
  refine ⟨?_, hbounds, ?_⟩
  · rw [← htheirs]
    apply lexStrict_of_forall_ne_error
    intro t ht
    rw [htheirs] at ht
    have hmem : t.shift d ∈ ts := hshift ▸ List.mem_map_of_mem ht
    exact herr (t.shift d) hmem
  · intro b hb
    obtain ⟨bs, hfirst⟩ := List.head?_eq_some_iff.mp hb
    obtain ⟨-, hlt, hle⟩ := bounds_eq_cons (hbounds.trans hfirst)
    have hne : ∀ t ∈ theirs, t.text ≠ [] := by
      intro t ht
      rw [← htheirs] at ht
      exact Token.text_ne_nil_of_mem_read .unicode ht
    have hcarry := carryBounds_map_shift hne d (hlt.trans_le hle) hle
    rwa [hshift] at hcarry

namespace Relexed

variable {ts theirs : List Token}

/-- The bounds found anew do not start after the first significant token. -/
theorem start_le_triviaLength (h : Relexed ts theirs) :
    ∀ b ∈ (StatementLexer.tsql.bounds theirs).head?,
      (carryBounds ts theirs b).start ≤ triviaLength ts := by
  intro b hb
  rw [h.bounds] at hb
  obtain ⟨bs, hfirst⟩ := List.head?_eq_some_iff.mp hb
  rw [h.carried b hb]
  exact (bounds_eq_cons hfirst).1.le

theorem proposedLength_eq (h : Relexed ts theirs) :
    proposedLength .tsql ts = directEnd ts 0 := by
  have hearly := h.start_le_triviaLength
  simp only [proposedLength, directEnd, List.drop_zero, Nat.zero_add, h.lex]
  rw [h.bounds] at hearly ⊢
  cases leadingComments? ts with
  | some n => rfl
  | none =>
      cases union? ts with
      | some n => rfl
      | none =>
          cases hfirst : Statement.bounds ts with
          | nil => rfl
          | cons b bs =>
              have hb : b ∈ (Statement.bounds ts).head? := by simp [hfirst]
              have hle := hearly b hb
              rw [h.carried b hb] at hle
              simp only [h.carried b hb, if_neg (Nat.not_lt_of_le hle)]

theorem pieceLength_eq (h : Relexed ts theirs) (hne : ts ≠ []) :
    pieceLength .tsql ts = directEnd ts 0 := by
  have hbounds := directEnd_bounds hne
  rw [pieceLength, h.proposedLength_eq]
  omega

end Relexed

theorem directPiece_of_length_le {ts : List Token} {cursor : Nat} (h : ts.length ≤ cursor) :
    directPiece ts cursor = ([], ts.length) := by
  have hend : directEnd ts cursor = ts.length := by
    rw [directEnd, List.drop_of_length_le h, bounds, boundsFrom]
    rfl
  rw [directPiece, hend, List.take_length, List.drop_of_length_le h]

/-- On tokens of a script without errors, the cut may as well look at the tokens themselves.
Reading the text of what is left never fails, and never finds a statement that starts late. -/
theorem pieceAt_tsql_eq_directPiece {s : Text} {ts : List Token} (hslice : ts <:+: tokenize s)
    (herr : ∀ t ∈ ts, t.kind ≠ .error) (cursor : Nat) :
    pieceAt .tsql ts cursor = directPiece ts cursor ∧
      ∃ theirs, StatementLexer.tsql.lex (joinText (ts.drop cursor)) = .ok theirs ∧
        ∀ b ∈ (StatementLexer.tsql.bounds theirs).head?,
          cursor + (carryBounds (ts.drop cursor) theirs b).start ≤ nextSignificant ts cursor := by
  have hrelexed : Relexed (ts.drop cursor) _ :=
    relexed_tokenize ((List.drop_suffix cursor ts).isInfix.trans hslice)
      fun t ht => herr t (List.mem_of_mem_drop ht)
  refine ⟨?_, _, hrelexed.lex, ?_⟩
  · by_cases h : cursor < ts.length
    · have hn := hrelexed.pieceLength_eq (drop_ne_nil h)
      simp only [pieceAt, directPiece, hn, Nat.min_eq_left h.le, directEnd_drop h.le,
        List.drop_take, Nat.add_sub_cancel_left]
    · have hle := Nat.le_of_not_lt h
      rw [directPiece_of_length_le hle]
      simp [pieceAt, pieceLength, List.drop_of_length_le hle, Nat.min_eq_right hle]
  · intro b hb
    exact Nat.add_le_add_left (hrelexed.start_le_triviaLength b hb) cursor

/-- The arm before a `UNION` is cut off in the same place, after the blank that follows `GO`. -/
theorem pieceAt_tsql_eq_directPiece_union :
    let script := tokenize "GO SELECT a UNION SELECT b".toList
    let ts := script.drop 1
    ts <:+: script ∧ (∀ t ∈ ts, t.kind ≠ .error) ∧ pieceAt .tsql ts 1 = directPiece ts 1 := by
  have hslice : (tokenize "GO SELECT a UNION SELECT b".toList).drop 1 <:+:
      tokenize "GO SELECT a UNION SELECT b".toList := (List.drop_suffix 1 _).isInfix
  have herr : ∀ t ∈ (tokenize "GO SELECT a UNION SELECT b".toList).drop 1, t.kind ≠ .error := by
    decide +kernel
  exact ⟨hslice, herr, (pieceAt_tsql_eq_directPiece hslice herr 1).1⟩

end SqlMigration.Statement
