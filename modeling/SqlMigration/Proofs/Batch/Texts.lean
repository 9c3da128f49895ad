import SqlMigration.Proofs.Batch.History
import SqlMigration.Proofs.Batch.Termination

/-! # The text of a conversion

With a lexer that loses nothing, a conversion always has a text, and that text depends neither on
the depth nor on what was declared before. So it is a function of the tokens: the text of a list is
the text of its first piece in front of the text of the rest, and the text of a piece is made of the
texts of the lists inside it.
-/

namespace SqlMigration.Batch

/-- The conversions write the same, whatever was declared before each of them. -/
def WritesAlike {α : Type} (m m' : ConvertM α) : Prop :=
  ∀ declared declared', (m.run declared).map Prod.fst = (m'.run declared').map Prod.fst

theorem lifts_writesAlike : Lifts WritesAlike where
  pure a := fun _ _ => rfl
  modify added := fun _ _ => rfl
  bind {α β m m' f f'} hm hf := by
    intro declared declared'
    have hfirst := hm declared declared'
    rw [StateT.run_bind, StateT.run_bind]
    cases hrun : m.run declared with
    | none =>
        rw [hrun, Option.map_none, eq_comm, Option.map_eq_none_iff] at hfirst
        rw [hfirst]
        rfl
    | some r =>
        rw [hrun, Option.map_some, eq_comm] at hfirst
        obtain ⟨r', hrun', hvalue⟩ := Option.map_eq_some_iff.mp hfirst
        rw [hrun']
        change ((f r.1).run r.2).map Prod.fst = ((f' r'.1).run r'.2).map Prod.fst
        rw [hvalue]
        exact hf r.1 r.2 r'.2

/-- What a conversion writes. -/
def written (m : ConvertM Text) : Text := ((m.run []).map Prod.fst).getD []

theorem written_of_writesAlike {m m' : ConvertM Text} (h : WritesAlike m m') :
    written m = written m' := by
  rw [written, written, h [] []]

theorem written_map {m : ConvertM Text} (h : Ends m) (f : Text → Text) :
    written (m >>= fun text => pure (f text)) = f (written m) := by
  obtain ⟨r, hr⟩ := Option.isSome_iff_exists.mp (h [])
  rw [written, written, StateT.run_bind, hr]
  rfl

/-- The text of a list of tokens. -/
def textOf (s : Setting) (ts : List Token) : Text := written (convert s ts)

/-- The text of a piece. -/
def pieceText (s : Setting) (piece : List Token) : Text :=
  written (statement s (fun us => pure (textOf s us)) piece)

/-- The text of several pieces. -/
def piecesText (s : Setting) (ps : List (List Token)) : Text := ps.flatMap (pieceText s)

theorem ends_statement (s : Setting) (c : List Token → Text) (piece : List Token) :
    Ends (statement s (fun us => pure (c us)) piece) :=
  (composes_ends.lifts.statement fun _ _ => ⟨rfl, composes_ends.pure _⟩).2

section
variable {s : Setting} (hlexer : s.lexer.Lossless)
include hlexer

theorem writesAlike_convertWithin {depth : Nat} {ts : List Token} (hts : ∀ t ∈ ts, t.text ≠ [])
    (hdepth : (joinText ts).length < depth) :
    WritesAlike (convertWithin s depth ts) (pure (textOf s ts)) := by
  obtain ⟨hsame, hends⟩ := convertWithin_ends hlexer hts hdepth (Nat.lt_succ_self _)
  intro declared declared'
  obtain ⟨r, hr⟩ := Option.isSome_iff_exists.mp (hends [])
  have htext : textOf s ts = r.1 := by
    rw [textOf, convert, depthBound, ← hsame, written, hr]
    rfl
  rw [appends_convertWithin s depth ts declared, hr, htext]
  rfl

theorem textOf_cons {t : Token} {ts : List Token} (hts : ∀ u ∈ t :: ts, u.text ≠ []) {n : Nat}
    (hn : n = Statement.pieceLength s.lexer (t :: ts) - 1) :
    textOf s (t :: ts) = pieceText s (t :: ts.take n) ++ textOf s (ts.drop n) := by
  have hpiece : t :: ts.take n <:+: t :: ts := (List.take_prefix (n + 1) (t :: ts)).isInfix
  have hrest : ts.drop n <:+: t :: ts :=
    ((List.drop_suffix n ts).trans (List.suffix_cons t ts)).isInfix
  have hdepth : (joinText (ts.drop n)).length < (joinText (t :: ts)).length := by
    have ht := List.length_pos_iff.mpr (hts t List.mem_cons_self)
    have hle := length_joinText_le (List.drop_suffix n ts).isInfix
    rw [joinText_cons, List.length_append]
    omega
  have hinside : WritesAlike (statement s (convertWithin s (joinText (t :: ts)).length)
      (t :: ts.take n)) (statement s (fun us => pure (textOf s us)) (t :: ts.take n)) := by
    refine lifts_writesAlike.statement fun us hus => ?_
    obtain ⟨hlt, hne⟩ := hus.shorter hlexer fun u hu => hts u (hpiece.subset hu)
    exact writesAlike_convertWithin hlexer hne (Nat.lt_of_lt_of_le hlt (length_joinText_le hpiece))
  have halike := lifts_writesAlike.bind hinside fun text => lifts_writesAlike.bind
    (writesAlike_convertWithin hlexer (fun u hu => hts u (hrest.subset hu)) hdepth)
    fun rest => lifts_writesAlike.pure (text ++ rest)
  have hmap := written_map (ends_statement s (textOf s) (t :: ts.take n))
    (· ++ textOf s (ts.drop n))
  subst hn
  exact (written_of_writesAlike halike).trans hmap

/-- The text of a list of tokens is made of the texts of its pieces. -/
theorem textOf_eq_piecesText {ts : List Token} (hts : ∀ u ∈ ts, u.text ≠ []) :
    textOf s ts = piecesText s (Statement.pieces s.lexer ts) := by
  fun_induction Statement.pieces s.lexer ts with
  | case1 => rfl
  | case2 t ts n ih =>
      have hrest : ∀ u ∈ ts.drop n, u.text ≠ [] := fun u hu =>
        hts u (List.mem_cons_of_mem t (List.mem_of_mem_drop hu))
      rw [textOf_cons hlexer hts rfl, ih hrest]
      rfl

/-- A script that can be read has a conversion. -/
theorem exists_convertScript (declared : List Variable) {script : Text} {ts : List Token}
    (hlex : s.lexer.lex script = .ok ts) :
    ∃ vars, convertScript s declared script = .ok (textOf s ts, vars) := by
  have hwrites : WritesAlike (convertWithin s (depthBound ts) ts) (pure (textOf s ts)) :=
    writesAlike_convertWithin hlexer (hlexer.nonempty hlex) (Nat.lt_succ_self _)
  obtain ⟨⟨text, vars⟩, hrun, rfl⟩ := Option.map_eq_some_iff.mp (hwrites declared [])
  refine ⟨vars, ?_⟩
  rw [convertScript, hlex]
  simp only [hrun]

end

/-! ## Pieces -/

/-- The trivia in front of a piece. -/
def leadOf (piece : List Token) : Text := joinText (piece.take (triviaLength piece))

/-- Whether a statement is emitted as a query. -/
def emitsQuery (t : Token) (ts : List Token) : Bool :=
  match t.keyword? with
  | some .ALTER | some .EXEC | some .EXECUTE | some .DECLARE | some .SET | some .IF | some .WHILE
  | some .GO => false
  | some .BEGIN => opensTransaction ts
  | _ => true

/-- The list that is converted for a branch of a conditional, unless the branch is copied. -/
def branchList? (ts : List Token) : Option (List Token) :=
  if firstKeyword? ts = some .BEGIN then (Statement.blockInside? ts).map Prod.fst else some ts

/-- The text of a branch, where `c` gives the texts of lists. -/
def branchText (c : List Token → Text) (ts : List Token) : Text :=
  ((branchList? ts).elim (Expression.emit ts) c).trim

theorem branch_pure (c : List Token → Text) (ts : List Token) :
    branch (fun us => pure (c us)) ts = pure (branchText c ts) := by
  unfold branch branchText branchList?
  split
  · cases Statement.blockInside? ts <;> rfl
  · rfl

/-- What follows the first branch of a conditional, where `rest` follows it in the source. -/
def secondText (c : List Token → Text) (rest : List Token) : Text :=
  if firstKeyword? rest = some .ELSE then "\nELSE\n".toList ++ branchText c (skipTrivia rest).tail
  else if isTerminator rest then []
  else c rest

/-- The tokens of a conditional without its `ELSE`. -/
def conditionalPart (body : List Token) : List Token :=
  body.take (Statement.conditionalLength body)

/-- The first branch of a conditional. -/
def firstBranch (body : List Token) : List Token :=
  (conditionalPart body).drop (Statement.conditionLength (conditionalPart body))

/-- What follows the first branch of a conditional. -/
def afterBranch (body : List Token) : List Token := body.drop (Statement.conditionalLength body)

/-- How a conditional starts. -/
def conditionalHead (form : ConditionalForm) (body : List Token) : Text :=
  let condition := (conditionalPart body).take (Statement.conditionLength (conditionalPart body))
  form.keyword.toList ++ ' ' :: (Expression.emit condition.tail).trim ++
    ' ' :: form.opening.toList ++ ['\n']

/-- The text of a conditional. -/
def conditionalText (c : List Token → Text) (form : ConditionalForm) (body : List Token) : Text :=
  conditionalHead form body ++ branchText c (firstBranch body) ++
    secondText c (afterBranch body) ++ '\n' :: form.closing.toList

theorem conditional_pure (c : List Token → Text) (form : ConditionalForm) (body : List Token) :
    conditional (fun us => pure (c us)) form body = pure (conditionalText c form body) := by
  unfold conditional
  simp only [branch_pure, pure_bind]
  unfold conditionalText secondText afterBranch
  split
  · rfl
  · split <;> rfl

/-- The text of a block. -/
def blockText (c : List Token → Text) (body : List Token) : Text :=
  (Statement.blockInside? body).elim (Expression.emit body) fun found =>
    "BEGIN".toList ++ (c found.1).trimEnd ++ "\nEND;".toList ++
      if isTerminator (body.drop found.2) then [] else c (body.drop found.2)

theorem block_pure (c : List Token → Text) (body : List Token) :
    block (fun us => pure (c us)) body = pure (blockText c body) := by
  unfold block blockText
  cases Statement.blockInside? body with
  | none => rfl
  | some found =>
      simp only [pure_bind, Option.elim_some]
      split <;> rfl

/-- The text of a statement, without the trivia in front of it. -/
def statementText (s : Setting) (t : Token) (ts : List Token) : Text :=
  match t.keyword? with
  | some .ALTER => alter s (t :: ts)
  | some .EXEC | some .EXECUTE => written (exec s (fun us => pure (textOf s us)) (t :: ts))
  | some .DECLARE => written (declare s (t :: ts))
  | some .SET => set (t :: ts)
  | some .IF => conditionalText (textOf s) ifForm (t :: ts)
  | some .WHILE => conditionalText (textOf s) whileForm (t :: ts)
  | some .BEGIN =>
      if opensTransaction ts then Query.emit (t :: ts) else blockText (textOf s) (t :: ts)
  | some .GO => []
  | _ => Query.emit (t :: ts)

section
variable {s : Setting} {piece ts : List Token} {t : Token}

theorem pieceText_of_trivia (h : skipTrivia piece = []) : pieceText s piece = leadOf piece := by
  unfold pieceText statement
  simp only [h]
  rfl

theorem pieceText_cons (h : skipTrivia piece = t :: ts) :
    pieceText s piece = leadOf piece ++ statementText s t ts := by
  have hexec : Ends (exec s (fun us => pure (textOf s us)) (t :: ts)) :=
    (composes_ends.lifts.exec fun _ _ _ _ => ⟨rfl, composes_ends.pure _⟩).2
  have hdeclare : Ends (declare s (t :: ts)) := (composes_ends.lifts.declare s (t :: ts)).2
  unfold pieceText statementText statement
  simp only [h, conditional_pure, block_pure, pure_bind]
  cases t.keyword? with
  | none => rfl
  | some k =>
      cases k
      case EXEC | EXECUTE => exact written_map hexec _
      case DECLARE => exact written_map hdeclare _
      case BEGIN => cases opensTransaction ts <;> rfl
      all_goals rfl

theorem statementText_of_emitsQuery (s : Setting) (h : emitsQuery t ts) :
    statementText s t ts = Query.emit (t :: ts) := by
  unfold emitsQuery at h
  unfold statementText
  generalize t.keyword? = found at h ⊢
  cases found with
  | none => rfl
  | some k =>
      cases k
      case BEGIN => exact if_pos h
      case ALTER | EXEC | EXECUTE | DECLARE | SET | IF | WHILE | GO => cases h
      all_goals rfl

end

end SqlMigration.Batch
