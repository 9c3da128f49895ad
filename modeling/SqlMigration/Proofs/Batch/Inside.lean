import SqlMigration.Batch
import SqlMigration.Proofs.Token.Nesting

/-! # What a statement converts inside it

The conversion of a statement calls the conversion of lists of tokens for the statements inside it,
and looks at nothing else of these but their texts. So a relation between two conversions of what
stands inside a piece carries over to the piece.
-/

namespace SqlMigration

namespace Statement

theorem conditionLength_pos {ts : List Token} (h : ts ≠ []) : 0 < conditionLength ts := by
  have hlen := List.length_pos_iff.mpr h
  simp only [conditionLength]
  split <;> omega

theorem conditionalLength_pos {ts : List Token} (h : ts ≠ []) : 0 < conditionalLength ts := by
  have hlen := List.length_pos_iff.mpr h
  have hpos := conditionLength_pos h
  simp only [conditionalLength]
  split
  · exact hlen
  · split
    · cases throughEnd? _ with
      | none => exact hlen
      | some n => exact Nat.add_pos_left hpos n
    · split <;> omega

/-- What a conditional runs lies behind the token that opens it. -/
theorem infix_of_conditional (t : Token) (ts : List Token) :
    let statement := (t :: ts).take (conditionalLength (t :: ts))
    statement.drop (conditionLength statement) <:+: ts := by
  intro statement
  have hpos : 0 < conditionLength statement := by
    apply conditionLength_pos
    have hlength := conditionalLength_pos (List.cons_ne_nil t ts)
    simp [statement, hlength.ne']
  obtain ⟨m, hm⟩ := Nat.exists_eq_succ_of_ne_zero hpos.ne'
  obtain ⟨n, hn⟩ := Nat.exists_eq_succ_of_ne_zero
    (conditionalLength_pos (List.cons_ne_nil t ts)).ne'
  have htail : statement = t :: ts.take n := by
    simp only [statement, hn]
    exact List.take_succ_cons
  rw [hm, htail, List.drop_succ_cons]
  exact (List.drop_suffix _ _).isInfix.trans (List.take_prefix _ _).isInfix

theorem suffix_of_conditional (t : Token) (ts : List Token) :
    (t :: ts).drop (conditionalLength (t :: ts)) <:+ ts := by
  obtain ⟨n, hn⟩ := Nat.exists_eq_succ_of_ne_zero
    (conditionalLength_pos (List.cons_ne_nil t ts)).ne'
  rw [hn, List.drop_succ_cons]
  exact List.drop_suffix n ts

/-- The inside of a block lies behind the token that opens it, and so does what follows the
block. -/
theorem infix_of_blockInside? {t : Token} {ts inner : List Token} {n : Nat}
    (h : blockInside? (t :: ts) = some (inner, n)) :
    inner <:+: ts ∧ (t :: ts).drop n <:+ ts := by
  unfold blockInside? at h
  split at h
  · cases h
  · rename_i u rest hskip
    obtain ⟨gap, heq, -⟩ := eq_append_of_skipTrivia hskip
    simp only [bind, Option.bind_eq_some_iff, Option.some.injEq, Prod.mk.injEq] at h
    obtain ⟨k, -, m, -, rfl, rfl⟩ := h
    have hrest : rest <:+ ts := by
      cases gap with
      | nil =>
          obtain ⟨-, rfl⟩ := List.cons.inj heq
          exact List.suffix_rfl
      | cons g gap =>
          obtain ⟨-, rfl⟩ := List.cons.inj heq
          exact ⟨gap ++ [u], by simp⟩
    constructor
    · exact (List.take_prefix m rest).isInfix.trans hrest.isInfix
    · rw [Nat.add_succ, List.drop_succ_cons]
      exact List.drop_suffix _ ts

end Statement

namespace Batch

/-- The lists of tokens that the conversion of a piece converts: parts of what follows its first
significant token, and the statements in a string of dynamic SQL. -/
inductive Inside (s : Setting) (piece : List Token) : List Token → Prop where
  | part {us : List Token} (h : us <:+: (skipTrivia piece).tail) : Inside s piece us
  | dynamic {sql : Text} {us : List Token}
      (hstring : DynamicSql.stringArgument? (skipTrivia piece) = some sql)
      (hlex : s.lexer.lex sql = .ok us) : Inside s piece us

/-- A relation between conversions that is kept when these are put together. -/
structure Lifts (R : ∀ {α : Type}, ConvertM α → ConvertM α → Prop) : Prop where
  pure {α : Type} (a : α) : R (pure a) (pure a)
  modify (added : List Variable) : R (modify (· ++ added)) (modify (· ++ added))
  bind {α β : Type} {m m' : ConvertM α} {f f' : α → ConvertM β} (hm : R m m')
    (hf : ∀ a, R (f a) (f' a)) : R (m >>= f) (m' >>= f')

namespace Lifts

variable {R : ∀ {α : Type}, ConvertM α → ConvertM α → Prop} (hR : Lifts @R)
  {convert convert' : List Token → ConvertM Text} {t : Token} {ts : List Token}

include hR

theorem declare (s : Setting) (body : List Token) : R (declare s body) (declare s body) := by
  unfold Batch.declare
  split
  split
  · exact hR.pure _
  · exact hR.bind (hR.modify _) fun _ => hR.pure _

theorem exec {s : Setting} {body : List Token}
    (h : ∀ sql us, DynamicSql.stringArgument? body = some sql → s.lexer.lex sql = .ok us →
      R (convert us) (convert' us)) :
    R (exec s convert body) (exec s convert' body) := by
  unfold Batch.exec
  cases DynamicSql.variableArgument? body with
  | some name => exact hR.pure _
  | none =>
      cases hstring : DynamicSql.stringArgument? body with
      | none => exact hR.pure _
      | some sql =>
          cases hlex : s.lexer.lex sql with
          | ok us =>
              simp only [hlex]
              exact hR.bind (h sql us hstring hlex) fun _ => hR.pure _
          | error e =>
              simp only [hlex]
              exact hR.bind (hR.pure _) fun _ => hR.pure _

theorem branch (h : ∀ us, us <:+: ts → R (convert us) (convert' us)) :
    R (branch convert ts) (branch convert' ts) := by
  unfold Batch.branch
  by_cases hbegin : firstKeyword? ts = some .BEGIN
  · simp only [hbegin, if_true]
    cases ts with
    | nil => cases hbegin
    | cons t ts =>
        cases hblock : Statement.blockInside? (t :: ts) with
        | none => exact hR.pure _
        | some block =>
            obtain ⟨inner, n⟩ := block
            have hinner := (Statement.infix_of_blockInside? hblock).1
            have hcons : inner <:+: t :: ts := hinner.trans (List.suffix_cons t ts).isInfix
            exact hR.bind (h inner hcons) fun _ => hR.pure _
  · simp only [hbegin, if_false]
    exact hR.bind (h ts List.infix_rfl) fun _ => hR.pure _

theorem conditional (h : ∀ us, us <:+: ts → R (convert us) (convert' us)) (form : ConditionalForm) :
    R (conditional convert form (t :: ts)) (conditional convert' form (t :: ts)) := by
  have hfirst := Statement.infix_of_conditional t ts
  have hrest := Statement.suffix_of_conditional t ts
  unfold Batch.conditional
  dsimp only
  refine hR.bind (hR.branch fun us hus => h us (hus.trans hfirst)) fun first => ?_
  generalize (t :: ts).drop (Statement.conditionalLength (t :: ts)) = rest at hrest ⊢
  by_cases helse : firstKeyword? rest = some .ELSE
  · simp only [helse, if_true]
    have htail : (skipTrivia rest).tail <:+ ts :=
      ((List.tail_suffix _).trans (List.dropWhile_suffix _)).trans hrest
    refine hR.bind (hR.branch fun us hus => h us (hus.trans htail.isInfix)) fun text => ?_
    exact hR.bind (hR.pure _) fun _ => hR.pure _
  · simp only [helse, if_false]
    by_cases hend : isTerminator rest = true
    · simp only [hend, if_true]
      exact hR.bind (hR.pure _) fun _ => hR.pure _
    · simp only [hend]
      exact hR.bind (h rest hrest.isInfix) fun _ => hR.pure _

theorem block (h : ∀ us, us <:+: ts → R (convert us) (convert' us)) :
    R (block convert (t :: ts)) (block convert' (t :: ts)) := by
  unfold Batch.block
  cases hblock : Statement.blockInside? (t :: ts) with
  | none => exact hR.pure _
  | some block =>
      obtain ⟨inner, n⟩ := block
      obtain ⟨hinner, hrest⟩ := Statement.infix_of_blockInside? hblock
      dsimp only
      refine hR.bind (h inner hinner) fun text => ?_
      by_cases hend : isTerminator ((t :: ts).drop n) = true
      · simp only [hend, if_true]
        exact hR.bind (hR.pure _) fun _ => hR.pure _
      · simp only [hend]
        exact hR.bind (h _ hrest.isInfix) fun _ => hR.pure _

/-- Conversions that are related on what stands inside a piece are related on the piece. -/
theorem statement {s : Setting} {piece : List Token}
    (h : ∀ us, Inside s piece us → R (convert us) (convert' us)) :
    R (statement s convert piece) (statement s convert' piece) := by
  unfold Batch.statement
  cases hbody : skipTrivia piece with
  | nil => exact hR.pure _
  | cons t ts =>
      have hpart : ∀ us, us <:+: ts → R (convert us) (convert' us) := by
        intro us hus
        apply h us
        apply Inside.part
        rwa [hbody]
      have hdynamic : R (Batch.exec s convert (t :: ts)) (Batch.exec s convert' (t :: ts)) := by
        apply hR.exec
        intro sql us hstring hlex
        apply h us
        exact .dynamic (hbody ▸ hstring) hlex
      dsimp only
      split
      case h_2 => exact hR.bind hdynamic fun _ => hR.pure _
      case h_3 => exact hR.bind hdynamic fun _ => hR.pure _
      case h_4 => exact hR.bind (hR.declare s _) fun _ => hR.pure _
      case h_6 => exact hR.bind (hR.conditional hpart _) fun _ => hR.pure _
      case h_7 => exact hR.bind (hR.conditional hpart _) fun _ => hR.pure _
      case h_8 =>
          by_cases htransaction : opensTransaction ts = true
          · simp only [htransaction, if_true]
            exact hR.bind (hR.pure _) fun _ => hR.pure _
          · simp only [htransaction]
            exact hR.bind (hR.block hpart) fun _ => hR.pure _
      all_goals exact hR.bind (hR.pure _) fun _ => hR.pure _

end Lifts

/-- A property of conversions that is kept when these are put together. -/
structure Composes (P : ∀ {α : Type}, ConvertM α → Prop) : Prop where
  pure {α : Type} (a : α) : P (pure a)
  modify (added : List Variable) : P (modify (· ++ added))
  bind {α β : Type} {m : ConvertM α} {f : α → ConvertM β} (hm : P m) (hf : ∀ a, P (f a)) :
    P (m >>= f)

/-- Two conversions that are the same inside a piece, and have the property there, are the same on
the piece and have it as well. -/
theorem Composes.lifts {P : ∀ {α : Type}, ConvertM α → Prop} (hP : Composes @P) :
    Lifts fun m m' => m = m' ∧ P m where
  pure a := ⟨rfl, hP.pure a⟩
  modify added := ⟨rfl, hP.modify added⟩
  bind hm hf := by
    obtain ⟨rfl, hm⟩ := hm
    exact ⟨congrArg _ (funext fun a => (hf a).1), hP.bind hm fun a => (hf a).2⟩

end Batch

end SqlMigration
