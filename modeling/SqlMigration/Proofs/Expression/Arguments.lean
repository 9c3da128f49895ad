import SqlMigration.Proofs.Expression.Call

/-! # The tokens of arguments

The text of an argument is the emitted text of its tokens, which counting parentheses and commas
finds.
-/

namespace SqlMigration.Expression

/-- Puts tokens in front of the first argument. -/
def prependTokens (us : List Token) : List (List Token) → List (List Token)
  | [] => [us]
  | arg :: args => (us ++ arg) :: args

/-- The tokens between the commas of an argument list, when `depth` parentheses are open inside
it. -/
def argumentTokens (depth : Nat) : List Token → List (List Token)
  | [] => [[]]
  | t :: ts =>
      if depth = 0 && t.kind = .rightParen then [[]]
      else if depth = 0 && t.kind = .comma then [] :: argumentTokens 0 ts
      else prependTokens [t] (argumentTokens (t.depthAfter depth) ts)

/-- The tokens of the arguments of a call whose name stands before `ts`. -/
def callTokens (ts : List Token) : List (List Token) :=
  match skipTrivia ts with
  | [] => []
  | u :: inner => if u.kind = .leftParen then argumentTokens 0 inner else []

/-- The tokens of the arguments of the call that `t` starts, if it starts one. -/
def headTokens (t : Token) (ts : List Token) : List (List Token) :=
  if t.is .CONVERT || t.isWord "dateadd" then callTokens ts else []

theorem prependTokens_append (us vs : List Token) (args : List (List Token)) :
    prependTokens (us ++ vs) args = prependTokens us (prependTokens vs args) := by
  cases args <;> simp [prependTokens]

theorem prependTokens_ne_nil (us : List Token) (args : List (List Token)) :
    prependTokens us args ≠ [] := by
  cases args <;> simp [prependTokens]

theorem argumentTokens_ne_nil (depth : Nat) (ts : List Token) : argumentTokens depth ts ≠ [] := by
  cases ts with
  | nil => simp [argumentTokens]
  | cons t ts =>
      unfold argumentTokens
      split
      · simp
      split
      · simp
      · exact prependTokens_ne_nil _ _

theorem prependTokens_nil {args : List (List Token)} (h : args ≠ []) :
    prependTokens [] args = args := by
  cases args with
  | nil => exact absurd rfl h
  | cons arg args => rfl

/-- The first argument is a start of the tokens, and the others are parts of them. -/
theorem isPrefix_argumentTokens {depth : Nat} {ts arg : List Token} {args : List (List Token)}
    (h : argumentTokens depth ts = arg :: args) : arg <+: ts ∧ ∀ us ∈ args, us <:+: ts := by
  induction ts generalizing depth arg args with
  | nil =>
      cases h
      exact ⟨List.prefix_refl [], by simp⟩
  | cons t ts ih =>
      unfold argumentTokens at h
      split at h
      · cases h
        exact ⟨List.nil_prefix, by simp⟩
      split at h
      · cases h
        refine ⟨List.nil_prefix, ?_⟩
        obtain ⟨first, rest, heq⟩ := List.exists_cons_of_ne_nil (argumentTokens_ne_nil 0 ts)
        obtain ⟨hfirst, hrest⟩ := ih heq
        rw [heq]
        exact List.forall_mem_cons.mpr
          ⟨List.infix_cons hfirst.isInfix, fun us hus => List.infix_cons (hrest us hus)⟩
      · obtain ⟨first, rest, heq⟩ :=
          List.exists_cons_of_ne_nil (argumentTokens_ne_nil (t.depthAfter depth) ts)
        obtain ⟨hfirst, hrest⟩ := ih heq
        rw [heq] at h
        cases h
        exact ⟨(List.prefix_cons_inj t).mpr hfirst, fun us hus => List.infix_cons (hrest us hus)⟩

theorem isInfix_of_mem_callTokens {ts arg : List Token} (h : arg ∈ callTokens ts) :
    arg <:+: ts ∧ arg.length < ts.length := by
  unfold callTokens at h
  split at h
  · cases h
  · rename_i u inner hskip
    split at h
    · obtain ⟨gap, rfl, -⟩ := eq_append_of_skipTrivia hskip
      obtain ⟨first, rest, heq⟩ := List.exists_cons_of_ne_nil (argumentTokens_ne_nil 0 inner)
      obtain ⟨hfirst, hrest⟩ := isPrefix_argumentTokens heq
      have hinner : arg <:+: inner := by
        rw [heq] at h
        rcases List.mem_cons.mp h with rfl | h
        · exact hfirst.isInfix
        · exact hrest arg h
      have hlength := hinner.length_le
      refine ⟨hinner.trans ?_, ?_⟩
      · exact ((List.suffix_cons u inner).trans (List.suffix_append gap _)).isInfix
      · rw [List.length_append, List.length_cons]
        omega
    · cases h

theorem isInfix_of_mem_headTokens {t : Token} {ts arg : List Token} (h : arg ∈ headTokens t ts) :
    arg <:+: ts ∧ arg.length < ts.length := by
  unfold headTokens at h
  split at h
  · exact isInfix_of_mem_callTokens h
  · cases h

/-! ## Passing over calls -/

theorem argumentTokens_cons {depth : Nat} {t : Token} {ts : List Token}
    (hright : depth = 0 → t.kind ≠ .rightParen) (hcomma : depth = 0 → t.kind ≠ .comma) :
    argumentTokens depth (t :: ts) =
      prependTokens [t] (argumentTokens (t.depthAfter depth) ts) := by
  rw [argumentTokens, if_neg (by simpa using hright), if_neg (by simpa using hcomma)]

theorem argumentTokens_trivia (depth : Nat) {gap : List Token} (hgap : ∀ t ∈ gap, t.isTrivia)
    (ts : List Token) :
    argumentTokens depth (gap ++ ts) = prependTokens gap (argumentTokens depth ts) := by
  induction gap with
  | nil => exact (prependTokens_nil (argumentTokens_ne_nil depth ts)).symm
  | cons t gap ih =>
      obtain ⟨ht, hgap⟩ := List.forall_mem_cons.mp hgap
      have hkind (k : Kind) (hk : k.isTrivia = false) : t.kind ≠ k := by
        rintro rfl
        simp [Token.isTrivia, hk] at ht
      rw [List.cons_append, argumentTokens_cons (fun _ => hkind _ rfl) (fun _ => hkind _ rfl),
        depthAfter_of_isTrivia ht, ih hgap, ← prependTokens_append]
      rfl

/-- A group is passed over up to the parenthesis that closes it. -/
theorem argumentTokens_group (depth inner : Nat) (ts : List Token) :
    argumentTokens (depth + inner + 1) ts =
      prependTokens (ts.take (((closingParenFrom? (inner + 1) ts).map (· + 1)).getD ts.length))
        (argumentTokens depth
          (ts.drop (((closingParenFrom? (inner + 1) ts).map (· + 1)).getD ts.length))) := by
  induction ts generalizing inner with
  | nil => rfl
  | cons t ts ih =>
      rw [argumentTokens_cons (fun h => by omega) (fun h => by omega)]
      by_cases hclose : inner = 0 ∧ t.kind = .rightParen
      · obtain ⟨rfl, hkind⟩ := hclose
        have hdepth : t.depthAfter (depth + 0 + 1) = depth := by simp [Token.depthAfter, hkind]
        simp [hdepth, closingParenFrom?, hkind]
      · have hdepth : t.depthAfter (depth + inner + 1) = depth + t.depthAfter inner + 1 := by
          unfold Token.depthAfter
          split
          · omega
          · rename_i hkind
            have : inner ≠ 0 := fun h => hclose ⟨h, hkind⟩
            omega
          · rfl
        rw [hdepth, ih, closingParenFrom?_cons ts hclose, ← prependTokens_append]
        cases closingParenFrom? (t.depthAfter inner + 1) ts <;> rfl

theorem argumentTokens_callLength (depth : Nat) (ts : List Token) :
    argumentTokens depth ts =
      prependTokens (ts.take (callLength ts)) (argumentTokens depth (ts.drop (callLength ts))) := by
  have hnone := (prependTokens_nil (argumentTokens_ne_nil depth ts)).symm
  unfold callLength
  split
  · exact hnone
  · rename_i u rest hskip
    split
    · rename_i hu
      obtain ⟨gap, rfl, hgap, hlen, -⟩ := eq_append_of_skipTrivia hskip
      have hdepth : u.depthAfter depth = depth + 0 + 1 := by simp [Token.depthAfter, hu]
      have hgroup := argumentTokens_group depth 0 rest
      rw [hlen, take_gap, drop_gap, groupEnd_cons hu, argumentTokens_trivia depth hgap,
        argumentTokens_cons (by simp [hu]) (by simp [hu]), hdepth, hgroup, prependTokens_append gap]
      exact congrArg (prependTokens gap) (prependTokens_append [u] _ _).symm
    · exact hnone

/-- The tokens that the text of `t` covers belong to the same argument as `t`. -/
theorem argumentTokens_headLength (depth : Nat) (t : Token) (ts : List Token) :
    argumentTokens depth ts = prependTokens (ts.take (headLength t ts))
      (argumentTokens depth (ts.drop (headLength t ts))) := by
  unfold headLength
  split
  · exact argumentTokens_callLength depth ts
  split
  · rename_i hdbo
    obtain ⟨d, rest, rfl, hdot⟩ := eq_cons_of_startsWithDbo hdbo
    have hdepth : d.depthAfter depth = depth := by simp [Token.depthAfter, hdot]
    rw [argumentTokens_cons (by simp [hdot]) (by simp [hdot]), hdepth]
    rfl
  · exact (prependTokens_nil (argumentTokens_ne_nil depth ts)).symm

/-! ## The text of an argument -/

theorem groupEnd_append_of_le {u : Token} {ts us : List Token} (hu : u.kind = .leftParen)
    (h : groupEnd (u :: (ts ++ us)) ≤ ts.length) :
    groupEnd (u :: (ts ++ us)) = groupEnd (u :: ts) := by
  rw [groupEnd_cons hu] at h ⊢
  rw [groupEnd_cons hu]
  cases hclose : closingParenFrom? 1 (ts ++ us) with
  | none =>
      have hus : us = [] := by
        rw [hclose, Option.map_none, Option.getD_none, List.length_append] at h
        exact List.eq_nil_of_length_eq_zero (by omega)
      rw [hus, List.append_nil] at hclose ⊢
      simp [hclose]
  | some i =>
      rw [hclose] at h
      rw [(closingParenFrom?_append_iff us h).mp hclose]
      rfl

theorem callLength_of_isPrefix {ts us : List Token} (h : us <+: ts)
    (hle : callLength ts ≤ us.length) : callLength us = callLength ts := by
  obtain ⟨rest, rfl⟩ := h
  have hlen := triviaLength_add_length_skipTrivia us
  cases hskip : skipTrivia us with
  | nil =>
      have htrivia : us.length ≤ triviaLength (us ++ rest) := by
        rw [hskip] at hlen
        have hall : ∀ t ∈ us, t.isTrivia := by simpa [skipTrivia] using hskip
        rw [triviaLength, List.takeWhile_append_of_pos hall, List.length_append]
        exact Nat.le_add_right _ _
      unfold callLength at hle ⊢
      cases hskip' : skipTrivia (us ++ rest) with
      | nil => simp only [hskip]
      | cons u inner =>
          simp only [hskip'] at hle
          by_cases hu : u.kind = .leftParen
          · rw [if_pos hu] at hle
            omega
          · simp only [hskip, hu, if_false]
  | cons u inner =>
      have hne : skipTrivia us ≠ [] := by simp [hskip]
      unfold callLength at hle ⊢
      rw [skipTrivia_append rest hne, triviaLength_append rest hne, hskip,
        List.cons_append] at hle ⊢
      rw [hskip, List.length_cons] at hlen
      by_cases hu : u.kind = .leftParen
      · simp only [hu, if_true] at hle ⊢
        rw [groupEnd_append_of_le hu (by omega)]
      · simp only [hu, if_false]

theorem headLength_of_isPrefix {t : Token} {ts us : List Token} (h : us <+: ts)
    (hle : headLength t ts ≤ us.length) : headLength t us = headLength t ts := by
  unfold headLength at hle ⊢
  split
  · rename_i hcall
    rw [if_pos hcall] at hle
    exact callLength_of_isPrefix h hle
  · rename_i hcall
    rw [if_neg hcall] at hle
    obtain ⟨rest, rfl⟩ := h
    cases us with
    | nil =>
        have hdbo : ¬ startsWithDbo (t :: ([] ++ rest)) := by
          intro hdbo
          rw [if_pos hdbo] at hle
          cases hle
        rw [if_neg hdbo]
        rfl
    | cons u us => rfl

/-- The text of a token is the same whatever follows the tokens that it covers. -/
theorem emitHead_of_isPrefix {t : Token} {ts us : List Token} (h : us <+: ts)
    (hle : headLength t ts ≤ us.length) : emitHead t us = emitHead t ts := by
  have htake : us.take (headLength t ts) = ts.take (headLength t ts) := by
    obtain ⟨rest, rfl⟩ := h
    rw [List.take_append_of_le_length hle]
  rw [← emitHead_take t us, ← emitHead_take t ts, headLength_of_isPrefix h hle, htake]

theorem emit_cons (t : Token) (ts : List Token) :
    emit (t :: ts) = (emitHead t ts).1 ++ emit (ts.drop (emitHead t ts).2) := by
  rw [emit]

theorem fst_arguments (depth : Nat) (ts : List Token) :
    (arguments depth ts).1 = (argumentTokens depth ts).map emit := by
  induction hn : ts.length using Nat.strongRecOn generalizing depth ts with
  | ind n ih =>
      cases ts with
      | nil => simp [arguments, argumentTokens, emit]
      | cons t ts =>
          rw [arguments, argumentTokens]
          split
          · simp [emit]
          split
          · simp [emit, ih ts.length (by simp at hn; omega) 0 ts rfl]
          · change prepend (emitHead t ts).1
              (arguments (t.depthAfter depth) (ts.drop (emitHead t ts).2)).1 = _
            rw [snd_emitHead, ih _ (by simp at hn ⊢; omega) _ _ rfl,
              argumentTokens_headLength (t.depthAfter depth) t ts]
            obtain ⟨arg, args, heq⟩ := List.exists_cons_of_ne_nil
              (argumentTokens_ne_nil (t.depthAfter depth) (ts.drop (headLength t ts)))
            have hle := headLength_le t ts
            have hlen : (ts.take (headLength t ts)).length = headLength t ts :=
              List.length_take_of_le hle
            have hpart : ts.take (headLength t ts) ++ arg <+: ts := by
              have harg := (List.prefix_append_right_inj (ts.take (headLength t ts))).mpr
                (isPrefix_argumentTokens heq).1
              rwa [List.take_append_drop] at harg
            have hhead : emitHead t (ts.take (headLength t ts) ++ arg) = emitHead t ts :=
              emitHead_of_isPrefix hpart (by rw [List.length_append]; omega)
            have hdrop : (ts.take (headLength t ts) ++ arg).drop (headLength t ts) = arg :=
              List.drop_left' hlen
            rw [heq, List.map_cons, prepend, prependTokens, prependTokens, List.map_cons,
              List.singleton_append, emit_cons, hhead, snd_emitHead, hdrop]

/-- The texts of the arguments of a call are the emitted texts of their tokens. -/
theorem eq_map_of_callArguments? {ts : List Token} {args : List Text} {n : Nat}
    (h : callArguments? ts = some (args, n)) : args = (callTokens ts).map emit := by
  rw [callArguments?_eq] at h
  unfold callTokens
  cases hskip : skipTrivia ts with
  | nil => simp [hskip] at h
  | cons u inner =>
      simp only [hskip] at h ⊢
      by_cases hu : u.kind = .leftParen
      · rw [if_pos hu] at h ⊢
        cases h
        exact fst_arguments 0 inner
      · rw [if_neg hu] at h
        cases h

end SqlMigration.Expression
