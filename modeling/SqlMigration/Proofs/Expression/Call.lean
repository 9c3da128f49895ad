import SqlMigration.Expression.Basic
import SqlMigration.Proofs.Token.Nesting

/-! # The extent of calls

A token covers the tokens that counting parentheses gives for it, and its text depends on these
alone.
-/

namespace SqlMigration.Expression

/-- The number of tokens of the arguments of a call whose name stands before `ts`, with their
parentheses, by counting parentheses. -/
def callLength (ts : List Token) : Nat :=
  match skipTrivia ts with
  | [] => 0
  | u :: rest => if u.kind = .leftParen then triviaLength ts + 1 + groupEnd (u :: rest) else 0

theorem callLength_le (ts : List Token) : callLength ts ≤ ts.length := by
  have hlen := triviaLength_add_length_skipTrivia ts
  unfold callLength
  split
  · exact Nat.zero_le _
  · rename_i u rest hskip
    rw [hskip, List.length_cons] at hlen
    split
    · rename_i hu
      have hle := groupEnd_cons_le hu rest
      omega
    · exact Nat.zero_le _

/-- A call opens and closes its own parentheses, so that counting may pass it over. -/
theorem closingParenFrom?_drop_callLength (depth : Nat) (ts : List Token) :
    closingParenFrom? (depth + 1) ts =
      (closingParenFrom? (depth + 1) (ts.drop (callLength ts))).map (· + callLength ts) := by
  unfold callLength
  split
  · simp
  · rename_i u rest hskip
    obtain ⟨gap, rfl, hgap, hlen, -⟩ := eq_append_of_skipTrivia hskip
    split
    · rename_i hu
      rw [hlen, groupEnd_cons hu, drop_gap, closingParenFrom?_trivia_append _ hgap,
        closingParenFrom?_cons_left hu, closingParenFrom?_add]
      cases hclose : closingParenFrom? 1 rest with
      | none => simp [closingParenFrom?]
      | some i =>
          have hsum (j : Nat) : j + (i + 1) + 1 + gap.length = j + (gap.length + 1 + (i + 1)) := by
            omega
          simp [Function.comp_def, hsum]
    · simp

/-- The number of tokens after `t` that its text covers, by counting parentheses. -/
def headLength (t : Token) (ts : List Token) : Nat :=
  if t.is .CONVERT || t.isWord "dateadd" then callLength ts
  else if startsWithDbo (t :: ts) then 1
  else 0

theorem headLength_le (t : Token) (ts : List Token) : headLength t ts ≤ ts.length := by
  unfold headLength
  split
  · exact callLength_le ts
  · split
    · rename_i hdbo
      obtain ⟨d, rest, rfl, -⟩ := eq_cons_of_startsWithDbo hdbo
      exact Nat.le_add_left 1 _
    · exact Nat.zero_le _

/-- Counting may pass over the tokens that a text covers. -/
theorem closingParenFrom?_drop_headLength (depth : Nat) (t : Token) (ts : List Token) :
    closingParenFrom? (depth + 1) ts =
      (closingParenFrom? (depth + 1) (ts.drop (headLength t ts))).map (· + headLength t ts) := by
  unfold headLength
  split
  · exact closingParenFrom?_drop_callLength depth ts
  · split
    · rename_i hdbo
      obtain ⟨d, rest, rfl, hd⟩ := eq_cons_of_startsWithDbo hdbo
      exact closingParenFrom?_cons_of_ne rest (by simp [hd]) (by simp [hd])
    · simp

theorem callArguments?_eq (ts : List Token) :
    callArguments? ts =
      match skipTrivia ts with
      | [] => none
      | u :: inner =>
          if u.kind = .leftParen then
            some ((arguments 0 inner).1, triviaLength ts + 1 + (arguments 0 inner).2)
          else none := by
  rw [callArguments?]
  split <;> rename_i h <;> rw [h]

mutual

theorem snd_emitHead (t : Token) (ts : List Token) : (emitHead t ts).2 = headLength t ts := by
  have hcall := elim_callArguments? ts
  rw [emitHead, headLength]
  split
  · rename_i hconvert
    rw [if_pos (by simp [hconvert])]
    split <;> simp_all
  · rename_i hconvert
    split
    · rename_i hword
      rw [if_pos (by simp [hword])]
      split <;> simp_all
    · rename_i hword
      have hcall : (t.is .CONVERT || t.isWord "dateadd") = false := by simp [hconvert, hword]
      simp only [hcall, Bool.false_eq_true, if_false]
      split <;> rfl
  termination_by (ts.length, 2)

theorem elim_callArguments? (ts : List Token) :
    (callArguments? ts).elim 0 Prod.snd = callLength ts := by
  rw [callArguments?_eq, callLength]
  split
  · rfl
  · rename_i u inner hskip
    have hlt : inner.length < ts.length := by
      have hle := length_skipTrivia_le ts
      rw [hskip] at hle
      exact hle
    split
    · rename_i hu
      rw [groupEnd_cons hu, ← snd_arguments 0 inner]
      rfl
    · rfl
  termination_by (ts.length, 1)

theorem snd_arguments (depth : Nat) (ts : List Token) :
    (arguments depth ts).2 = ((closingParenFrom? (depth + 1) ts).map (· + 1)).getD ts.length := by
  cases ts with
  | nil =>
      rw [arguments]
      rfl
  | cons t ts =>
      rw [arguments]
      split
      · rename_i hclose
        obtain ⟨rfl, hkind⟩ : depth = 0 ∧ t.kind = .rightParen := by simpa using hclose
        simp [closingParenFrom?, hkind]
      · rename_i hclose
        split
        · rename_i hcomma
          obtain ⟨rfl, hkind⟩ : depth = 0 ∧ t.kind = .comma := by simpa using hcomma
          have hrest := snd_arguments 0 ts
          rw [closingParenFrom?_cons_of_ne _ (by simp [hkind]) (by simp [hkind])]
          simp only [hrest]
          cases closingParenFrom? (0 + 1) ts <;> simp
        · have hstep := closingParenFrom?_cons ts (by simpa using hclose)
          have hlen := snd_emitHead t ts
          have hle := headLength_le t ts
          have hrest := snd_arguments (t.depthAfter depth) (ts.drop (emitHead t ts).2)
          rw [hstep, closingParenFrom?_drop_headLength _ t ts]
          change (emitHead t ts).2 + 1 +
            (arguments (t.depthAfter depth) (ts.drop (emitHead t ts).2)).2 = _
          rw [hrest, hlen]
          cases closingParenFrom? (t.depthAfter depth + 1) (ts.drop (headLength t ts)) with
          | none => simp; omega
          | some i => simp; omega
  termination_by (ts.length, 0)
  decreasing_by
    all_goals
      apply Prod.Lex.left
      simp only [List.length_drop, List.length_cons]
      omega

end

mutual

theorem emitHead_append (t : Token) (ts us : List Token) {depth : Nat}
    (h : (closingParenFrom? (depth + 1) ts).isSome) : emitHead t (ts ++ us) = emitHead t ts := by
  have hcall := callArguments?_append ts us h
  have hdbo : startsWithDbo (t :: (ts ++ us)) = startsWithDbo (t :: ts) := by
    cases ts with
    | nil => cases h
    | cons u ts => rfl
  rw [emitHead, emitHead, hcall, hdbo]
  termination_by (ts.length, 2)

theorem callArguments?_append (ts us : List Token) {depth : Nat}
    (h : (closingParenFrom? (depth + 1) ts).isSome) :
    callArguments? (ts ++ us) = callArguments? ts := by
  have hne := skipTrivia_ne_nil_of_closing h
  obtain ⟨u, inner, hskip⟩ := List.exists_cons_of_ne_nil hne
  obtain ⟨gap, hts, hgap, -, -⟩ := eq_append_of_skipTrivia hskip
  have hlt : inner.length < ts.length := by
    rw [hts, List.length_append, List.length_cons]
    omega
  rw [callArguments?_eq, callArguments?_eq, skipTrivia_append us hne, triviaLength_append us hne,
    hskip]
  simp only [List.cons_append]
  split
  · rename_i hu
    have hinner : (closingParenFrom? (0 + 1) inner).isSome := by
      rw [hts, closingParenFrom?_trivia_append _ hgap, Option.isSome_map,
        closingParenFrom?_cons_left hu, Option.isSome_map, closingParenFrom?_add] at h
      exact Option.isSome_of_isSome_bind h
    rw [arguments_append 0 inner us hinner]
  · rfl
  termination_by (ts.length, 1)

theorem arguments_append (depth : Nat) (ts us : List Token)
    (h : (closingParenFrom? (depth + 1) ts).isSome) :
    arguments depth (ts ++ us) = arguments depth ts := by
  match ts, h with
  | t :: ts, h =>
      rw [List.cons_append, arguments, arguments]
      split
      · rfl
      · rename_i hclose
        rw [closingParenFrom?_cons ts (by simpa using hclose), Option.isSome_map] at h
        split
        · rename_i hcomma
          obtain ⟨rfl, hkind⟩ : depth = 0 ∧ t.kind = .comma := by simpa using hcomma
          rw [Token.depthAfter, hkind] at h
          rw [arguments_append 0 ts us h]
        · have hhead := emitHead_append t ts us h
          have hle : (emitHead t ts).2 ≤ ts.length := snd_emitHead t ts ▸ headLength_le t ts
          rw [closingParenFrom?_drop_headLength _ t, Option.isSome_map, ← snd_emitHead] at h
          have hrest := arguments_append (t.depthAfter depth) (ts.drop (emitHead t ts).2) us h
          rw [← List.drop_append_of_le_length hle] at hrest
          simp only [hhead]
          exact congrArg (fun rest : List Text × Nat =>
            (prepend (emitHead t ts).1 rest.1, (emitHead t ts).2 + 1 + rest.2)) hrest
  termination_by (ts.length, 0)
  decreasing_by
    all_goals
      apply Prod.Lex.left
      simp only [List.length_drop, List.length_cons]
      omega

end

theorem callArguments?_nil : callArguments? [] = none := by
  rw [callArguments?_eq]
  rfl

theorem callArguments?_take (ts : List Token) :
    callArguments? (ts.take (callLength ts)) = callArguments? ts := by
  rw [callArguments?_eq ts, callLength]
  split
  · exact callArguments?_nil
  · rename_i u inner hskip
    obtain ⟨gap, rfl, hgap, hlen, hu⟩ := eq_append_of_skipTrivia hskip
    split
    · rename_i hleft
      have harguments :
          arguments 0 (inner.take (((closingParenFrom? 1 inner).map (· + 1)).getD inner.length)) =
            arguments 0 inner := by
        cases hclose : closingParenFrom? 1 inner with
        | none => simp
        | some i =>
            have hi : i < (inner.take (i + 1)).length := by
              have := closingParenFrom?_lt hclose
              rw [List.length_take]
              omega
            have hsome : closingParenFrom? (0 + 1) (inner.take (i + 1)) = some i := by
              rwa [← closingParenFrom?_append_iff (inner.drop (i + 1)) hi, List.take_append_drop]
            have happend := arguments_append 0 (inner.take (i + 1)) (inner.drop (i + 1))
              (by rw [hsome]; rfl)
            rw [List.take_append_drop] at happend
            exact happend.symm
      rw [hlen, groupEnd_cons hleft, take_gap, callArguments?_eq, skipTrivia_gap _ hgap hu,
        triviaLength_gap _ hgap hu]
      simp only [hleft, if_true, harguments]
    · exact callArguments?_nil

/-- The text of a token depends on the tokens that it covers and on no others. -/
theorem emitHead_take (t : Token) (ts : List Token) :
    emitHead t (ts.take (headLength t ts)) = emitHead t ts := by
  rw [emitHead, emitHead, headLength]
  split
  · rename_i hconvert
    simp only [hconvert, Bool.true_or, if_true, callArguments?_take]
  · rename_i hconvert
    split
    · rename_i hword
      simp only [hword, Bool.or_true, if_true, callArguments?_take]
    · rename_i hword
      have hcall : (t.is .CONVERT || t.isWord "dateadd") = false := by simp [hconvert, hword]
      simp only [hcall, Bool.false_eq_true, if_false]
      cases hdbo : startsWithDbo (t :: ts) with
      | false => rfl
      | true =>
          obtain ⟨d, rest, rfl, -⟩ := eq_cons_of_startsWithDbo hdbo
          have htake : startsWithDbo (t :: (d :: rest).take 1) = true := hdbo
          simp only [if_true, htake]

/-- Without calls and qualifiers, each token is emitted by itself. -/
theorem emit_eq_flatMap_tokenText {ts : List Token}
    (h : ∀ t ∈ ts, t.is .CONVERT = false ∧ t.isWord "dateadd" = false ∧ t.isWord "dbo" = false) :
    emit ts = ts.flatMap tokenText := by
  induction ts with
  | nil => simp [emit]
  | cons t ts ih =>
      obtain ⟨⟨hconvert, hdate, hdbo⟩, hts⟩ := List.forall_mem_cons.mp h
      have hstart : startsWithDbo (t :: ts) = false := by
        cases ts <;> simp [startsWithDbo, hdbo]
      have hhead : emitHead t ts = (tokenText t, 0) := by
        simp [emitHead, hconvert, hdate, hstart]
      simp [emit, hhead, ih hts]

/-- Whether a token starts neither a call nor a qualifier. -/
def isPlainToken (t : Token) : Bool :=
  !t.is .CONVERT && !t.isWord "dateadd" && !t.isWord "dbo"

theorem emit_of_isPlainToken {ts : List Token} (h : ts.all isPlainToken) :
    emit ts = ts.flatMap tokenText := by
  refine emit_eq_flatMap_tokenText fun t ht => ?_
  simpa [isPlainToken, and_assoc] using List.all_eq_true.mp h t ht

/-! ## Closed calls -/

theorem callLength_append_trivia {gap : List Token} (hgap : ∀ t ∈ gap, t.isTrivia)
    {depth : Nat} {ts : List Token} (h : openAfter depth ts = 0) :
    callLength (ts ++ gap) = callLength ts := by
  unfold callLength
  cases hskip : skipTrivia ts with
  | nil => rw [skipTrivia_append_trivia hgap hskip]
  | cons u rest =>
      have hne : skipTrivia ts ≠ [] := by simp [hskip]
      rw [skipTrivia_append gap hne, triviaLength_append gap hne, hskip, List.cons_append]
      rw [openAfter_of_skipTrivia depth hskip] at h
      by_cases hu : u.kind = .leftParen
      · simp only [Token.depthAfter, hu] at h
        simp only [hu, if_true, groupEnd_append hu h gap]
      · simp only [hu, if_false]

theorem openAfter_drop_callLength {depth : Nat} {ts : List Token} (h : openAfter depth ts = 0) :
    openAfter depth (ts.drop (callLength ts)) = 0 := by
  unfold callLength
  split
  · exact h
  · rename_i u rest hskip
    split
    · rename_i hu
      obtain ⟨gap, rfl, hgap, hlen, -⟩ := eq_append_of_skipTrivia hskip
      rw [openAfter_of_skipTrivia depth hskip] at h
      simp only [Token.depthAfter, hu] at h
      obtain ⟨i, -, hend, hrest⟩ := exists_groupEnd hu h
      rwa [hlen, drop_gap, hend]
    · exact h

end SqlMigration.Expression
