import SqlMigration.Proofs.Expression.Arguments
import SqlMigration.Token.Lexer

/-! # Arguments by plain counting

A call of `CONVERT` or `DATEADD` passes over the calls inside it, with their parentheses and commas.
What it takes for its arguments and for its end is nevertheless what counting every parenthesis
gives, so that each token is emitted once.
-/

namespace SqlMigration

/-- What a token adds to the number of open parentheses. -/
def Token.depthChange (t : Token) : Int :=
  match t.kind with
  | .leftParen => 1
  | .rightParen => -1
  | _ => 0

/-- The tokens, each with the number of parentheses that are open before it: `depth` at the start,
and less than none after a parenthesis that closes nothing. -/
def withDepths (depth : Int) : List Token → List (Token × Int)
  | [] => []
  | t :: ts => (t, depth) :: withDepths (depth + t.depthChange) ts

/-- The tokens between the parenthesis at the head of the list and the one that closes it. A group
that never closes reaches to the end. -/
def groupTokens (ts : List Token) : List Token :=
  match closingParen? ts with
  | some n => (ts.take n).tail
  | none => ts.tail

namespace Expression

/-- Whether a token with its depth is a comma outside all parentheses. -/
def isOuterComma (p : Token × Int) : Bool := p.2 = 0 && p.1.kind = .comma

/-- The parts of the tokens between the commas outside parentheses, when `depth` are open at the
start. -/
def commaParts (depth : Int) (ts : List Token) : List (List Token) :=
  ((withDepths depth ts).splitOnP isOuterComma).map (List.map Prod.fst)

/-! ## The tokens of a group -/

theorem natCast_depthAfter {depth : Nat} {t : Token} (h : ¬(depth = 0 ∧ t.kind = .rightParen)) :
    (t.depthAfter depth : Int) = depth + t.depthChange := by
  by_cases hright : t.kind = .rightParen
  · have hpos : depth ≠ 0 := fun hzero => h ⟨hzero, hright⟩
    simp only [Token.depthAfter, Token.depthChange, hright]
    omega
  · by_cases hleft : t.kind = .leftParen
    · simp [Token.depthAfter, Token.depthChange, hleft]
    · simp [Token.depthAfter, Token.depthChange]

/-- The tokens in front of the parenthesis that closes the outermost of `depth` open ones. -/
def insideGroups (depth : Nat) (ts : List Token) : List Token :=
  ts.take ((closingParenFrom? depth ts).getD ts.length)

theorem groupTokens_cons {u : Token} (hu : u.kind = .leftParen) (inner : List Token) :
    groupTokens (u :: inner) = insideGroups 1 inner := by
  have hclosing : closingParen? (u :: inner) = (closingParenFrom? 1 inner).map (· + 1) := by
    simp [closingParen?, closingParenFrom?, hu]
  rw [groupTokens, insideGroups, hclosing]
  cases closingParenFrom? 1 inner <;> simp

theorem insideGroups_close {t : Token} (ts : List Token) (h : t.kind = .rightParen) :
    insideGroups 1 (t :: ts) = [] := by
  simp [insideGroups, closingParenFrom?, h]

theorem insideGroups_cons {depth : Nat} {t : Token} (ts : List Token)
    (h : ¬(depth = 0 ∧ t.kind = .rightParen)) :
    insideGroups (depth + 1) (t :: ts) = t :: insideGroups (t.depthAfter depth + 1) ts := by
  rw [insideGroups, insideGroups, closingParenFrom?_cons ts h]
  cases closingParenFrom? (t.depthAfter depth + 1) ts <;> simp

/-- No parenthesis in a group closes more than the group has opened. -/
theorem nonneg_of_mem_withDepths {depth : Nat} {ts : List Token} :
    ∀ p ∈ withDepths depth (insideGroups (depth + 1) ts), 0 ≤ p.2 := by
  induction ts generalizing depth with
  | nil => simp [insideGroups, withDepths]
  | cons t ts ih =>
      by_cases hclose : depth = 0 ∧ t.kind = .rightParen
      · obtain ⟨rfl, hright⟩ := hclose
        rw [insideGroups_close ts hright]
        simp [withDepths]
      · rw [insideGroups_cons ts hclose, withDepths, ← natCast_depthAfter hclose]
        exact List.forall_mem_cons.mpr ⟨Int.natCast_nonneg depth, ih⟩

theorem commaParts_cons (depth : Int) (t : Token) (ts : List Token) :
    commaParts depth (t :: ts) =
      if depth = 0 && t.kind = .comma then [] :: commaParts (depth + t.depthChange) ts
      else prependTokens [t] (commaParts (depth + t.depthChange) ts) := by
  rw [commaParts, withDepths, List.splitOnP_cons_eq_if_modifyHead, isOuterComma]
  split
  · rfl
  · rw [commaParts]
    cases hparts : (withDepths (depth + t.depthChange) ts).splitOnP isOuterComma with
    | nil => exact absurd hparts (List.splitOnP_ne_nil _ _)
    | cons part parts => rfl

/-- The scan for arguments, which stops at the end of its group, finds the parts between the commas
of the group. -/
theorem argumentTokens_eq_commaParts (depth : Nat) (ts : List Token) :
    argumentTokens depth ts = commaParts depth (insideGroups (depth + 1) ts) := by
  induction ts generalizing depth with
  | nil => rfl
  | cons t ts ih =>
      rw [argumentTokens]
      split
      · rename_i hclose
        obtain ⟨rfl, hright⟩ : depth = 0 ∧ t.kind = .rightParen := by simpa using hclose
        rw [insideGroups_close ts hright]
        rfl
      · rename_i hclose
        have hclose : ¬(depth = 0 ∧ t.kind = .rightParen) := by simpa using hclose
        rw [insideGroups_cons ts hclose, commaParts_cons, ← natCast_depthAfter hclose, ← ih]
        by_cases hcomma : depth = 0 ∧ t.kind = .comma
        · obtain ⟨rfl, hkind⟩ := hcomma
          simp [hkind, Token.depthAfter]
        · have hcomma' : ¬((depth : Int) = 0 ∧ t.kind = .comma) := by simpa using hcomma
          rw [if_neg (by simpa using hcomma), if_neg (by simpa using hcomma')]

/-! ## The counter -/

/-- The states of a scan for the arguments in `inner`: a counter of open parentheses that knows no
lower bound, and the tokens that are left. -/
inductive Scans (inner : List Token) : Int → List Token → Prop where
  | start : Scans inner 0 inner
  | comma {t : Token} {ts : List Token} (h : Scans inner 0 (t :: ts)) (ht : t.kind = .comma) :
      Scans inner 0 ts
  | token {depth : Int} {t : Token} {ts : List Token} (h : Scans inner depth (t :: ts))
      (hclose : ¬(depth = 0 ∧ t.kind = .rightParen)) (hcomma : ¬(depth = 0 ∧ t.kind = .comma)) :
      Scans inner (depth + t.depthChange) (ts.drop (emitHead t ts).2)

theorem length_drop_emitHead (t : Token) (ts : List Token) :
    (ts.drop (emitHead t ts).2).length + (emitHead t ts).2 = ts.length := by
  have hle : (emitHead t ts).2 ≤ ts.length := snd_emitHead t ts ▸ headLength_le t ts
  rw [List.length_drop, Nat.sub_add_cancel hle]

/-- The counter never goes below zero, and from each state the arguments are read to the same
end. -/
theorem Scans.nonneg {inner us : List Token} {depth : Int} (h : Scans inner depth us) :
    0 ≤ depth ∧
      (arguments 0 inner).2 + us.length = inner.length + (arguments depth.toNat us).2 := by
  induction h with
  | start => exact ⟨Int.le_refl 0, Nat.add_comm _ _⟩
  | @comma t ts h ht ih =>
      obtain ⟨-, hlen⟩ := ih
      refine ⟨Int.le_refl 0, ?_⟩
      rw [Int.toNat_zero, arguments, if_neg (by simp [ht]), if_pos (by simp [ht])] at hlen
      rw [List.length_cons] at hlen
      rw [Int.toNat_zero]
      dsimp only at hlen
      omega
  | @token depth t ts h hclose hcomma ih =>
      obtain ⟨hnonneg, hlen⟩ := ih
      obtain ⟨depth, rfl⟩ := Int.eq_ofNat_of_zero_le hnonneg
      have hclose : ¬(depth = 0 ∧ t.kind = .rightParen) := by simpa using hclose
      have hcomma : ¬(depth = 0 ∧ t.kind = .comma) := by simpa using hcomma
      have hdrop := length_drop_emitHead t ts
      have harguments : (arguments depth (t :: ts)).2 =
          (emitHead t ts).2 + 1 +
            (arguments (t.depthAfter depth) (ts.drop (emitHead t ts).2)).2 := by
        rw [arguments, if_neg (by simpa using hclose), if_neg (by simpa using hcomma)]
        rfl
      rw [← natCast_depthAfter hclose]
      refine ⟨Int.natCast_nonneg _, ?_⟩
      rw [Int.toNat_natCast, harguments, List.length_cons] at hlen
      rw [Int.toNat_natCast]
      omega

/-! ## Runs of tokens -/

/-- The tokens in runs that are emitted together: a call with its arguments, a qualifier with its
dot, or a single token. -/
def runs : List Token → List (List Token)
  | [] => []
  | t :: ts => (t :: ts.take (headLength t ts)) :: runs (ts.drop (headLength t ts))
  termination_by ts => ts.length
  decreasing_by simp only [List.length_drop, List.length_cons]; omega

/-- The text of a run by itself. -/
def runText : List Token → Text
  | [] => []
  | t :: rest => (emitHead t rest).1

theorem flatten_runs (ts : List Token) : (runs ts).flatten = ts := by
  fun_induction runs ts with
  | case1 => rfl
  | case2 t ts ih => rw [List.flatten_cons, ih, List.cons_append, List.take_append_drop]

theorem emit_eq_flatMap_runText (ts : List Token) : emit ts = (runs ts).flatMap runText := by
  fun_induction runs ts with
  | case1 => rw [emit, List.flatMap_nil]
  | case2 t ts ih =>
      rw [emit_cons, snd_emitHead, ih, List.flatMap_cons, runText, emitHead_take]

/-- A run is emitted to its end. -/
theorem snd_emitHead_of_mem_runs {t : Token} {ts rest : List Token} (h : t :: rest ∈ runs ts) :
    (emitHead t rest).2 = rest.length := by
  fun_induction runs ts with
  | case1 => cases h
  | case2 u us ih =>
      rcases List.mem_cons.mp h with h | h
      · obtain ⟨rfl, rfl⟩ := List.cons.inj h
        rw [emitHead_take, snd_emitHead, List.length_take_of_le (headLength_le t us)]
      · exact ih h

/-! ## Calls -/

theorem drop_nextSignificant (ts : List Token) (start : Nat) :
    ts.drop (nextSignificant ts start) = skipTrivia (ts.drop start) := by
  rw [nextSignificant, ← List.drop_drop, drop_triviaLength]

theorem exists_opening {ts : List Token} {start : Nat}
    (h : (ts[nextSignificant ts start]?).any fun u => u.kind = .leftParen) :
    ∃ u inner, skipTrivia (ts.drop start) = u :: inner ∧ u.kind = .leftParen := by
  rw [← List.head?_drop, drop_nextSignificant] at h
  cases hskip : skipTrivia (ts.drop start) with
  | nil => simp [hskip] at h
  | cons u inner => exact ⟨u, inner, rfl, by simpa [hskip] using h⟩

/-- The arguments of the call with the given name are the emitted parts between its commas, and it
ends where its parenthesis closes. -/
theorem callArguments?_eq_commaParts {ts : List Token} {name : Nat}
    (h : (ts[nextSignificant ts (name + 1)]?).any fun u => u.kind = .leftParen) :
    let opening := nextSignificant ts (name + 1)
    ∃ n, callArguments? (ts.drop (name + 1)) =
        some ((commaParts 0 (groupTokens (ts.drop opening))).map emit, n) ∧
      name + n = opening + groupEnd (ts.drop opening) := by
  intro opening
  obtain ⟨u, inner, hskip, hu⟩ := exists_opening h
  have hdrop : ts.drop opening = u :: inner := (drop_nextSignificant ts _).trans hskip
  have hend : (arguments 0 inner).2 = groupEnd (u :: inner) := by
    rw [snd_arguments, groupEnd_cons hu]
  refine ⟨triviaLength (ts.drop (name + 1)) + 1 + (arguments 0 inner).2, ?_, ?_⟩
  · rw [callArguments?_eq, hskip]
    simp only [hu, if_true]
    rw [fst_arguments, argumentTokens_eq_commaParts, hdrop, groupTokens_cons hu]
    rfl
  · rw [hdrop, hend]
    simp only [opening, nextSignificant]
    omega

theorem callAt_eq {render : List Text → Text} {ts : List Token} {name n : Nat} {args : List Text}
    (h : callArguments? (ts.drop (name + 1)) = some (args, n)) :
    callAt render ts name = (render args, name + n) := by
  rw [← List.drop_drop] at h
  rw [callAt]
  cases hdrop : ts.drop name with
  | nil =>
      rw [hdrop, List.drop_nil, callArguments?_nil] at h
      cases h
  | cons t rest =>
      rw [hdrop, List.drop_succ_cons, List.drop_zero] at h
      simp only [h]

/-- A call ends where plain counting closes its parenthesis, and its arguments are the emitted parts
between the commas there. The counter of open parentheses never goes below zero. Emitting a list
goes through it run by run, each emitted by itself and to its end, so that no token is left out or
emitted twice. -/
theorem callAt_eq_plain_counting {ts : List Token} {name : Nat}
    (h : (ts[nextSignificant ts (name + 1)]?).any fun u => u.kind = .leftParen) :
    let opening := nextSignificant ts (name + 1)
    let close := opening + groupEnd (ts.drop opening)
    let args := (commaParts 0 (groupTokens (ts.drop opening))).map emit
    (∃ n, callArguments? (ts.drop (name + 1)) = some (args, n) ∧ name + n = close) ∧
    castAt ts name = (castText args, close) ∧
    dateAddAt ts name = (dateAddText args, close) ∧
    (∀ p ∈ withDepths 0 (groupTokens (ts.drop opening)), 0 ≤ p.2) ∧
    (∀ inner depth us, Scans inner depth us → 0 ≤ depth ∧
      (arguments 0 inner).2 + us.length = inner.length + (arguments depth.toNat us).2) ∧
    (runs ts).flatten = ts ∧
    emit ts = (runs ts).flatMap runText ∧
    ∀ t rest, t :: rest ∈ runs ts → (emitHead t rest).2 = rest.length := by
  intro opening close args
  obtain ⟨n, hcall, hn⟩ := callArguments?_eq_commaParts h
  have hat (render : List Text → Text) : callAt render ts name = (render args, close) := by
    rw [callAt_eq hcall, hn]
  have hdepths : ∀ p ∈ withDepths 0 (groupTokens (ts.drop opening)), 0 ≤ p.2 := by
    obtain ⟨u, inner, hskip, hu⟩ := exists_opening h
    rw [drop_nextSignificant, hskip, groupTokens_cons hu]
    exact nonneg_of_mem_withDepths
  exact ⟨⟨n, hcall, hn⟩, hat castText, hat dateAddText, hdepths, fun _ _ _ => Scans.nonneg,
    flatten_runs ts, emit_eq_flatMap_runText ts, fun _ _ => snd_emitHead_of_mem_runs⟩

/-- A call with a closed call and a call that is never closed among its arguments. -/
theorem callAt_eq_plain_counting_nested :
    let ts := tokenize "DATEADD (day, CONVERT(int, f(1, 2)), CONVERT(date, x".toList
    (ts[nextSignificant ts 1]?).any (fun u => u.kind = .leftParen) ∧
      dateAddAt ts 0 = (dateAddText ((commaParts 0 (groupTokens (ts.drop 2))).map emit), 26) ∧
      (commaParts 0 (groupTokens (ts.drop 2))).map List.length = [1, 14, 7] ∧
      (runs ts).flatten = ts := by
  intro ts
  have hopen : (ts[nextSignificant ts 1]?).any fun u => u.kind = .leftParen := by decide +kernel
  obtain ⟨-, -, hdate, -, -, hruns, -⟩ := callAt_eq_plain_counting hopen
  have hopening : nextSignificant ts 1 = 2 := by decide +kernel
  have hclose : 2 + groupEnd (ts.drop 2) = 26 := by decide +kernel
  rw [hopening, hclose] at hdate
  exact ⟨hopen, hdate, by decide +kernel, hruns⟩

end Expression

end SqlMigration
