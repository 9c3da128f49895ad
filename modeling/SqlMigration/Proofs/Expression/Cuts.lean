import SqlMigration.Proofs.Declaration.Recovery
import SqlMigration.Proofs.Expression.Arguments
import SqlMigration.Proofs.Expression.Ending

/-! # Cutting an expression in two

What is emitted for a token depends on the tokens after it where these are the arguments of a call
or the dot of a qualifier. Main statement: a list can be cut where all parentheses before the cut
are matched and where neither the name of a call nor a qualifier stands right before it. Then what
is emitted for the whole is what is emitted for the two parts.
-/

namespace SqlMigration

/-! ## Matched parentheses -/

namespace Grammar

variable {ts inner : List Token}

/-- Every opening parenthesis of the tokens is matched by a closing one further on. -/
def AllMatched (ts : List Token) : Prop :=
  ∀ before l after, ts = before ++ l :: after → l.kind = .leftParen →
    ∃ inner r rest, after = inner ++ r :: rest ∧ r.kind = .rightParen ∧ Matched inner

theorem AllMatched.of_isSuffix {us : List Token} (h : AllMatched ts) (hus : us <:+ ts) :
    AllMatched us := by
  obtain ⟨front, rfl⟩ := hus
  intro before l after heq
  exact h (front ++ before) l after (by rw [heq, List.append_assoc])

/-- Counting parentheses passes over tokens in which they match. -/
theorem closingParenFrom?_matched (h : Matched inner) (depth : Nat) (rest : List Token) :
    closingParenFrom? (depth + 1) (inner ++ rest) =
      (closingParenFrom? (depth + 1) rest).map (· + inner.length) := by
  induction h generalizing depth rest with
  | nil => simp
  | token hleft hright h ih =>
      rw [List.cons_append, closingParenFrom?_cons_of_ne _ hleft hright, ih, Option.map_map]
      rfl
  | @group l r inner ts hl hinner hr h ih ih' =>
      have hclose (us : List Token) : closingParenFrom? (depth + 1 + 1) (r :: us) =
          (closingParenFrom? (depth + 1) us).map (· + 1) := by
        simp [closingParenFrom?, hr]
      have hopen (us : List Token) : closingParenFrom? (depth + 1) (l :: us) =
          (closingParenFrom? (depth + 1 + 1) us).map (· + 1) := by
        simp [closingParenFrom?, hl]
      rw [List.cons_append, List.append_assoc, List.cons_append, hopen, ih, hclose, ih',
        Option.map_map, Option.map_map, Option.map_map]
      congr 1
      funext n
      simp only [Function.comp_apply, List.length_cons, List.length_append]
      omega

/-- The tokens in front of the parenthesis that closes a group match theirs. -/
theorem matched_of_closingParenFrom? {i : Nat} (h : closingParenFrom? 1 ts = some i) :
    ∃ inner r rest, ts = inner ++ r :: rest ∧ r.kind = .rightParen ∧ Matched inner ∧
      inner.length = i := by
  induction hn : ts.length using Nat.strongRecOn generalizing ts i with
  | ind n ih =>
      cases ts with
      | nil => cases h
      | cons t ts =>
          rw [List.length_cons] at hn
          by_cases hright : t.kind = .rightParen
          · obtain rfl : 0 = i := by simpa [closingParenFrom?, hright] using h
            exact ⟨[], t, ts, rfl, hright, .nil, rfl⟩
          by_cases hleft : t.kind = .leftParen
          · -- The group that `t` opens closes first, and then the one around it.
            rw [← Nat.zero_add 1, closingParenFrom?_cons_left hleft, closingParenFrom?_add] at h
            obtain ⟨j, hj, rfl⟩ := Option.map_eq_some_iff.mp h
            obtain ⟨k, hk, hrest⟩ := Option.bind_eq_some_iff.mp hj
            obtain ⟨m, hm, rfl⟩ := Option.map_eq_some_iff.mp hrest
            obtain ⟨inner, r, rest, rfl, hr, hinner, rfl⟩ := ih ts.length (by omega) hk rfl
            have hdrop : (inner ++ r :: rest).drop (inner.length + 1) = rest := by simp
            rw [hdrop] at hm
            rw [List.length_append, List.length_cons] at hn
            obtain ⟨inner', r', rest', rfl, hr', hinner', rfl⟩ := ih rest.length (by omega) hm rfl
            refine ⟨t :: (inner ++ r :: inner'), r', rest', by simp, hr',
              .group hleft hinner hr hinner', ?_⟩
            simp only [List.length_cons, List.length_append]
            omega
          · rw [closingParenFrom?_cons_of_ne ts hleft hright] at h
            obtain ⟨j, hj, rfl⟩ := Option.map_eq_some_iff.mp h
            obtain ⟨inner, r, rest, rfl, hr, hinner, rfl⟩ := ih ts.length (by omega) hj rfl
            exact ⟨t :: inner, r, rest, rfl, hr, .token hleft hright hinner, rfl⟩

/-- Parentheses are matched if counting ends with none open. -/
theorem allMatched_of_openAfter (h : openAfter 0 ts = 0) : AllMatched ts := by
  rintro before l after rfl hl
  have hdepth : l.depthAfter (openAfter 0 before) = openAfter 0 before + (0 + 1) := by
    simp [Token.depthAfter, hl]
  rw [openAfter_append, openAfter_cons, hdepth] at h
  obtain ⟨i, hi, -, -⟩ := exists_groupEnd hl h
  obtain ⟨inner, r, rest, hafter, hr, hinner, -⟩ := matched_of_closingParenFrom? hi
  exact ⟨inner, r, rest, hafter, hr, hinner⟩

end Grammar

namespace Expression

open Grammar

variable {t : Token} {ts : List Token}

/-- Whether the token is the name of a call that is emitted as a whole. -/
def namesCall (t : Token) : Bool := t.is .CONVERT || t.isWord "dateadd"

/-- Tokens that what follows them changes nothing about. -/
structure Separable (ts : List Token) : Prop where
  parens : AllMatched ts
  call : ∀ t ∈ (significant ts).getLast?, namesCall t = false
  qualifier : ∀ t ∈ ts.getLast?, t.isWord "dbo" = false

theorem Separable.of_isSuffix {us : List Token} (h : Separable ts) (hus : us <:+ ts) :
    Separable us := by
  have hparens := h.parens.of_isSuffix hus
  obtain ⟨front, rfl⟩ := hus
  refine ⟨hparens, fun t ht => h.call t ?_, fun t ht => h.qualifier t ?_⟩
  · rw [significant_append, List.getLast?_append, Option.mem_def.mp ht]
    rfl
  · rw [List.getLast?_append, Option.mem_def.mp ht]
    rfl

theorem isTrivia_of_namesCall (h : namesCall t) : t.isTrivia = false := by
  cases ht : t.isTrivia with
  | false => rfl
  | true => simp [namesCall, is_of_isTrivia ht, isWord_of_isTrivia ht] at h

/-- The arguments of a call end inside tokens whose parentheses are matched. -/
theorem callLength_append_le (h : AllMatched ts) (hne : skipTrivia ts ≠ []) (us : List Token) :
    callLength (ts ++ us) ≤ ts.length := by
  have hlength := triviaLength_add_length_skipTrivia ts
  obtain ⟨u, inner, hskip⟩ := List.exists_cons_of_ne_nil hne
  rw [callLength, skipTrivia_append us hne, triviaLength_append us hne, hskip]
  rw [hskip, List.length_cons] at hlength
  simp only [List.cons_append]
  split
  · rename_i hu
    obtain ⟨gap, hts, -⟩ := eq_append_of_skipTrivia hskip
    obtain ⟨body, r, rest, rfl, hr, hbody⟩ := h gap u inner hts hu
    have hclose : closingParenFrom? 1 (body ++ r :: (rest ++ us)) = some body.length := by
      rw [← Nat.zero_add 1, closingParenFrom?_matched hbody]
      simp [closingParenFrom?, hr]
    rw [List.append_assoc, List.cons_append, groupEnd_cons hu, hclose]
    rw [List.length_append, List.length_cons] at hlength
    simp only [Option.map_some, Option.getD_some]
    omega
  · exact Nat.zero_le _

/-- The tokens that the text of `t` covers stand before the cut. -/
theorem headLength_append_le (h : Separable (t :: ts)) (us : List Token) :
    headLength t (ts ++ us) ≤ ts.length := by
  unfold headLength
  split
  · rename_i hcall
    have hcall : namesCall t := hcall
    refine callLength_append_le (h.parens.of_isSuffix (List.suffix_cons t ts)) ?_ us
    -- Otherwise `t` would be the last significant token.
    intro hnil
    have hlast : t ∈ (significant (t :: ts)).getLast? := by
      have hnone : significant ts = [] := by rw [← significant_skipTrivia, hnil]; rfl
      rw [significant_cons (isTrivia_of_namesCall hcall), hnone]
      rfl
    rw [h.call t hlast] at hcall
    cases hcall
  split
  · rename_i hdbo
    cases ts with
    | nil =>
        have hword := h.qualifier t rfl
        cases us with
        | nil => cases hdbo
        | cons d us => simp [startsWithDbo, hword] at hdbo
    | cons u ts => exact Nat.le_add_left 1 _
  · exact Nat.zero_le _

/-- A list that is cut where the parts are separate is emitted as its two parts are. -/
theorem emit_append_of_separable (h : Separable ts) (us : List Token) :
    emit (ts ++ us) = emit ts ++ emit us := by
  induction hn : ts.length using Nat.strongRecOn generalizing ts with
  | ind n ih =>
      cases ts with
      | nil => simp [emit]
      | cons t ts =>
          have hle := headLength_append_le h us
          have hhead : emitHead t ts = emitHead t (ts ++ us) :=
            emitHead_of_isPrefix (List.prefix_append ts us) hle
          have hrest : Separable (ts.drop (emitHead t ts).2) :=
            h.of_isSuffix ((List.drop_suffix _ ts).trans (List.suffix_cons t ts))
          have hshort : (ts.drop (emitHead t ts).2).length < n := by
            rw [List.length_cons] at hn
            rw [List.length_drop]
            omega
          rw [← snd_emitHead, ← hhead] at hle
          rw [List.cons_append, emit_cons, emit_cons, ← hhead, List.drop_append_of_le_length hle,
            ih _ hshort hrest rfl, List.append_assoc]

/-- A call with a call in it, a parenthesis too many, the name of a call and a qualifier before
other tokens, and a call that goes on after the cut. -/
theorem emit_append_of_separable_calls :
    let ts := tokenize "CONVERT(int, dateadd(d, f(1), @a))) + convert x, dbo /**/ ".toList
    let us := tokenize ".t + DATEADD(day, (1".toList
    Separable ts ∧ emit (ts ++ us) = emit ts ++ emit us := by
  intro ts us
  have hopen : openAfter 0 ts = 0 := by decide +kernel
  have hcall : (significant ts).getLast?.all fun t => !namesCall t := by decide +kernel
  have hdbo : ts.getLast?.all fun t => !t.isWord "dbo" := by decide +kernel
  have hts : Separable ts :=
    ⟨allMatched_of_openAfter hopen, by simpa using (Option.all_eq_true _ _).mp hcall,
      by simpa using (Option.all_eq_true _ _).mp hdbo⟩
  exact ⟨hts, emit_append_of_separable hts us⟩

end Expression

end SqlMigration
