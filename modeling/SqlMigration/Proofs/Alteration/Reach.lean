import SqlMigration.Proofs.Alteration.Defaults
import SqlMigration.Proofs.Statement.Extent

/-! # How far a column reaches

The scan of a column stays within its list, but for one case: `CONSTRAINT` always counts the next
significant token as a name. A column that ends in `CONSTRAINT` is counted one token too long.
-/

namespace SqlMigration.Column

variable {d : Dialect} {t : Token} {ts rest : List Token}

/-! ## Parts of a column -/

theorem triviaLength_of_skipTrivia (h : skipTrivia ts = t :: rest) :
    triviaLength ts + 1 + rest.length = ts.length := by
  have hlen := triviaLength_add_length_skipTrivia ts
  rw [h, List.length_cons] at hlen
  omega

theorem snd_dataType_le (d : Dialect) (t : Token) (ts : List Token) :
    (dataType d t ts).2 ≤ ts.length := by
  unfold dataType
  dsimp only
  rw [drop_triviaLength]
  split
  · exact Nat.zero_le _
  · rename_i u inner hskip
    split
    · rename_i hu
      have hlen := triviaLength_of_skipTrivia hskip
      have hgroup := groupEnd_cons_le hu inner
      dsimp only
      omega
    · exact Nat.zero_le _

theorem snd_defaultValue_le (ts : List Token) : (defaultValue ts).2 ≤ ts.length := by
  cases ts with
  | nil => exact Nat.le_refl 0
  | cons t ts =>
      unfold defaultValue
      dsimp only
      rw [drop_triviaLength, List.length_cons]
      split
      · rename_i ht
        exact Nat.succ_le_succ (groupEnd_cons_le ht ts)
      · split
        · exact Nat.le_add_left 1 _
        · rename_i u rest hskip
          have hlen := triviaLength_of_skipTrivia hskip
          split
          · rename_i hcall
            have hu : u.kind = .leftParen := by simpa using (Bool.and_eq_true_iff.mp hcall).2
            have hgroup := groupEnd_cons_le hu rest
            dsimp only
            omega
          · split <;> dsimp only <;> omega

/-- Only `CONSTRAINT` takes a token without looking for it. -/
theorem snd_option? {c c' : ColumnType} {n : Nat} (h : option? d c t ts = some (c', n)) :
    if t.is .CONSTRAINT then n = triviaLength ts + 1 else n ≤ ts.length := by
  by_cases ht : t.is .CONSTRAINT
  · simp only [option?, kind_of_is ht, Option.some.injEq, Prod.mk.injEq] at h
    rw [if_pos ht, ← h.2]
  · rw [if_neg ht]
    have hnext {k : Keyword} (hk : comesNext k ts) : triviaLength ts + 1 ≤ ts.length := by
      refine triviaLength_lt fun hnil => ?_
      simp [comesNext, firstKeyword?, firstSignificant?, hnil] at hk
    have hlen := triviaLength_add_length_skipTrivia ts
    unfold option? at h
    dsimp only at h
    split at h
    case h_4 hkind =>
      cases h
      exact groupEnd_cons_le hkind ts
    case h_7 =>
      split at h
      · rename_i hparen
        obtain ⟨u, hu, hkind⟩ := (Option.any_eq_true _ _).mp hparen
        obtain ⟨inner, hskip⟩ := List.head?_eq_some_iff.mp hu
        have hgroup := groupEnd_cons_le (by simpa using hkind) inner
        have hlen := triviaLength_of_skipTrivia hskip
        rw [hskip] at h
        cases h
        omega
      · cases h
        exact Nat.zero_le _
    case h_9 hkind => exact absurd (by simp [Token.is, hkind]) ht
    case h_10 hkind =>
      cases h
      have hvalue := snd_defaultValue_le (skipTrivia ts)
      omega
    all_goals
      repeat' split at h
      all_goals first | cases h; exact Nat.zero_le _ | cases h; exact hnext ‹_› | cases h

/-! ## Constraints without a name -/

/-- Whether the scan of the options ends with a `CONSTRAINT` that has no name. -/
def optionsDangle (d : Dialect) (ts : List Token) : Bool :=
  match _h : skipTrivia ts with
  | [] => false
  | t :: rest =>
      match option? d {} t rest with
      | none => false
      | some (_, n) =>
          (t.is .CONSTRAINT && (skipTrivia rest).isEmpty) || optionsDangle d (rest.drop n)
  termination_by ts.length
  decreasing_by
    have := length_lt_of_skipTrivia_eq_cons _h
    simp only [List.length_drop]
    omega

/-- Whether the column whose name stands before `ts` ends with a `CONSTRAINT` that has no name. -/
def dangles (d : Dialect) (ts : List Token) : Bool := optionsDangle d (afterType d ts)

theorem optionsDangle_of_eq_nil (h : skipTrivia ts = []) : optionsDangle d ts = false := by
  rw [optionsDangle]
  split
  · rfl
  · rename_i hcons
    rw [h] at hcons
    cases hcons

theorem optionsDangle_of_skipTrivia (h : skipTrivia ts = t :: rest) :
    optionsDangle d ts = ((option? d {} t rest).map Prod.snd).any fun n =>
      (t.is .CONSTRAINT && (skipTrivia rest).isEmpty) || optionsDangle d (rest.drop n) := by
  rw [optionsDangle]
  split
  · rename_i hnil
    rw [h] at hnil
    cases hnil
  · rename_i t' rest' hskip
    obtain ⟨rfl, rfl⟩ := List.cons.inj (h.symm.trans hskip)
    cases option? d {} t rest <;> rfl

/-- The options reach beyond their list, by one token, if and only if they end with a `CONSTRAINT`
that has no name. -/
theorem snd_options (d : Dialect) (c : ColumnType) (ts : List Token) :
    if optionsDangle d ts then (options d c ts).2 = ts.length + 1
    else (options d c ts).2 ≤ ts.length := by
  fun_induction options d c ts with
  | case1 c ts hskip => simp [optionsDangle_of_eq_nil hskip]
  | case2 c ts t rest hskip hnone =>
      have hlen := triviaLength_of_skipTrivia hskip
      have hdangle : optionsDangle d ts = false := by
        rw [optionsDangle_of_skipTrivia hskip, ← map_snd_option? c, hnone]
        rfl
      rw [hdangle, if_neg Bool.false_ne_true]
      omega
  | case3 c ts t rest hskip c' n hoption c'' m hrest ih =>
      have hlen := triviaLength_of_skipTrivia hskip
      have hcount := snd_option? hoption
      have hdangle : optionsDangle d ts = ((t.is .CONSTRAINT && (skipTrivia rest).isEmpty) ||
          optionsDangle d (rest.drop n)) := by
        rw [optionsDangle_of_skipTrivia hskip, ← map_snd_option? c, hoption]
        rfl
      rw [hrest, List.length_drop] at ih
      rw [hdangle]
      by_cases hhere : t.is .CONSTRAINT && (skipTrivia rest).isEmpty
      · obtain ⟨ht, hempty⟩ := Bool.and_eq_true_iff.mp hhere
        have hnil := List.isEmpty_iff.mp hempty
        have hgap := triviaLength_add_length_skipTrivia rest
        rw [hnil, List.length_nil] at hgap
        rw [if_pos ht] at hcount
        have hafter : optionsDangle d (rest.drop n) = false := by
          rw [List.drop_of_length_le (by omega)]
          exact optionsDangle_of_eq_nil rfl
        rw [hafter, if_neg Bool.false_ne_true] at ih
        rw [hhere, Bool.true_or, if_pos rfl]
        dsimp only at ih ⊢
        omega
      · have hn : n ≤ rest.length := by
          split at hcount
          · rename_i ht
            rw [hcount]
            exact triviaLength_lt (by simpa [ht] using hhere)
          · exact hcount
        rw [Bool.eq_false_iff.mpr hhere, Bool.false_or]
        split at ih
        · rename_i hmore
          rw [if_pos hmore]
          dsimp only at ih ⊢
          omega
        · rename_i hmore
          rw [if_neg hmore]
          dsimp only at ih ⊢
          omega

/-- The options are read behind the type. -/
theorem exists_snd_define (d : Dialect) (t : Token) (ts : List Token) :
    ∃ n c, n + (afterType d ts).length = ts.length ∧
      (define d t ts).2 = n + (options d c (afterType d ts)).2 := by
  cases hskip : skipTrivia ts with
  | nil =>
      have hafter : afterType d ts = ts := by rw [afterType, hskip]
      refine ⟨0, {}, by rw [hafter, Nat.zero_add], ?_⟩
      simp [define, hskip, hafter]
  | cons u us =>
      cases hu : u.kind.isIdentifier with
      | true =>
          have hafter : afterType d ts = us.drop (dataType d u us).2 := by
            rw [afterType, hskip]
            exact if_pos hu
          have hlen := triviaLength_of_skipTrivia hskip
          have htype := snd_dataType_le d u us
          refine ⟨triviaLength ts + 1 + (dataType d u us).2, { dataType := (dataType d u us).1 },
            ?_, ?_⟩
          · rw [hafter, List.length_drop]
            omega
          · simp [define, hskip, hu, hafter, drop_of_skipTrivia hskip]
      | false =>
          have hafter : afterType d ts = ts := by
            rw [afterType, hskip]
            exact if_neg (by simp [hu])
          refine ⟨0, {}, by rw [hafter, Nat.zero_add], ?_⟩
          simp [define, hskip, hu, hafter]

/-- A column reaches beyond its list, by one token, if and only if it ends with a `CONSTRAINT` that
has no name. -/
theorem snd_define (d : Dialect) (t : Token) (ts : List Token) :
    if dangles d ts then (define d t ts).2 = ts.length + 1 else (define d t ts).2 ≤ ts.length := by
  obtain ⟨n, c, hlen, hdefine⟩ := exists_snd_define d t ts
  have hoptions := snd_options d c (afterType d ts)
  rw [hdefine, dangles]
  split at hoptions
  · rename_i hdangle
    rw [if_pos hdangle]
    omega
  · rename_i hdangle
    rw [if_neg hdangle]
    omega

end SqlMigration.Column
