import SqlMigration.Proofs.Statement.Conditional
import SqlMigration.Proofs.Statement.Direct

/-! # Cutting a union

The statement that starts with the first arm of a union reaches through all arms. It is cut after
the first arm, and then after the `UNION`, until no arm is left.
-/

namespace SqlMigration.Statement

/-- Whether the token, outside parentheses, ends an arm. -/
def breaksArm (t : Token) : Bool :=
  t.kind = .semicolon || t.is .UNION || t.kind.startsStatement

/-- Whether each `END` and `ELSE` outside parentheses belongs to a `CASE`, when `depth` parentheses
and `cases` of these are open. -/
def casesNest (depth cases : Nat) : List Token → Bool
  | [] => true
  | t :: ts =>
      if depth = 0 then
        match t.keyword? with
        | some .CASE => casesNest 0 (cases + 1) ts
        | some .END => cases ≠ 0 && casesNest 0 (cases - 1) ts
        | some .ELSE => cases ≠ 0 && casesNest 0 cases ts
        | _ => casesNest (t.depthAfter 0) cases ts
      else casesNest (t.depthAfter depth) cases ts

theorem casesNest_cons_of_keyword? {t : Token} (h : t.keyword? = none) (depth cases : Nat)
    (ts : List Token) :
    casesNest depth cases (t :: ts) = casesNest (t.depthAfter depth) cases ts := by
  rw [casesNest, h]
  split
  · rename_i hdepth
    rw [hdepth]
  · rfl

theorem casesNest_cons_of_depth {depth : Nat} (h : depth ≠ 0) (cases : Nat) (t : Token)
    (ts : List Token) :
    casesNest depth cases (t :: ts) = casesNest (t.depthAfter depth) cases ts := by
  rw [casesNest, if_neg h]

theorem Scan.keyword?_arm {first : Option Keyword} {st : Scan} {t : Token} {k : Keyword}
    {ts : List Token} (hkind : t.kind = .keyword k) (hpending : st.pending = {})
    (hdepth : st.depth = 0) (hcases : casesNest 0 st.cases (t :: ts))
    (hplain : k.startsStatement = false) (rest : List Token) :
    ∃ st', st.keyword? first k rest = some st' ∧ st'.pending = {} ∧ st'.depth = 0 ∧
      casesNest 0 st'.cases ts := by
  have hopen : t.depthAfter 0 = 0 := by simp [Token.depthAfter, hkind]
  simp only [casesNest, Token.keyword?, hkind, if_true, hopen] at hcases
  unfold Scan.keyword?
  split
  · exact ⟨_, rfl, hpending, hdepth, hcases⟩
  · obtain ⟨hne, hcases⟩ : st.cases ≠ 0 ∧ casesNest 0 (st.cases - 1) ts := by simpa using hcases
    exact ⟨_, if_neg hne, hpending, hdepth, hcases⟩
  · cases hplain
  · obtain ⟨hne, hcases⟩ : st.cases ≠ 0 ∧ casesNest 0 st.cases ts := by simpa using hcases
    exact ⟨_, if_neg hne, hpending, hdepth, hcases⟩
  · exact ⟨_, rfl, by rw [hpending], hdepth, hcases⟩
  · rw [if_neg (by simp [hplain])]
    refine ⟨_, rfl, hpending, hdepth, ?_⟩
    split at hcases <;> simp_all

/-- A significant token of an arm goes on with the statement. -/
theorem Scan.pass_arm {first : Option Keyword} {st : Scan} {t : Token} {ts : List Token}
    (hpending : st.pending = {}) (hcases : casesNest st.depth st.cases (t :: ts))
    (hplain : st.depth = 0 → t.kind ≠ .leftParen → t.kind ≠ .rightParen → breaksArm t = false)
    (rest : List Token) :
    ∃ st', st.pass first t rest = .goesOn st' ∧ st'.pending = {} ∧
      st'.depth = t.depthAfter st.depth ∧ casesNest st'.depth st'.cases ts := by
  unfold Scan.pass
  split
  · rename_i hkind
    rw [casesNest_cons_of_keyword? (by simp [Token.keyword?, hkind])] at hcases
    have hdepth : t.depthAfter st.depth = st.depth + 1 := by simp [Token.depthAfter, hkind]
    exact ⟨_, rfl, hpending, hdepth.symm, by rwa [hdepth] at hcases⟩
  · rename_i hkind
    rw [casesNest_cons_of_keyword? (by simp [Token.keyword?, hkind])] at hcases
    have hdepth : t.depthAfter st.depth = st.depth - 1 := by simp [Token.depthAfter, hkind]
    exact ⟨_, rfl, hpending, hdepth.symm, by rwa [hdepth] at hcases⟩
  · rename_i hkind
    rw [casesNest_cons_of_keyword? (by simp [Token.keyword?, hkind])] at hcases
    have hdepth : t.depthAfter st.depth = st.depth := by simp [Token.depthAfter, hkind]
    split
    · rename_i hzero
      simp [breaksArm, hkind, hzero] at hplain
    · exact ⟨_, rfl, hpending, hdepth.symm, by rwa [hdepth] at hcases⟩
  · rename_i k hkind
    have hdepth : t.depthAfter st.depth = st.depth := by simp [Token.depthAfter, hkind]
    split
    · rename_i hzero
      rw [hzero] at hcases
      have hstart : k.startsStatement = false := by
        simp [breaksArm, hkind, hzero, Kind.startsStatement] at hplain
        exact hplain.2
      obtain ⟨st', hst, hpending', hdepth', hcases'⟩ :=
        Scan.keyword?_arm hkind hpending hzero hcases hstart rest
      rw [hst]
      exact ⟨_, rfl, hpending', by rw [hdepth, hzero, hdepth'], by rwa [hdepth']⟩
    · rename_i hzero
      rw [casesNest_cons_of_depth hzero] at hcases
      exact ⟨_, rfl, hpending, hdepth.symm, by rwa [hdepth] at hcases⟩
  · rename_i hleft hright hsemicolon hkeyword
    have hdepth : t.depthAfter st.depth = st.depth := by simp [Token.depthAfter]
    have hnone : t.keyword? = none := by simp [Token.keyword?]
    rw [casesNest_cons_of_keyword? hnone] at hcases
    exact ⟨_, rfl, hpending, hdepth.symm, by rwa [hdepth] at hcases⟩

/-- The scan of a statement passes over an arm, `i` tokens of which it has passed before. -/
theorem exists_plainFrom_arm (first : Option Keyword) (st : Scan) {ts : List Token}
    (hpending : st.pending = {}) (hcases : casesNest st.depth st.cases ts)
    (hplain : topLevelFrom? breaksArm st.depth ts = none) (i stop : Nat) (rest : List Token) :
    ∃ st' stop', st'.depth = openAfter st.depth ts ∧
      (∀ z ∈ ts.getLast?, z.isTrivia = false → stop' = i + ts.length) ∧
      (ts = [] → stop' = stop) ∧
      plainFrom first st i stop (ts ++ rest) = plainFrom first st' (i + ts.length) stop' rest := by
  induction ts generalizing st i stop with
  | nil => exact ⟨st, stop, rfl, by simp, fun _ => rfl, rfl⟩
  | cons t ts ih =>
      obtain ⟨hrest, ht⟩ := topLevelFrom?_cons_eq_none hplain
      have hlen : i + (t :: ts).length = i + 1 + ts.length := by simp; omega
      -- The last token of the whole is that of the rest, unless `t` is all there is.
      have hlast_cons {stop' : Nat}
          (hlast : ∀ z ∈ ts.getLast?, z.isTrivia = false → stop' = i + 1 + ts.length)
          (hnil : ts = [] → t.isTrivia = false → stop' = i + 1) :
          ∀ z ∈ (t :: ts).getLast?, z.isTrivia = false → stop' = i + 1 + ts.length := by
        intro z hz hztrivia
        cases ts with
        | nil =>
            obtain rfl : t = z := by simpa using hz
            exact hnil rfl hztrivia
        | cons u ts => exact hlast z (by simpa using hz) hztrivia
      rw [List.cons_append, plainFrom, hlen]
      cases htrivia : t.isTrivia with
      | true =>
          rw [casesNest_cons_of_keyword? (keyword?_of_isTrivia htrivia),
            depthAfter_of_isTrivia htrivia] at hcases
          rw [depthAfter_of_isTrivia htrivia] at hrest
          obtain ⟨st', stop', hdepth', hlast, hnil, hscan⟩ :=
            ih st hpending hcases hrest (i + 1) stop
          refine ⟨st', stop', ?_, hlast_cons hlast (by simp [htrivia]), by simp, hscan⟩
          rw [hdepth', openAfter_cons, depthAfter_of_isTrivia htrivia]
      | false =>
          obtain ⟨st₁, hpass, hpending₁, hdepth₁, hcases₁⟩ :
              ∃ st₁, st.pass first t (ts ++ rest) = .goesOn st₁ ∧ _ :=
            Scan.pass_arm hpending hcases ht (ts ++ rest)
          rw [← hdepth₁] at hrest
          obtain ⟨st', stop', hdepth', hlast, hnil, hscan⟩ :=
            ih st₁ hpending₁ hcases₁ hrest (i + 1) (i + 1)
          refine ⟨st', stop', ?_, hlast_cons hlast fun hts _ => hnil hts, by simp, ?_⟩
          · rw [hdepth', openAfter_cons, hdepth₁]
          · rw [if_neg Bool.false_ne_true, hpass]
            exact hscan

/-! ## Separators -/

section Separator

theorem union?_eq (ts : List Token) :
    union? ts = (((separatorPattern [.keyword .UNION, .keyword .ALL]).run? ts).map Prod.snd).or
      (((separatorPattern [.keyword .UNION]).run? ts).map Prod.snd) := by
  rw [union?]
  cases (separatorPattern [.keyword .UNION, .keyword .ALL]).run? ts <;> rfl

variable {gap inner : List Token} (hgap : ∀ t ∈ gap, t.kind = .blank) {t : Token}

include hgap

theorem union?_eq_none (ht : t.kind ≠ .blank) (hunion : t.is .UNION = false) (rest : List Token) :
    union? (gap ++ t :: rest) = none := by
  have hkind : t.kind ≠ .keyword .UNION := by simpa [Token.is] using hunion
  have hne : gap ++ t :: rest ≠ [] := by simp
  have hnone (steps : List Step) :
      ((separatorPattern (.keyword .UNION :: steps)).run? (gap ++ t :: rest)).map Prod.snd =
        none := by
    rw [Pattern.map_snd_run? rfl hne]
    exact (Pattern.matchSteps_kind rfl _ steps hgap ht rest).trans (if_neg hkind)
  rw [union?_eq, hnone, hnone]
  rfl

theorem union?_cons (ht : t.is .UNION) (hinner : ∀ t ∈ inner, t.kind = .blank) {a : Token}
    (ha : a.kind ≠ .blank) (rest : List Token) :
    union? (gap ++ t :: (inner ++ a :: rest)) =
      some (gap.length + 1 + if a.is .ALL then inner.length + 1 else 0) := by
  have hkind : t.kind = .keyword .UNION := kind_of_is ht
  have hne : gap ++ t :: (inner ++ a :: rest) ≠ [] := by simp
  have hrun (steps : List Step) :
      ((separatorPattern (.keyword .UNION :: steps)).run?
          (gap ++ t :: (inner ++ a :: rest))).map Prod.snd =
        (((separatorPattern (.keyword .UNION :: steps)).matchSteps steps
          (inner ++ a :: rest)).toOption.map Prod.snd).map (gap.length + 1 + ·) := by
    rw [Pattern.map_snd_run? rfl hne]
    exact (Pattern.matchSteps_kind rfl _ steps hgap (by simp [hkind]) _).trans (if_pos hkind)
  have hall : ((separatorPattern [.keyword .UNION, .keyword .ALL]).matchSteps [.keyword .ALL]
      (inner ++ a :: rest)).toOption.map Prod.snd =
        if a.kind = .keyword .ALL then some (inner.length + 1) else none :=
    Pattern.matchSteps_kind rfl _ [] hinner ha rest
  rw [union?_eq, hrun, hrun, hall]
  by_cases hkind : a.kind = .keyword .ALL
  · simp [Token.is, hkind]
  · simp [Token.is, hkind, Pattern.matchSteps, Except.toOption]

theorem union?_blank : union? gap = none := by
  by_cases hne : gap = []
  · subst hne
    rfl
  · have hnone (steps : List Step) :
        ((separatorPattern (.keyword .UNION :: steps)).run? gap).map Prod.snd = none := by
      rw [Pattern.map_snd_run? rfl hne]
      exact Pattern.matchSteps_blank hgap _ steps
    rw [union?_eq, hnone, hnone]
    rfl

end Separator

/-! ## White space before a statement -/

/-- The tokens are white space. -/
def Blank (ts : List Token) : Prop := ∀ t ∈ ts, t.kind = .blank

instance (ts : List Token) : Decidable (Blank ts) :=
  inferInstanceAs (Decidable (∀ t ∈ ts, t.kind = .blank))

theorem Blank.isTrivia {ts : List Token} (h : Blank ts) : ∀ t ∈ ts, t.isTrivia := by
  intro t ht
  simp [Token.isTrivia, Kind.isTrivia, h t ht]

theorem leadingComments?_blank {gap : List Token} (hgap : Blank gap) {rest : List Token}
    (hrest : triviaLength rest = 0) : leadingComments? (gap ++ rest) = none := by
  have hrun : (gap ++ rest).takeWhile Token.isTrivia = gap := by
    have hnil : rest.takeWhile Token.isTrivia = [] := List.eq_nil_of_length_eq_zero hrest
    rw [List.takeWhile_append_of_pos hgap.isTrivia, hnil, List.append_nil]
  have hcomments : (gap.reverse.dropWhile fun t => !t.kind.isComment) = [] := by
    refine List.dropWhile_eq_nil_iff.mpr fun t ht => ?_
    simp [hgap t (List.mem_reverse.mp ht), Kind.isComment]
  simp only [leadingComments?, hrun, hcomments]
  rfl

theorem boundsFrom_gap {gap : List Token} (hgap : ∀ t ∈ gap, t.isTrivia) {u : Token}
    (hu : u.isTrivia = false) (rest : List Token) (i : Nat) :
    ∃ bs, boundsFrom i (gap ++ u :: rest) =
      ⟨i + gap.length, i + gap.length + extent (u :: rest)⟩ :: bs := by
  induction gap generalizing i with
  | nil =>
      have hpos := extent_pos u rest
      rw [List.nil_append, boundsFrom, if_neg (by simp [hu])]
      refine ⟨_, congrArg (· :: _) ?_⟩
      simp only [Bounds.mk.injEq, List.length_nil]
      omega
  | cons t gap ih =>
      obtain ⟨ht, hgap⟩ := List.forall_mem_cons.mp hgap
      obtain ⟨bs, hbs⟩ := ih hgap (i + 1)
      refine ⟨bs, ?_⟩
      rw [List.cons_append, boundsFrom, if_pos ht, hbs, List.length_cons]
      simp only [Nat.add_assoc, Nat.add_comm 1]

theorem boundsFrom_trivia {gap : List Token} (hgap : ∀ t ∈ gap, t.isTrivia) (i : Nat) :
    boundsFrom i gap = [] := by
  induction gap generalizing i with
  | nil => rw [boundsFrom]
  | cons t gap ih =>
      obtain ⟨ht, hgap⟩ := List.forall_mem_cons.mp hgap
      rw [boundsFrom, if_pos ht, ih hgap]

theorem directEnd_blank {gap : List Token} (hgap : Blank gap) : directEnd gap 0 = gap.length := by
  have hcomments : leadingComments? (gap ++ []) = none := leadingComments?_blank hgap rfl
  rw [List.append_nil] at hcomments
  simp only [directEnd, List.drop_zero, hcomments, union?_blank hgap, bounds,
    boundsFrom_trivia hgap.isTrivia]

theorem directEnd_gap {gap : List Token} (hgap : Blank gap) {u : Token} (hu : u.isTrivia = false)
    (rest : List Token) (hunion : union? (gap ++ u :: rest) = none) :
    directEnd (gap ++ u :: rest) 0 =
      gap.length + cut (u :: rest) ⟨0, extent (u :: rest)⟩ := by
  have hcomments : leadingComments? (gap ++ u :: rest) = none :=
    leadingComments?_blank hgap (by simp [triviaLength, hu])
  obtain ⟨bs, hbounds⟩ := boundsFrom_gap hgap.isTrivia hu rest 0
  have hcut := cut_drop (gap ++ u :: rest) gap.length ⟨0, extent (u :: rest)⟩
  rw [List.drop_left] at hcut
  simp only [directEnd, List.drop_zero, hcomments, hunion, bounds, hbounds, Nat.zero_add]
  exact hcut

/-- A `SELECT` that can be an arm of a union: it closes what it opens, has nothing outside
parentheses that could end it, and no white space or comment at its end. -/
structure IsArm (arm : List Token) : Prop where
  select : arm.head?.bind Token.keyword? = some .SELECT
  closed : openAfter 0 arm = 0
  cases : casesNest 0 0 arm
  plain : topLevel? breaksArm arm.tail = none
  last : ∀ z ∈ arm.getLast?, z.isTrivia = false

instance (arm : List Token) : Decidable (IsArm arm) :=
  decidable_of_iff (arm.head?.bind Token.keyword? = some .SELECT ∧ openAfter 0 arm = 0 ∧
      casesNest 0 0 arm ∧ topLevel? breaksArm arm.tail = none ∧
      ∀ z ∈ arm.getLast?, z.isTrivia = false)
    ⟨fun ⟨h₁, h₂, h₃, h₄, h₅⟩ => ⟨h₁, h₂, h₃, h₄, h₅⟩,
      fun h => ⟨h.select, h.closed, h.cases, h.plain, h.last⟩⟩

theorem plainFrom_trivia (first : Option Keyword) (st : Scan) {gap : List Token}
    (hgap : ∀ t ∈ gap, t.isTrivia) (i stop : Nat) (rest : List Token) :
    plainFrom first st i stop (gap ++ rest) = plainFrom first st (i + gap.length) stop rest := by
  induction gap generalizing i with
  | nil => rfl
  | cons t gap ih =>
      obtain ⟨ht, hgap⟩ := List.forall_mem_cons.mp hgap
      rw [List.cons_append, plainFrom, if_pos ht, ih hgap, List.length_cons]
      congr 1
      omega

namespace IsArm

variable {arm : List Token}

theorem eq_cons (h : IsArm arm) : ∃ t ts, arm = t :: ts ∧ t.is .SELECT := by
  cases arm with
  | nil => cases h.select
  | cons t ts =>
      refine ⟨t, ts, rfl, ?_⟩
      have hselect : t.keyword? = some .SELECT := h.select
      cases hkind : t.kind <;> simp_all [Token.keyword?, Token.is]

/-- The scan of the statement passes over the arm. -/
theorem exists_extent (h : IsArm arm) (rest : List Token) :
    ∃ st, st.depth = 0 ∧
      extent (arm ++ rest) = plainFrom (some .SELECT) st arm.length arm.length rest := by
  obtain ⟨t, ts, rfl, ht⟩ := h.eq_cons
  have hkind : t.kind = .keyword .SELECT := kind_of_is ht
  have hdepth : t.depthAfter 0 = 0 := depthAfter_of_is ht 0
  have hcases : casesNest 0 0 ts := by
    simpa [casesNest, Token.keyword?, hkind, hdepth] using h.cases
  have hopening : opening t (ts ++ rest) = .plain := by
    simp [opening, Token.keyword?, hkind]
  have hextent : extent (t :: ts ++ rest) =
      plainFrom (some .SELECT) ⟨{}, 0, 0, some .SELECT⟩ 1 1 (ts ++ rest) := by
    rw [List.cons_append, extent, hopening]
    simp [plainExtent, Token.keyword?, hkind, Pending.note]
  obtain ⟨st, stop, hst, hlast, hnil, hscan⟩ :=
    exists_plainFrom_arm (some .SELECT) ⟨{}, 0, 0, some .SELECT⟩ rfl hcases h.plain 1 1 rest
  have hclosed : openAfter 0 ts = 0 := by simpa [hdepth] using h.closed
  have hstop : stop = 1 + ts.length := by
    cases ts with
    | nil => exact hnil rfl
    | cons u ts =>
        have hz := List.getLast?_eq_some_getLast (List.cons_ne_nil u ts)
        exact hlast _ hz (h.last _ (by rw [List.getLast?_cons_cons, hz]; rfl))
  rw [hstop] at hscan
  refine ⟨st, hst.trans hclosed, ?_⟩
  rw [hextent, hscan, List.length_cons, Nat.add_comm]

/-- A statement of one arm ends with the arm. -/
theorem extent_append_trivia (h : IsArm arm) {gap : List Token} (hgap : ∀ t ∈ gap, t.isTrivia) :
    extent (arm ++ gap) = arm.length := by
  obtain ⟨st, -, hextent⟩ := h.exists_extent gap
  have hscan := plainFrom_trivia (some .SELECT) st hgap arm.length arm.length []
  rw [List.append_nil] at hscan
  rw [hextent, hscan, plainFrom]

/-- A statement of several arms reaches beyond the first `UNION`. -/
theorem lt_extent (h : IsArm arm) {gap : List Token} (hgap : ∀ t ∈ gap, t.isTrivia) {u : Token}
    (hu : u.is .UNION) (rest : List Token) :
    arm.length + gap.length < extent (arm ++ (gap ++ u :: rest)) := by
  obtain ⟨st, hdepth, hextent⟩ := h.exists_extent (gap ++ u :: rest)
  have hkind : u.kind = .keyword .UNION := kind_of_is hu
  have hpass : st.pass (some .SELECT) u rest = .goesOn { st with prev := some .UNION } := by
    simp [Scan.pass, hkind, hdepth, Scan.keyword?, Keyword.startsStatement]
  rw [hextent, plainFrom_trivia _ st hgap, plainFrom, isTrivia_of_is hu,
    if_neg Bool.false_ne_true, hpass]
  have hlt := plainFrom_eq_or_lt (some .SELECT) { st with prev := some .UNION }
    (arm.length + gap.length + 1) (arm.length + gap.length + 1) rest
  dsimp only
  omega

theorem topLevel?_union (h : IsArm arm) : topLevel? (·.is .UNION) arm = none := by
  obtain ⟨t, ts, rfl, ht⟩ := h.eq_cons
  have hkind : t.kind = .keyword .SELECT := kind_of_is ht
  have htail : topLevelFrom? (·.is .UNION) 0 ts = none := by
    refine topLevelFrom?_eq_none_mono (fun t ht => ?_) h.plain
    simp [breaksArm, ht]
  have ht : t.is .UNION = false := by simp [Token.is, hkind]
  simp [topLevel?, topLevelFrom?, hkind, ht, htail]

theorem significantLength_append (h : IsArm arm) {gap : List Token}
    (hgap : ∀ t ∈ gap, t.isTrivia) : significantLength (arm ++ gap) = arm.length := by
  rw [significantLength_append_trivia hgap, significantLength_of_last h.last]

/-- An arm that is closed does not end with a semicolon. -/
theorem kind_last (h : IsArm arm) : ∀ z ∈ arm.getLast?, z.kind ≠ .semicolon := by
  intro z hz hkind
  obtain ⟨t, ts, rfl, ht⟩ := h.eq_cons
  rcases List.eq_nil_or_concat ts with rfl | ⟨us, u, rfl⟩
  · obtain rfl : t = z := by simpa using hz
    simp [Token.is, hkind] at ht
  · rw [List.concat_eq_append] at h hz
    obtain rfl : u = z := by simpa [List.getLast?_cons] using hz
    have hdepth : openAfter 0 us = 0 := by
      have hclosed := h.closed
      rw [openAfter_cons, depthAfter_of_is ht, openAfter_append] at hclosed
      simpa [Token.depthAfter, hkind] using hclosed
    have hplain : topLevelFrom? breaksArm 0 (us ++ [u]) = none := h.plain
    have hfront : topLevelFrom? breaksArm 0 us = none := by
      cases hfound : topLevelFrom? breaksArm 0 us with
      | none => rfl
      | some i =>
          rw [topLevelFrom?_append_left hfound] at hplain
          cases hplain
    rw [topLevelFrom?_append hfront, hdepth] at hplain
    simp [topLevelFrom?, hkind, breaksArm] at hplain

/-- The first arm of a union is cut off with the white space after it, through the first line end
there. -/
theorem exists_armLength (h : IsArm arm) {gap : List Token} (hgap : ∀ t ∈ gap, t.isTrivia) :
    ∃ n ≤ gap.length, (0 < n ↔ gap.any Token.isNewline) ∧
      armLength (arm ++ gap) = arm.length + n := by
  simp only [armLength, h.significantLength_append hgap, List.drop_left]
  split
  · rename_i i hi
    obtain ⟨hlt, hline, -⟩ := List.findIdx?_eq_some_iff_getElem.mp hi
    have hany : gap.any Token.isNewline := List.any_eq_true.mpr ⟨_, List.getElem_mem hlt, hline⟩
    exact ⟨i + 1, hlt, by simp [hany], rfl⟩
  · rename_i hnone
    have hany : gap.any Token.isNewline = false := by simpa using hnone
    exact ⟨0, Nat.zero_le _, by simp [hany], rfl⟩

theorem exists_cut_union (h : IsArm arm) {gap : List Token} (hgap : ∀ t ∈ gap, t.isTrivia)
    {u : Token} (hu : u.is .UNION) (rest : List Token) :
    ∃ n ≤ gap.length, (0 < n ↔ gap.any Token.isNewline) ∧
      cut (arm ++ (gap ++ u :: rest)) ⟨0, extent (arm ++ (gap ++ u :: rest))⟩ =
        arm.length + n := by
  obtain ⟨n, hn, hline, harm⟩ := h.exists_armLength hgap
  have hlt := h.lt_extent hgap hu rest
  generalize extent (arm ++ (gap ++ u :: rest)) = e at hlt ⊢
  obtain ⟨e, rfl⟩ : ∃ d, e = (arm ++ gap).length + (d + 1) :=
    ⟨e - (arm.length + gap.length) - 1, by rw [List.length_append]; omega⟩
  have htake : (arm ++ (gap ++ u :: rest)).take ((arm ++ gap).length + (e + 1)) =
      (arm ++ gap) ++ u :: rest.take e := by
    rw [← List.append_assoc, List.take_length_add_append, List.take_succ_cons]
  have hunion : topLevel? (·.is .UNION) ((arm ++ gap) ++ u :: rest.take e) =
      some (arm ++ gap).length := by
    have hclear : topLevelFrom? (·.is .UNION) 0 (arm ++ gap) = none := by
      rw [topLevelFrom?_append (h.topLevel?_union), h.closed, topLevelFrom?_trivia hgap]
      · rfl
      · exact fun t ht => is_of_isTrivia ht .UNION
    have hopen : openAfter 0 (arm ++ gap) = 0 := by
      rw [openAfter_append, openAfter_of_trivia hgap, h.closed]
    have hkind : u.kind = .keyword .UNION := kind_of_is hu
    rw [topLevel?, topLevelFrom?_append hclear, hopen]
    simp [topLevelFrom?, hkind, hu]
  have hselect : ((arm ++ (gap ++ u :: rest))[0]?).bind Token.keyword? = some .SELECT := by
    obtain ⟨t, ts, rfl, -⟩ := h.eq_cons
    exact h.select
  refine ⟨n, hn, hline, ?_⟩
  simp only [cut, List.drop_zero, htake, hselect, hunion, List.take_left, harm, Nat.zero_add]

/-- The last arm is a statement by itself. -/
theorem cut_last (h : IsArm arm) {gap : List Token} (hgap : ∀ t ∈ gap, t.isTrivia) :
    cut (arm ++ gap) ⟨0, extent (arm ++ gap)⟩ = arm.length := by
  have hunion := h.topLevel?_union
  have hselect : ((arm ++ gap)[0]?).bind Token.keyword? = some .SELECT := by
    obtain ⟨t, ts, rfl, -⟩ := h.eq_cons
    exact h.select
  rw [h.extent_append_trivia hgap]
  simp only [cut, List.drop_zero, List.take_left, hselect, hunion]

variable {gap : List Token}

theorem directEnd_eq (h : IsArm arm) (hgap : Blank gap) (rest : List Token) :
    directEnd (gap ++ (arm ++ rest)) 0 =
      gap.length + cut (arm ++ rest) ⟨0, extent (arm ++ rest)⟩ := by
  obtain ⟨t, ts, rfl, ht⟩ := h.eq_cons
  have hkind : t.kind = .keyword .SELECT := kind_of_is ht
  have hunion : union? (gap ++ t :: (ts ++ rest)) = none :=
    union?_eq_none hgap (by simp [hkind]) (by simp [Token.is, hkind]) _
  exact directEnd_gap hgap (isTrivia_of_is ht) (ts ++ rest) hunion

end IsArm

theorem directEnd_union {gap inner : List Token} (hgap : Blank gap) {u a : Token}
    (hu : u.is .UNION) (hinner : Blank inner) (ha : a.kind ≠ .blank) (rest : List Token) :
    directEnd (gap ++ u :: (inner ++ a :: rest)) 0 =
      gap.length + 1 + if a.is .ALL then inner.length + 1 else 0 := by
  have hcomments : leadingComments? (gap ++ u :: (inner ++ a :: rest)) = none :=
    leadingComments?_blank hgap (by simp [triviaLength, isTrivia_of_is hu])
  simp only [directEnd, List.drop_zero, hcomments, union?_cons hgap hu hinner ha, Nat.zero_add]

/-! ## Headers -/

/-- The header of a view, through the `AS` before its query. -/
structure IsHeader (header : List Token) : Prop where
  create : header.head?.bind Token.keyword? = some .CREATE
  view : firstKeyword? header.tail = some .VIEW
  uncut : ∀ t ∈ header, t.is .GO = false
  as : topLevel? (·.is .AS) header = some (header.length - 1)

instance (header : List Token) : Decidable (IsHeader header) :=
  decidable_of_iff (header.head?.bind Token.keyword? = some .CREATE ∧
      firstKeyword? header.tail = some .VIEW ∧ (∀ t ∈ header, t.is .GO = false) ∧
      topLevel? (·.is .AS) header = some (header.length - 1))
    ⟨fun ⟨h₁, h₂, h₃, h₄⟩ => ⟨h₁, h₂, h₃, h₄⟩, fun h => ⟨h.create, h.view, h.uncut, h.as⟩⟩

namespace IsHeader

variable {header : List Token}

theorem eq_cons (h : IsHeader header) : ∃ t ts, header = t :: ts ∧ t.keyword? = some .CREATE := by
  cases header with
  | nil => cases h.create
  | cons t ts => exact ⟨t, ts, rfl, h.create⟩

theorem last (h : IsHeader header) : ∀ z ∈ header.getLast?, z.isTrivia = false := by
  intro z hz
  obtain ⟨u, us, hdrop, hu⟩ := drop_of_topLevelFrom? h.as
  have hlast : header.getLast? = some u := by
    rw [List.getLast?_eq_getElem?, ← List.head?_drop, hdrop]
    rfl
  obtain rfl : u = z := Option.some.inj (hlast.symm.trans hz)
  cases htrivia : u.isTrivia with
  | false => rfl
  | true => simp [is_of_isTrivia htrivia] at hu

theorem length_le_extent (h : IsHeader header) (rest : List Token) :
    header.length ≤ extent (header ++ rest) := by
  have hlast := h.last
  obtain ⟨t, ts, rfl, ht⟩ := h.eq_cons
  have hview : firstKeyword? ts = some .VIEW := h.view
  have hskip : skipTrivia ts ≠ [] := by
    intro hnil
    simp [firstKeyword?, firstSignificant?, hnil] at hview
  have hfirst : firstKeyword? (ts ++ rest) = some .VIEW := by
    obtain ⟨v, vs, hv⟩ := List.exists_cons_of_ne_nil hskip
    rw [firstKeyword?, firstSignificant?, skipTrivia_append rest hskip, hv]
    simpa [firstKeyword?, firstSignificant?, hv] using hview
  have hopening : opening t (ts ++ rest) = .definition := by
    simp [opening, ht, definesModule, hfirst]
  have hbody : (ts ++ rest).takeWhile (fun t => !t.is .GO) =
      ts ++ rest.takeWhile (fun t => !t.is .GO) := by
    apply List.takeWhile_append_of_pos
    intro u hu
    simp [h.uncut u (List.mem_cons_of_mem t hu)]
  have hts : ∀ z ∈ ts.getLast?, z.isTrivia = false := by
    intro z hz
    refine hlast z ?_
    rw [List.getLast?_cons, Option.mem_def.mp hz]
    rfl
  rw [List.cons_append, extent, hopening, moduleExtent, hbody, List.length_cons, Nat.add_comm]
  exact Nat.add_le_add_left (length_le_significantLength hts _) 1

theorem cut_eq (h : IsHeader header) (rest : List Token) :
    cut (header ++ rest) ⟨0, extent (header ++ rest)⟩ = header.length := by
  have hle := h.length_le_extent rest
  have has : topLevel? (·.is .AS) ((header ++ rest).take (extent (header ++ rest))) =
      some (header.length - 1) := by
    rw [List.take_append, List.take_of_length_le hle]
    exact topLevelFrom?_append_left h.as _
  obtain ⟨t, ts, rfl, ht⟩ := h.eq_cons
  have hcreate : (((t :: ts) ++ rest)[0]?).bind Token.keyword? = some .CREATE := ht
  simp only [cut, List.drop_zero, hcreate, has, Nat.zero_add]
  rfl

theorem directEnd_eq (h : IsHeader header) (rest : List Token) :
    directEnd (header ++ rest) 0 = header.length := by
  have hcut := h.cut_eq rest
  obtain ⟨t, ts, rfl, ht⟩ := h.eq_cons
  have htrivia := isTrivia_of_keyword? ht
  have hkind : t.kind = .keyword .CREATE := by
    cases hkind : t.kind <;> simp_all [Token.keyword?]
  have hunion : union? ([] ++ t :: (ts ++ rest)) = none :=
    union?_eq_none (by simp) (by simp [hkind]) (by simp [Token.is, hkind]) _
  rw [List.cons_append] at hcut ⊢
  rw [← hcut, ← Nat.zero_add (cut _ _)]
  have hdirect : directEnd ([] ++ t :: (ts ++ rest)) 0 = _ :=
    directEnd_gap (by simp [Blank]) htrivia _ hunion
  exact hdirect

theorem createHeader_eq (h : IsHeader header) :
    createHeader header 0 = (header, header.length) := by
  obtain ⟨t, ts, rfl, ht⟩ := h.eq_cons
  have htrivia := isTrivia_of_keyword? ht
  have hclass : objectClass? (t :: ts) = some .view := by
    have hview : firstKeyword? ts = some .VIEW := h.view
    cases hskip : skipTrivia ts with
    | nil => simp [firstKeyword?, firstSignificant?, hskip] at hview
    | cons v rest =>
        have hv : v.keyword? = some .VIEW := by
          simpa [firstKeyword?, firstSignificant?, hskip] using hview
        obtain ⟨gap, rfl, hgap, -, hvtrivia⟩ := eq_append_of_skipTrivia hskip
        have hfilter : gap.filter (fun t => !t.isTrivia) = [] := by
          simpa [List.filter_eq_nil_iff] using hgap
        simp [objectClass?, skipTrivia, htrivia, hfilter, hvtrivia, hv,
          createReach, ObjectClass.ofKeyword?]
  have hlen : headerLength (t :: ts) = (t :: ts).length := by
    rw [headerLength, h.as]
    rfl
  simp only [createHeader, List.drop_zero, hclass, header, scanned,
    hlen, List.take_length]
  simp

end IsHeader

end SqlMigration.Statement
