import SqlMigration.Proofs.Alteration.Grammar

/-! # Columns without strays

The scan of a column takes in exactly a column of the grammar if and only if it finds no strays.
Each part of the scan takes the tokens of one production and leaves the rest.
-/

namespace SqlMigration

open Grammar

/-! ## Groups -/

/-- The group closes at the same token when the trivia are left out. -/
theorem closingParenFrom?_significant (depth : Nat) (ts : List Token) :
    closingParenFrom? depth (significant ts) =
      (closingParenFrom? depth ts).map fun i => (significant (ts.take i)).length := by
  induction ts generalizing depth with
  | nil => rfl
  | cons t ts ih =>
      cases ht : t.isTrivia with
      | true =>
          have hdrop : significant (t :: ts) = significant ts := by simp [significant, ht]
          have htake (i : Nat) :
              significant ((t :: ts).take (i + 1)) = significant (ts.take i) := by
            simp [significant, ht]
          have hclose : closingParenFrom? depth (t :: ts) =
              (closingParenFrom? depth ts).map (· + 1) :=
            closingParenFrom?_trivia_append ts (List.forall_mem_singleton.mpr ht)
          rw [hdrop, ih, hclose, Option.map_map]
          congr 1
          funext i
          exact (congrArg List.length (htake i)).symm
      | false =>
          have hcons (us : List Token) : significant (t :: us) = t :: significant us :=
            significant_cons ht us
          have htake (i : Nat) :
              (significant ((t :: ts).take (i + 1))).length =
                (significant (ts.take i)).length + 1 := by
            rw [List.take_succ_cons, hcons, List.length_cons]
          have hmap (depth : Nat) :
              (closingParenFrom? depth (significant ts)).map (· + 1) =
                ((closingParenFrom? depth ts).map (· + 1)).map fun i =>
                  (significant ((t :: ts).take i)).length := by
            rw [ih, Option.map_map, Option.map_map]
            congr 1
            funext i
            exact (htake i).symm
          rw [hcons]
          simp only [closingParenFrom?]
          split
          · exact hmap _
          · split
            · rfl
            · exact hmap _
          · exact hmap _

theorem kind_of_closingParenFrom? {depth i : Nat} {ts : List Token}
    (h : closingParenFrom? depth ts = some i) :
    ∃ r rest, ts.drop i = r :: rest ∧ r.kind = .rightParen := by
  fun_induction closingParenFrom? depth ts generalizing i with
  | case1 => cases h
  | case2 depth t ts hkind ih | case4 depth t ts hkind hdepth ih | case5 depth t ts _ _ ih =>
      obtain ⟨j, hj, rfl⟩ := Option.map_eq_some_iff.mp h
      exact ih hj
  | case3 depth t ts hkind =>
      cases h
      exact ⟨t, ts, rfl, hkind⟩

/-- The significant tokens through the end of a group and after it. -/
theorem significant_of_closingParen? {i : Nat} {ts : List Token} (h : closingParen? ts = some i) :
    closingParen? (significant ts) = some (significant (ts.take i)).length ∧
      (significant (ts.take (i + 1))).length = (significant (ts.take i)).length + 1 ∧
      significant ts = significant (ts.take (i + 1)) ++ significant (ts.drop (i + 1)) := by
  obtain ⟨r, rest, hdrop, hr⟩ := kind_of_closingParenFrom? h
  have htrivia : r.isTrivia = false := by
    rw [Token.isTrivia, hr]
    rfl
  refine ⟨?_, ?_, ?_⟩
  · rw [closingParen?, closingParenFrom?_significant]
    rw [closingParen?] at h
    rw [h, Option.map_some]
  · have htake : ts.take (i + 1) = ts.take i ++ [r] := by
      rw [List.take_add, hdrop]
      rfl
    rw [htake, significant_append, significant_cons htrivia]
    simp [significant]
  · rw [← significant_append, List.take_append_drop]

theorem drop_of_skipTrivia {ts rest : List Token} {t : Token} (h : skipTrivia ts = t :: rest)
    (n : Nat) : ts.drop (triviaLength ts + 1 + n) = rest.drop n := by
  obtain ⟨gap, rfl, _, hgap, _⟩ := eq_append_of_skipTrivia h
  rw [hgap, drop_gap]

theorem exists_skipTrivia {ts us : List Token} {t : Token} (h : significant ts = t :: us) :
    ∃ rest, skipTrivia ts = t :: rest ∧ significant rest = us := by
  cases hskip : skipTrivia ts with
  | nil =>
      rw [← significant_skipTrivia, hskip] at h
      cases h
  | cons u rest =>
      rw [significant_of_skipTrivia hskip] at h
      cases h
      exact ⟨rest, rfl, rfl⟩

namespace Column

theorem closes_iff {u : Token} {rest : List Token} (hu : u.kind = .leftParen) :
    closes (u :: rest) ↔ ∃ i, closingParen? (u :: rest) = some i := by
  simp [closes, hu, Option.isSome_iff_exists]

theorem groupEnd_of_closingParen? {ts : List Token} {i : Nat} (h : closingParen? ts = some i) :
    groupEnd ts = i := by
  rw [groupEnd, h, Option.getD_some]

theorem exists_group {u : Token} {rest : List Token} (hu : u.kind = .leftParen)
    (h : closes (u :: rest)) :
    ∃ us, IsGroup us ∧
      significant (u :: rest) = us ++ significant (rest.drop (groupEnd (u :: rest))) := by
  obtain ⟨i, hi⟩ := (closes_iff hu).mp h
  obtain ⟨hclose, hlength, hsplit⟩ := significant_of_closingParen? hi
  have htrivia : u.isTrivia = false := by
    rw [Token.isTrivia, hu]
    rfl
  refine ⟨significant ((u :: rest).take (i + 1)), ⟨?_, ?_⟩, ?_⟩
  · rw [List.take_succ_cons, significant_cons htrivia]
    simpa using hu
  · rw [hsplit] at hclose
    have hlt : (significant ((u :: rest).take i)).length <
        (significant ((u :: rest).take (i + 1))).length := by omega
    rw [closingParen?, (closingParenFrom?_append_iff _ hlt).mp hclose, hlength]
    rfl
  · rw [groupEnd_of_closingParen? hi, hsplit]
    rfl

theorem closes_of_isGroup {ts us vs : List Token} (h : IsGroup us)
    (hts : significant ts = us ++ vs) :
    ∃ u rest, skipTrivia ts = u :: rest ∧ u.kind = .leftParen ∧ closes (u :: rest) ∧
      significant (rest.drop (groupEnd (u :: rest))) = vs := by
  obtain ⟨hhead, hclose⟩ := h
  cases us with
  | nil => simp at hhead
  | cons u us =>
      have hu : u.kind = .leftParen := by simpa using hhead
      obtain ⟨rest, hskip, _⟩ := exists_skipTrivia hts
      have hall : significant (u :: rest) = u :: us ++ vs := by
        rw [← hts, ← significant_skipTrivia ts, hskip]
      have hlt : (u :: us).length - 1 < (u :: us).length := Nat.sub_lt (by simp) Nat.one_pos
      have hclose' := (closingParenFrom?_append_iff vs hlt).mpr hclose
      rw [← hall, closingParenFrom?_significant] at hclose'
      obtain ⟨i, hi, hlength⟩ := Option.map_eq_some_iff.mp hclose'
      obtain ⟨_, hnext, hsplit⟩ := significant_of_closingParen? hi
      have hvs : vs = significant ((u :: rest).drop (i + 1)) := by
        refine (List.append_inj (hall.symm.trans hsplit) ?_).2
        simp only [List.length_cons] at hlength ⊢
        omega
      refine ⟨u, rest, hskip, hu, (closes_iff hu).mpr ⟨i, hi⟩, ?_⟩
      rw [groupEnd_of_closingParen? hi, hvs]
      rfl

/-! ## Default values -/

section
variable {t u : Token} {ts rest : List Token}

theorem drop_defaultValue_group (ht : t.kind = .leftParen) :
    (t :: ts).drop (defaultValue (t :: ts)).2 = ts.drop (groupEnd (t :: ts)) := by
  simp only [defaultValue, ht, if_true, List.drop_succ_cons]

theorem drop_defaultValue_call (ht : t.kind.isIdentifier) (hnext : skipTrivia ts = u :: rest)
    (hu : u.kind = .leftParen) :
    (t :: ts).drop (defaultValue (t :: ts)).2 = rest.drop (groupEnd (u :: rest)) := by
  have hleft : t.kind ≠ .leftParen := by
    intro h
    rw [h] at ht
    cases ht
  have hcount : triviaLength ts + groupEnd (u :: rest) + 2 =
      triviaLength ts + 1 + groupEnd (u :: rest) + 1 := by omega
  simp only [defaultValue, hleft, if_false, drop_triviaLength, hnext, ht, hu, hcount,
    decide_true, Bool.and_self, if_true, List.drop_succ_cons, drop_of_skipTrivia hnext]

theorem drop_defaultValue_negative (ht : t.kind = .minus) (hnext : skipTrivia ts = u :: rest)
    (hu : u.kind.isNumber) : (t :: ts).drop (defaultValue (t :: ts)).2 = rest := by
  have hname : Kind.minus.isIdentifier = false := rfl
  simp only [defaultValue, ht, reduceCtorEq, if_false, drop_triviaLength, hnext, hname,
    Bool.false_and, Bool.false_eq_true, hu, decide_true, Bool.and_self, if_true,
    List.drop_succ_cons]
  exact drop_of_skipTrivia hnext 0

theorem drop_defaultValue_single (hleft : t.kind ≠ .leftParen)
    (hnext : ∀ u ∈ (skipTrivia ts).head?, (t.kind.isIdentifier && u.kind = .leftParen) = false ∧
      (t.kind = .minus && u.kind.isNumber) = false) :
    (t :: ts).drop (defaultValue (t :: ts)).2 = ts := by
  simp only [defaultValue, hleft, if_false, drop_triviaLength]
  cases hskip : skipTrivia ts with
  | nil => rfl
  | cons u rest =>
      obtain ⟨hcall, hminus⟩ := hnext u (by rw [hskip]; rfl)
      simp only [hcall, hminus, Bool.false_eq_true, if_false]
      rfl

theorem exists_value (ht : t.isTrivia = false) (h : readsValue (t :: ts)) :
    ∃ us, IsValue us ∧
      significant (t :: ts) = us ++ significant ((t :: ts).drop (defaultValue (t :: ts)).2) := by
  rw [readsValue] at h
  by_cases hleft : t.kind = .leftParen
  · rw [if_pos hleft] at h
    obtain ⟨us, hgroup, hus⟩ := exists_group hleft h
    exact ⟨us, .group hgroup, by rw [hus, drop_defaultValue_group hleft]⟩
  · rw [if_neg hleft] at h
    cases hnext : skipTrivia ts with
    | nil =>
        rw [hnext] at h
        refine ⟨[t], .atom h, ?_⟩
        rw [drop_defaultValue_single hleft (by simp [hnext]), significant_cons ht]
        rfl
    | cons u rest =>
        simp only [hnext] at h
        by_cases hcall : t.kind.isIdentifier && u.kind = .leftParen
        · rw [if_pos hcall] at h
          obtain ⟨hname, hopen⟩ : t.kind.isIdentifier ∧ u.kind = .leftParen := by
            simpa using hcall
          obtain ⟨us, hgroup, hus⟩ := exists_group hopen h
          refine ⟨t :: us, .call hname hgroup, ?_⟩
          rw [drop_defaultValue_call hname hnext hopen, significant_cons ht,
            ← significant_skipTrivia, hnext, hus, List.cons_append]
        · rw [if_neg hcall, Bool.or_eq_true] at h
          by_cases hminus : t.kind = .minus && u.kind.isNumber
          · obtain ⟨hsign, hnumber⟩ : t.kind = .minus ∧ u.kind.isNumber := by simpa using hminus
            refine ⟨[t, u], .negative hsign hnumber, ?_⟩
            rw [drop_defaultValue_negative hsign hnext hnumber, significant_cons ht,
              significant_of_skipTrivia hnext]
            rfl
          · have hsingle : ∀ v ∈ (skipTrivia ts).head?,
                (t.kind.isIdentifier && v.kind = .leftParen) = false ∧
                  (t.kind = .minus && v.kind.isNumber) = false := by
              rw [hnext]
              rintro v ⟨⟩
              exact ⟨Bool.eq_false_iff.mpr hcall, Bool.eq_false_iff.mpr hminus⟩
            refine ⟨[t], .atom (h.resolve_left hminus), ?_⟩
            rw [drop_defaultValue_single hleft hsingle, significant_cons ht]
            rfl

end

/-- No group opens here. -/
def NoGroup (ts : List Token) : Prop := ∀ t ∈ ts.head?, t.kind ≠ .leftParen

theorem ne_leftParen_of_isAtom {t : Token} (h : isAtom t.kind) :
    t.kind ≠ .leftParen ∧ t.kind ≠ .minus := by
  constructor <;> intro hkind <;> rw [hkind] at h <;> cases h

theorem readsValue_of_isValue {ts us vs : List Token} (h : IsValue us)
    (hts : significant ts = us ++ vs) (hvs : NoGroup vs) :
    ∃ t rest, skipTrivia ts = t :: rest ∧ readsValue (t :: rest) ∧
      significant ((t :: rest).drop (defaultValue (t :: rest)).2) = vs := by
  cases h with
  | @atom t hatom =>
      obtain ⟨rest, hskip, hrest⟩ := exists_skipTrivia hts
      obtain ⟨hleft, hminus⟩ := ne_leftParen_of_isAtom hatom
      have hnext : ∀ u ∈ (skipTrivia rest).head?, u.kind ≠ .leftParen := by
        rw [head?_skipTrivia, hrest]
        exact hvs
      refine ⟨t, rest, hskip, ?_, ?_⟩
      · rw [readsValue, if_neg hleft]
        split
        · exact hatom
        · rename_i u rest' hskip'
          have hu := hnext u (by rw [hskip']; rfl)
          simp [hu, hatom]
      · rw [drop_defaultValue_single hleft (fun u hu => by simp [hnext u hu, hminus]), hrest]
        rfl
  | @negative t n ht hn =>
      obtain ⟨rest, hskip, hrest⟩ := exists_skipTrivia hts
      obtain ⟨rest', hskip', hrest'⟩ := exists_skipTrivia hrest
      refine ⟨t, rest, hskip, ?_, ?_⟩
      · simp [readsValue, ht, hn, hskip', Kind.isIdentifier, Kind.identifiers]
      · rw [drop_defaultValue_negative ht hskip' hn, hrest']
        rfl
  | group hgroup =>
      obtain ⟨u, rest, hskip, hu, hcloses, hrest⟩ := closes_of_isGroup hgroup hts
      refine ⟨u, rest, hskip, ?_, ?_⟩
      · rw [readsValue, if_pos hu]
        exact hcloses
      · rw [drop_defaultValue_group hu, hrest]
  | @call t us ht hgroup =>
      obtain ⟨rest, hskip, hrest⟩ := exists_skipTrivia hts
      obtain ⟨u, rest', hskip', hu, hcloses, hrest'⟩ := closes_of_isGroup hgroup hrest
      refine ⟨t, rest, hskip, ?_, ?_⟩
      · have hleft : t.kind ≠ .leftParen := by
          intro h
          rw [h] at ht
          cases ht
        simp [readsValue, hleft, hskip', ht, hu, hcloses]
      · rw [drop_defaultValue_call ht hskip' hu, hrest']

/-! ## Clauses -/

theorem comesNext_iff {k : Keyword} {ts : List Token} :
    comesNext k ts ↔ ∃ t rest, skipTrivia ts = t :: rest ∧ t.is k := by
  rw [comesNext, decide_eq_true_iff, firstKeyword?, firstSignificant?]
  cases skipTrivia ts with
  | nil => simp
  | cons t rest =>
      simp only [List.head?_cons, Option.bind_some, Token.keyword?, Token.is]
      split <;> simp_all

/-- The option that starts with `t` leaves `rest`, whatever stands before it. -/
def Leaves (d : Dialect) (t : Token) (ts rest : List Token) : Prop :=
  ∀ c, ∃ c' n, option? d c t ts = some (c', n) ∧ ts.drop n = rest

section
variable {d : Dialect} {t u : Token} {ts rest : List Token}

theorem leaves_notNull (ht : t.is .NOT) (hnext : skipTrivia ts = u :: rest) (hu : u.is .NULL) :
    Leaves d t ts rest := by
  intro c
  have hnull : comesNext .NULL ts := comesNext_iff.mpr ⟨u, rest, hnext, hu⟩
  refine ⟨{ c with nullable := false }, triviaLength ts + 1, ?_, drop_of_skipTrivia hnext 0⟩
  simp only [option?, kind_of_is ht, hnull, if_true]

theorem leaves_primaryKey (ht : t.is .PRIMARY) (hnext : skipTrivia ts = u :: rest)
    (hu : u.is .KEY) : Leaves d t ts rest := by
  intro c
  have hkey : comesNext .KEY ts := comesNext_iff.mpr ⟨u, rest, hnext, hu⟩
  refine ⟨{ c with primaryKey := true }, triviaLength ts + 1, ?_, drop_of_skipTrivia hnext 0⟩
  simp only [option?, kind_of_is ht, hkey, if_true]

theorem leaves_null (ht : t.is .NULL) : Leaves d t ts ts := by
  intro c
  refine ⟨{ c with nullable := true }, 0, ?_, rfl⟩
  simp only [option?, kind_of_is ht]

theorem leaves_identity (ht : t.is .IDENTITY) (hnext : NoGroup (skipTrivia ts)) :
    Leaves d t ts ts := by
  intro c
  refine ⟨{ c with identity := true }, 0, ?_, rfl⟩
  have hopen : ((skipTrivia ts).head?.any fun u => u.kind = .leftParen) = false := by
    cases hhead : (skipTrivia ts).head? with
    | none => rfl
    | some u => simpa using hnext u hhead
  simp only [option?, kind_of_is ht, hopen, Bool.false_eq_true, if_false]

theorem leaves_identityFrom (ht : t.is .IDENTITY) (hnext : skipTrivia ts = u :: rest)
    (hu : u.kind = .leftParen) : Leaves d t ts (rest.drop (groupEnd (u :: rest))) := by
  intro c
  refine ⟨{ c with identity := true }, triviaLength ts + 1 + groupEnd (u :: rest), ?_,
    drop_of_skipTrivia hnext _⟩
  simp only [option?, kind_of_is ht, hnext, List.head?_cons, Option.any_some, hu, decide_true,
    if_true]

theorem leaves_constraint (ht : t.is .CONSTRAINT) (hnext : skipTrivia ts = u :: rest) :
    Leaves d t ts rest := by
  intro c
  refine ⟨c, triviaLength ts + 1, ?_, drop_of_skipTrivia hnext 0⟩
  simp only [option?, kind_of_is ht]

theorem leaves_default (ht : t.is .DEFAULT) :
    Leaves d t ts ((skipTrivia ts).drop (defaultValue (skipTrivia ts)).2) := by
  intro c
  refine ⟨{ c with defaultValue := some (d.mapDefault (defaultValue (skipTrivia ts)).1) },
    triviaLength ts + (defaultValue (skipTrivia ts)).2, ?_, ?_⟩
  · simp only [option?, kind_of_is ht]
  · rw [← List.drop_drop, drop_triviaLength]

/-! ## Options -/

theorem options_of_leaves {rest' : List Token} (hskip : skipTrivia ts = t :: rest)
    (h : Leaves d t rest rest') (c : ColumnType) :
    ∃ c', ts.drop (options d c ts).2 = rest'.drop (options d c' rest').2 := by
  obtain ⟨c', n, hoption, rfl⟩ := h c
  refine ⟨c', ?_⟩
  rw [options]
  split
  · rename_i hnil
    rw [hnil] at hskip
    cases hskip
  · rename_i t' rest'' hcons
    rw [hcons] at hskip
    cases hskip
    simp only [hoption]
    rw [← drop_of_skipTrivia hcons n, List.drop_drop]

theorem optionStrays_of_leaves {rest' : List Token} (hskip : skipTrivia ts = t :: rest)
    (h : Leaves d t rest rest') :
    optionStrays d ts = [] ↔ readsClause t rest ∧ optionStrays d rest' = [] := by
  obtain ⟨c', n, hoption, rfl⟩ := h {}
  rw [optionStrays]
  split
  · rename_i hnil
    rw [hnil] at hskip
    cases hskip
  · rename_i t' rest'' hcons
    rw [hcons] at hskip
    cases hskip
    simp only [hoption, List.append_eq_nil_iff]
    cases readsClause t rest <;> simp

theorem length_le_of_leaves {rest' : List Token} (h : Leaves d t rest rest') :
    rest'.length ≤ rest.length := by
  obtain ⟨c', n, _, rfl⟩ := h {}
  simp

theorem exists_default (h : readsValue (skipTrivia ts)) :
    ∃ us, IsValue us ∧ significant ts =
      us ++ significant ((skipTrivia ts).drop (defaultValue (skipTrivia ts)).2) := by
  cases hskip : skipTrivia ts with
  | nil =>
      rw [hskip] at h
      cases h
  | cons v vs =>
      rw [hskip] at h
      obtain ⟨_, _, _, _, hv⟩ := eq_append_of_skipTrivia hskip
      rw [← significant_skipTrivia, hskip]
      exact exists_value hv h

/-- A clause takes in its own tokens. The name of a constraint is not a whole clause. -/
theorem exists_clause (ht : t.kind ≠ .keyword .CONSTRAINT) (h : readsClause t ts) :
    ∃ us rest, IsClause us ∧ Leaves d t ts rest ∧
      significant (t :: ts) = us ++ significant rest := by
  unfold readsClause at h
  split at h
  · rename_i hkind
    have his : t.is .NOT := by simp [Token.is, hkind]
    obtain ⟨u, rest, hnext, hu⟩ := comesNext_iff.mp h
    refine ⟨[t, u], rest, .notNull his hu, leaves_notNull his hnext hu, ?_⟩
    rw [significant_cons (isTrivia_of_is his), significant_of_skipTrivia hnext]
    rfl
  · rename_i hkind
    have his : t.is .NULL := by simp [Token.is, hkind]
    exact ⟨[t], ts, .null his, leaves_null his, significant_cons (isTrivia_of_is his) ts⟩
  · rename_i hkind
    have his : t.is .IDENTITY := by simp [Token.is, hkind]
    have hcons := significant_cons (isTrivia_of_is his) ts
    by_cases hopen : NoGroup (skipTrivia ts)
    · exact ⟨[t], ts, .identity his, leaves_identity his hopen, hcons⟩
    · obtain ⟨u, hhead, hu⟩ : ∃ u ∈ (skipTrivia ts).head?, u.kind = .leftParen := by
        simpa [NoGroup] using hopen
      obtain ⟨rest, hnext⟩ := List.head?_eq_some_iff.mp hhead
      rw [hnext] at h
      obtain ⟨us, hgroup, hus⟩ := exists_group hu h
      refine ⟨t :: us, _, .identityFrom his hgroup, leaves_identityFrom his hnext hu, ?_⟩
      rw [hcons, ← significant_skipTrivia, hnext, hus, List.cons_append]
  · rename_i hkind
    have his : t.is .PRIMARY := by simp [Token.is, hkind]
    obtain ⟨u, rest, hnext, hu⟩ := comesNext_iff.mp h
    refine ⟨[t, u], rest, .primaryKey his hu, leaves_primaryKey his hnext hu, ?_⟩
    rw [significant_cons (isTrivia_of_is his), significant_of_skipTrivia hnext]
    rfl
  · contradiction
  · rename_i hkind
    have his : t.is .DEFAULT := by simp [Token.is, hkind]
    obtain ⟨us, hvalue, hus⟩ := exists_default h
    refine ⟨t :: us, _, .default his hvalue, leaves_default his, ?_⟩
    rw [significant_cons (isTrivia_of_is his), hus, List.cons_append]
  · cases h

/-- The name of a constraint and the default after it make up one clause. -/
theorem exists_namedDefault {ts : List Token} (ht : t.is .CONSTRAINT)
    (hskip : skipTrivia ts = t :: rest) (hstrays : optionStrays d ts = []) (c : ColumnType) :
    ∃ us rest' c', IsClause us ∧ significant ts = us ++ significant rest' ∧
      rest'.length < rest.length ∧ optionStrays d rest' = [] ∧
      ts.drop (options d c ts).2 = rest'.drop (options d c' rest').2 := by
  cases hname : skipTrivia rest with
  | nil =>
      have hleaves : Leaves d t rest [] := by
        intro c
        refine ⟨c, triviaLength rest + 1, ?_, ?_⟩
        · simp only [option?, kind_of_is ht]
        · rw [← List.drop_drop, drop_triviaLength, hname]
          rfl
      have hclause := ((optionStrays_of_leaves hskip hleaves).mp hstrays).1
      simp [readsClause, kind_of_is ht, hname] at hclause
  | cons u more =>
      have hleaves : Leaves d t rest more := leaves_constraint ht hname
      obtain ⟨hclause, hmore⟩ := (optionStrays_of_leaves hskip hleaves).mp hstrays
      simp only [readsClause, kind_of_is ht, hname, Bool.and_eq_true] at hclause
      obtain ⟨v, after, hdefault, hv⟩ := comesNext_iff.mp hclause.2
      have hleaves' : Leaves d v after _ := leaves_default hv
      obtain ⟨hvalue, hafter⟩ := (optionStrays_of_leaves hdefault hleaves').mp hmore
      simp only [readsClause, kind_of_is hv] at hvalue
      obtain ⟨us, hus, hsplit⟩ := exists_default hvalue
      obtain ⟨c', hdrop⟩ := options_of_leaves hskip hleaves c
      obtain ⟨c'', hdrop'⟩ := options_of_leaves hdefault hleaves' c'
      refine ⟨t :: u :: v :: us, _, c'', .namedDefault ht hclause.1 hv hus, ?_, ?_, hafter,
        hdrop.trans hdrop'⟩
      · rw [significant_of_skipTrivia hskip, significant_of_skipTrivia hname,
          significant_of_skipTrivia hdefault, hsplit]
        rfl
      · have := length_lt_of_skipTrivia_eq_cons hname
        have := length_lt_of_skipTrivia_eq_cons hdefault
        have := length_le_of_leaves hleaves'
        omega

theorem map_snd_option? (c c' : ColumnType) :
    (option? d c t ts).map Prod.snd = (option? d c' t ts).map Prod.snd := by
  unfold option?
  dsimp only
  split <;> first | rfl | (split <;> rfl)

/-- Where no clause stands, the scan ends or there is a stray. -/
theorem option?_eq_none_of_strays {ts : List Token} (hskip : skipTrivia ts = t :: rest)
    (hclause : readsClause t rest = false) (h : optionStrays d ts = []) (c : ColumnType) :
    option? d c t rest = none := by
  rw [← Option.map_eq_none_iff (f := Prod.snd), map_snd_option? c {}, Option.map_eq_none_iff]
  rw [optionStrays] at h
  split at h
  · rename_i hnil
    rw [hnil] at hskip
    cases hskip
  · rename_i t' rest' hcons
    rw [hcons] at hskip
    cases hskip
    split at h
    · assumption
    · simp [hclause] at h

theorem drop_options_of_none {ts : List Token} {c : ColumnType}
    (h : ∀ t rest, skipTrivia ts = t :: rest → option? d c t rest = none) :
    significant (ts.drop (options d c ts).2) = significant ts := by
  rw [options]
  split
  · rfl
  · rename_i t rest hskip
    rw [h t rest hskip, drop_triviaLength, significant_skipTrivia]

/-- Options without strays are clauses. -/
theorem exists_clauses {ts : List Token} (h : optionStrays d ts = []) (c : ColumnType) :
    ∃ us, IsClauses us ∧ significant ts = us ++ significant (ts.drop (options d c ts).2) := by
  cases hskip : skipTrivia ts with
  | nil =>
      refine ⟨[], .nil, (drop_options_of_none ?_).symm⟩
      simp [hskip]
  | cons t rest =>
      have hlength := length_lt_of_skipTrivia_eq_cons hskip
      cases hclause : readsClause t rest with
      | false =>
          refine ⟨[], .nil, (drop_options_of_none ?_).symm⟩
          rw [hskip]
          rintro _ _ ⟨⟩
          exact option?_eq_none_of_strays hskip hclause h c
      | true =>
          by_cases hname : t.is .CONSTRAINT
          · obtain ⟨us, rest', c', hus, hsplit, hrest, hstrays, hdrop⟩ :=
              exists_namedDefault hname hskip h c
            obtain ⟨vs, hvs, htail⟩ := exists_clauses hstrays c'
            refine ⟨us ++ vs, .append hus hvs, ?_⟩
            rw [hsplit, hdrop, List.append_assoc, ← htail]
          · have hkind : t.kind ≠ .keyword .CONSTRAINT := by simpa [Token.is] using hname
            obtain ⟨us, rest', hus, hleaves, hsplit⟩ := exists_clause (d := d) hkind hclause
            have hstrays := ((optionStrays_of_leaves hskip hleaves).mp h).2
            obtain ⟨c', hdrop⟩ := options_of_leaves hskip hleaves c
            have hrest := length_le_of_leaves hleaves
            obtain ⟨vs, hvs, htail⟩ := exists_clauses hstrays c'
            refine ⟨us ++ vs, .append hus hvs, ?_⟩
            rw [hdrop, List.append_assoc, ← htail, ← hsplit, ← significant_skipTrivia, hskip]
  termination_by ts.length
  decreasing_by all_goals omega

end

/-! ## Clauses have no strays -/

/-- A column ends here. -/
def Stops (ts : List Token) : Prop := ∀ t ∈ ts.head?, t.kind = .comma ∨ t.kind = .semicolon

theorem noGroup_of_stops {vs : List Token} (h : Stops vs) : NoGroup vs := by
  intro t ht hkind
  have := h t ht
  simp [hkind] at this

theorem noGroup_of_isClause {us : List Token} (h : IsClause us) (vs : List Token) :
    NoGroup (us ++ vs) := by
  cases h <;> rintro _ ⟨⟩ <;> intro hkind <;> simp_all [Token.is]

theorem noGroup_of_isClauses {us vs : List Token} (h : IsClauses us) (hvs : Stops vs) :
    NoGroup (us ++ vs) := by
  cases h with
  | nil => exact noGroup_of_stops hvs
  | append h hs =>
      rw [List.append_assoc]
      exact noGroup_of_isClause h _

theorem closes_of_noGroup {ts : List Token} (h : NoGroup ts) : closes ts := by
  cases ts with
  | nil => rfl
  | cons t ts =>
      have ht : t.kind ≠ .leftParen := h t rfl
      simp [closes, ht]

section
variable {d : Dialect} {ts us vs : List Token}

/-- The scan takes in one clause and goes on after it. -/
theorem optionStrays_of_isClause (h : IsClause us) (hts : significant ts = us ++ vs)
    (hvs : NoGroup vs) :
    ∃ rest, significant rest = vs ∧ (optionStrays d rest = [] → optionStrays d ts = []) ∧
      ∀ c, ∃ c', ts.drop (options d c ts).2 = rest.drop (options d c' rest).2 := by
  have hstep {t : Token} {ts rest rest' : List Token} (hskip : skipTrivia ts = t :: rest)
      (hleaves : Leaves d t rest rest') (hclause : readsClause t rest) :
      (optionStrays d rest' = [] → optionStrays d ts = []) ∧
        ∀ c, ∃ c', ts.drop (options d c ts).2 = rest'.drop (options d c' rest').2 :=
    ⟨fun h => (optionStrays_of_leaves hskip hleaves).mpr ⟨hclause, h⟩,
      options_of_leaves hskip hleaves⟩
  cases h with
  | @notNull t u ht hu =>
      obtain ⟨rest, hskip, hrest⟩ := exists_skipTrivia hts
      obtain ⟨rest', hskip', hrest'⟩ := exists_skipTrivia hrest
      refine ⟨rest', hrest', hstep hskip (leaves_notNull ht hskip' hu) ?_⟩
      simpa [readsClause, kind_of_is ht] using comesNext_iff.mpr ⟨u, rest', hskip', hu⟩
  | @null t ht =>
      obtain ⟨rest, hskip, hrest⟩ := exists_skipTrivia hts
      refine ⟨rest, hrest, hstep hskip (leaves_null ht) ?_⟩
      simp [readsClause, kind_of_is ht]
  | @identity t ht =>
      obtain ⟨rest, hskip, hrest⟩ := exists_skipTrivia hts
      have hopen : NoGroup (skipTrivia rest) := by
        rw [NoGroup, head?_skipTrivia, hrest]
        exact hvs
      refine ⟨rest, hrest, hstep hskip (leaves_identity ht hopen) ?_⟩
      simpa [readsClause, kind_of_is ht] using closes_of_noGroup hopen
  | @identityFrom t us ht hgroup =>
      obtain ⟨rest, hskip, hrest⟩ := exists_skipTrivia hts
      obtain ⟨u, rest', hskip', hu, hcloses, hrest'⟩ := closes_of_isGroup hgroup hrest
      refine ⟨_, hrest', hstep hskip (leaves_identityFrom ht hskip' hu) ?_⟩
      simpa [readsClause, kind_of_is ht, hskip'] using hcloses
  | @primaryKey t u ht hu =>
      obtain ⟨rest, hskip, hrest⟩ := exists_skipTrivia hts
      obtain ⟨rest', hskip', hrest'⟩ := exists_skipTrivia hrest
      refine ⟨rest', hrest', hstep hskip (leaves_primaryKey ht hskip' hu) ?_⟩
      simpa [readsClause, kind_of_is ht] using comesNext_iff.mpr ⟨u, rest', hskip', hu⟩
  | @default t us ht hvalue =>
      obtain ⟨rest, hskip, hrest⟩ := exists_skipTrivia hts
      obtain ⟨v, rest', hnext, hreads, hrest'⟩ := readsValue_of_isValue hvalue hrest hvs
      rw [← hnext] at hreads hrest'
      refine ⟨_, hrest', hstep hskip (leaves_default ht) ?_⟩
      simpa [readsClause, kind_of_is ht] using hreads
  | @namedDefault k name t us hk hname ht hvalue =>
      -- two steps of the scan: the name of the constraint, and the default
      obtain ⟨rest, hskip, hrest⟩ := exists_skipTrivia hts
      obtain ⟨more, hskip', hmore⟩ := exists_skipTrivia hrest
      obtain ⟨after, hskip'', hafter⟩ := exists_skipTrivia hmore
      obtain ⟨v, rest', hnext, hreads, hrest'⟩ := readsValue_of_isValue hvalue hafter hvs
      rw [← hnext] at hreads hrest'
      have hdefault : comesNext .DEFAULT more := comesNext_iff.mpr ⟨t, after, hskip'', ht⟩
      obtain ⟨hstrays, hdrop⟩ := hstep hskip (leaves_constraint hk hskip')
        (by simp [readsClause, kind_of_is hk, hskip', hname, hdefault])
      obtain ⟨hstrays', hdrop'⟩ := hstep hskip'' (leaves_default ht)
        (by simpa [readsClause, kind_of_is ht] using hreads)
      refine ⟨_, hrest', hstrays ∘ hstrays', ?_⟩
      intro c
      obtain ⟨c', hc'⟩ := hdrop c
      obtain ⟨c'', hc''⟩ := hdrop' c'
      exact ⟨c'', hc'.trans hc''⟩

theorem option?_eq_none_of_stops {rest : List Token} {t : Token} (h : Stops (significant ts))
    (hskip : skipTrivia ts = t :: rest) (c : ColumnType) : option? d c t rest = none := by
  have ht := h t (by rw [significant_of_skipTrivia hskip]; rfl)
  rcases ht with hkind | hkind <;> simp only [option?, hkind]

/-- Clauses have no strays, and the options end with them. -/
theorem optionStrays_of_isClauses (h : IsClauses us) (hts : significant ts = us ++ vs)
    (hvs : Stops vs) :
    optionStrays d ts = [] ∧ ∀ c, significant (ts.drop (options d c ts).2) = vs := by
  induction h generalizing ts with
  | nil =>
      have hstop : Stops (significant ts) := by rwa [hts]
      refine ⟨?_, ?_⟩
      · rw [optionStrays]
        split
        · rfl
        · rename_i hskip
          rw [option?_eq_none_of_stops hstop hskip]
      · intro c
        rw [drop_options_of_none fun t rest hskip => option?_eq_none_of_stops hstop hskip c, hts]
        rfl
  | @append us ws h hs ih =>
      rw [List.append_assoc] at hts
      obtain ⟨rest, hrest, hstrays, hdrop⟩ :=
        optionStrays_of_isClause (d := d) h hts (noGroup_of_isClauses hs hvs)
      obtain ⟨htail, hvs'⟩ := ih hrest
      refine ⟨hstrays htail, ?_⟩
      intro c
      obtain ⟨c', hc'⟩ := hdrop c
      rw [hc', hvs']

end

/-! ## Columns -/

section
variable {d : Dialect} {t u : Token} {ts us rest : List Token}

theorem drop_dataType_group (hnext : skipTrivia us = t :: rest) (ht : t.kind = .leftParen) :
    us.drop (dataType d u us).2 = rest.drop (groupEnd (t :: rest)) := by
  have hcount : triviaLength us + groupEnd (t :: rest) + 1 =
      triviaLength us + 1 + groupEnd (t :: rest) := by omega
  simp only [dataType, drop_triviaLength, hnext, ht, if_true, hcount, drop_of_skipTrivia hnext]

theorem drop_dataType_of_noGroup (hnext : NoGroup (skipTrivia us)) :
    us.drop (dataType d u us).2 = us := by
  simp only [dataType, drop_triviaLength]
  split
  · rfl
  · rename_i v rest hskip
    rw [if_neg (hnext v (by rw [hskip]; rfl))]
    rfl

/-- A column with a type takes in the type and then the options. -/
theorem drop_define (hskip : skipTrivia ts = u :: us) (hu : u.kind.isIdentifier) :
    ∃ c, ts.drop (define d t ts).2 =
      (us.drop (dataType d u us).2).drop (options d c (us.drop (dataType d u us).2)).2 := by
  refine ⟨{ dataType := (dataType d u us).1 }, ?_⟩
  simp only [define, hskip, hu, if_true]
  rw [drop_of_skipTrivia hskip, ← List.drop_drop, drop_of_skipTrivia hskip]

/-- The arguments of a type, if it has any. -/
theorem exists_arguments (h : closes (skipTrivia us)) :
    ∃ args, (args = [] ∨ IsGroup args) ∧
      significant us = args ++ significant (us.drop (dataType d u us).2) := by
  by_cases hopen : NoGroup (skipTrivia us)
  · refine ⟨[], .inl rfl, ?_⟩
    rw [drop_dataType_of_noGroup hopen]
    rfl
  · obtain ⟨v, hhead, hv⟩ : ∃ v ∈ (skipTrivia us).head?, v.kind = .leftParen := by
      simpa [NoGroup] using hopen
    obtain ⟨rest, hnext⟩ := List.head?_eq_some_iff.mp hhead
    rw [hnext] at h
    obtain ⟨args, hgroup, hargs⟩ := exists_group hv h
    refine ⟨args, .inr hgroup, ?_⟩
    rw [drop_dataType_group hnext hv, ← hargs, ← hnext, significant_skipTrivia]

/-- A column without strays is one of the grammar. -/
theorem exists_column (ht : t.kind.isIdentifier) (h : strays d t ts = []) :
    ∃ us, IsColumn us ∧ t :: significant ts = us ++ significant (ts.drop (define d t ts).2) := by
  rw [strays] at h
  split at h
  · cases h
  · rename_i u us hskip
    by_cases hu : u.kind.isIdentifier
    · simp only [hu, if_true, List.append_eq_nil_iff] at h
      have hcloses : closes (skipTrivia us) := by
        by_contra hopen
        simp [hopen] at h
      obtain ⟨args, hargs, hus⟩ := exists_arguments (d := d) (u := u) hcloses
      obtain ⟨c, hdrop⟩ := drop_define (d := d) (t := t) hskip hu
      obtain ⟨clauses, hclauses, hrest⟩ := exists_clauses h.2 c
      refine ⟨t :: u :: (args ++ clauses), .intro ht hu hargs hclauses, ?_⟩
      rw [hdrop, significant_of_skipTrivia hskip, hus, hrest]
      simp
    · simp [hu] at h

theorem strays_of_isColumn {vs : List Token} (h : IsColumn us) (hts : significant ts = us ++ vs)
    (hvs : Stops vs) :
    ∃ t rest, skipTrivia ts = t :: rest ∧ strays d t rest = [] ∧
      significant (rest.drop (define d t rest).2) = vs := by
  obtain @⟨name, type, args, clauses, hname, htype, hargs, hclauses⟩ := h
  obtain ⟨rest, hskip, hrest⟩ := exists_skipTrivia hts
  obtain ⟨more, hskip', hmore⟩ := exists_skipTrivia hrest
  replace hmore : significant more = args ++ (clauses ++ vs) :=
    hmore.trans (List.append_assoc args clauses vs)
  have hopen := noGroup_of_isClauses hclauses hvs
  obtain ⟨hcloses, hafter⟩ : closes (skipTrivia more) ∧
      significant (more.drop (dataType d type more).2) = clauses ++ vs := by
    rcases hargs with rfl | hgroup
    · have hnext : NoGroup (skipTrivia more) := by
        rw [NoGroup, head?_skipTrivia, hmore]
        exact hopen
      refine ⟨closes_of_noGroup hnext, ?_⟩
      rw [drop_dataType_of_noGroup hnext, hmore]
      rfl
    · obtain ⟨v, after, hnext, hv, hcloses, hafter⟩ := closes_of_isGroup hgroup hmore
      refine ⟨by rwa [hnext], ?_⟩
      rw [drop_dataType_group hnext hv, hafter]
  obtain ⟨hstrays, hdrop⟩ := optionStrays_of_isClauses (d := d) hclauses hafter hvs
  obtain ⟨c, hdefine⟩ := drop_define (d := d) (t := name) hskip' htype
  refine ⟨name, rest, hskip, ?_, ?_⟩
  · rw [strays, hskip']
    simp [htype, hcloses, hstrays]
  · rw [hdefine, hdrop]

end

end Column

end SqlMigration
