import SqlMigration.Alteration.Sql
import SqlMigration.Dialect.Postgres
import SqlMigration.Proofs.Alteration.Columns
import SqlMigration.Proofs.Pattern
import SqlMigration.Token.Lexer

/-! # Which alterations are accepted

An alteration that makes up a whole statement is a sentence of the grammar if and only if it has no
strays. The steps of a pattern fix everything but the columns and the keys.
-/

namespace SqlMigration

open Grammar

/-- The tokens before `rest` are `us` and trivia. -/
def Reads (us ts rest : List Token) : Prop := ∃ taken, ts = taken ++ rest ∧ significant taken = us

namespace Reads

variable {us vs ts rest rest' : List Token} {t : Token}

theorem of_skipTrivia (h : skipTrivia ts = t :: rest) : Reads [] ts (t :: rest) := by
  obtain ⟨gap, hts, hgap, _, _⟩ := eq_append_of_skipTrivia h
  exact ⟨gap, hts, significant_eq_nil hgap⟩

theorem trans (h : Reads us ts rest) (h' : Reads vs rest rest') : Reads (us ++ vs) ts rest' := by
  obtain ⟨taken, rfl, rfl⟩ := h
  obtain ⟨taken', rfl, rfl⟩ := h'
  exact ⟨taken ++ taken', by simp, significant_append taken taken'⟩

theorem significant_eq (h : Reads us ts rest) : significant ts = us ++ significant rest := by
  obtain ⟨taken, rfl, rfl⟩ := h
  exact significant_append taken rest

theorem single (ht : t.isTrivia = false) : Reads [t] (t :: rest) rest :=
  ⟨[t], rfl, significant_cons ht []⟩

/-- A search that passes over trivia and the tokens read stops where the reading does. -/
theorem dropWhile_eq {p : Token → Bool} (h : Reads us ts (t :: rest)) (hus : us.all p)
    (htrivia : ∀ u, u.isTrivia → p u) (ht : p t = false) : ts.dropWhile p = t :: rest := by
  obtain ⟨taken, rfl, rfl⟩ := h
  have htaken : ∀ u ∈ taken, p u := by
    intro u hu
    by_cases htriv : u.isTrivia
    · exact htrivia u htriv
    · exact List.all_eq_true.mp hus u (List.mem_filter.mpr ⟨hu, by simpa using htriv⟩)
  rw [List.dropWhile_append_of_pos htaken, List.dropWhile_cons_of_neg (by simp [ht])]

end Reads

theorem isTrivia_of_isIdentifier {t : Token} (h : t.kind.isIdentifier) : t.isTrivia = false := by
  rw [Token.isTrivia]
  cases hkind : t.kind <;> rw [hkind] at h <;> first | rfl | cases h

/-! ## Steps -/

namespace Pattern

variable {p : Pattern} {ts : List Token} {c : Captures} {n : Nat}

theorem skips_eq (hp : p.keepComments = false) : p.skips = Token.isTrivia := by
  funext t
  simp [skips, hp, Token.isTrivia, Kind.isTrivia]

/-- What is left after a step has accepted `t`. -/
def afterStep (p : Pattern) (s : Step) (t : Token) (rest : List Token) : List Token :=
  match s.capture with
  | .nothing | .raw => rest
  | .identifier => rest.drop (nameAt t rest).2
  | .column => rest.drop (Column.define p.dialect t rest).2

/-- A step accepts the first significant token. -/
theorem matchStep_token {s : Step} (hp : p.keepComments = false)
    (h : p.matchStep s ts = .ok (c, n)) :
    ∃ t rest, skipTrivia ts = t :: rest ∧ s.kinds.contains t.kind ∧
      ts.drop n = p.afterStep s t rest := by
  simp only [matchStep, skips_eq hp] at h
  rw [← triviaLength, drop_triviaLength] at h
  split at h
  · cases h
  · rename_i t rest hskip
    by_cases hkind : s.kinds.contains t.kind
    · refine ⟨t, rest, hskip, hkind, ?_⟩
      rw [if_pos hkind] at h
      cases hcapture : s.capture with
      | nothing | raw =>
          simp only [hcapture] at h
          cases h
          simp only [afterStep, hcapture]
          exact drop_of_skipTrivia hskip 0
      | identifier | column =>
          simp only [hcapture] at h
          cases h
          simp only [afterStep, hcapture]
          exact drop_of_skipTrivia hskip _
    · rw [if_neg hkind] at h
      cases h

theorem matchStep_keyword {k : Keyword} (hp : p.keepComments = false)
    (h : p.matchStep (.keyword k) ts = .ok (c, n)) :
    ∃ t rest, skipTrivia ts = t :: rest ∧ t.is k ∧ ts.drop n = rest := by
  obtain ⟨t, rest, hskip, hkind, hdrop⟩ := matchStep_token hp h
  refine ⟨t, rest, hskip, ?_, hdrop⟩
  simpa [Step.keyword, Step.kind, Token.is] using hkind

theorem matchStep_identifier (hp : p.keepComments = false)
    (h : p.matchStep .identifier ts = .ok (c, n)) :
    ∃ name, IsName name ∧ Reads name ts (ts.drop n) := by
  obtain ⟨t, rest, hskip, hkind, hdrop⟩ := matchStep_token hp h
  have ht : t.kind.isIdentifier := hkind
  obtain ⟨_, _, _, _, htrivia⟩ := eq_append_of_skipTrivia hskip
  have hread := Reads.of_skipTrivia hskip
  have hplain : ∃ name, IsName name ∧ Reads name ts rest :=
    ⟨[t], .plain ht, hread.trans (.single htrivia)⟩
  rw [hdrop]
  simp only [afterStep, Step.identifier]
  cases rest with
  | nil => exact hplain
  | cons dot rest =>
      cases rest with
      | nil => exact hplain
      | cons u rest =>
          simp only [nameAt]
          by_cases hdbo : startsWithDbo (t :: dot :: u :: rest) && u.kind.isIdentifier
          · obtain ⟨⟨hword, hdot⟩, hu⟩ :
                (t.isWord "dbo" ∧ dot.kind = .dot) ∧ u.kind.isIdentifier := by
              simpa [startsWithDbo] using hdbo
            refine ⟨[t, dot, u], .qualified hword hdot hu, hread.trans ?_⟩
            rw [if_pos hdbo]
            exact ((Reads.single htrivia).trans (.single (isTrivia_of_kind hdot rfl))).trans
              (.single (isTrivia_of_isIdentifier hu))
          · rw [if_neg hdbo]
            exact hplain

theorem matchSteps_cons {s : Step} {steps : List Step}
    (h : p.matchSteps (s :: steps) ts = .ok (c, n)) :
    ∃ c₁ n₁ c₂ n₂, p.matchStep s ts = .ok (c₁, n₁) ∧
      p.matchSteps steps (ts.drop n₁) = .ok (c₂, n₂) ∧ ts.drop n = (ts.drop n₁).drop n₂ := by
  rw [matchSteps] at h
  split at h
  · cases h
  · rename_i c₁ n₁ hstep
    split at h
    · cases h
    · rename_i c₂ n₂ hsteps
      cases h
      exact ⟨c₁, n₁, c₂, n₂, hstep, hsteps, List.drop_drop.symm⟩

/-- The one step of a list of steps. -/
theorem matchSteps_single {s : Step} (h : p.matchSteps [s] ts = .ok (c, n)) :
    ∃ c' n', p.matchStep s ts = .ok (c', n') ∧ ts.drop n = ts.drop n' := by
  obtain ⟨c₁, n₁, c₂, n₂, hstep, hnil, hdrop⟩ := matchSteps_cons h
  cases hnil
  exact ⟨c₁, n₁, hstep, hdrop⟩

theorem matchSteps_keyword {k : Keyword} {steps : List Step} (hp : p.keepComments = false)
    (h : p.matchSteps (.keyword k :: steps) ts = .ok (c, n)) :
    ∃ t rest c' n', skipTrivia ts = t :: rest ∧ t.is k ∧
      p.matchSteps steps rest = .ok (c', n') ∧ ts.drop n = rest.drop n' := by
  obtain ⟨c₁, n₁, c₂, n₂, hstep, hsteps, hdrop⟩ := matchSteps_cons h
  obtain ⟨t, rest, hskip, ht, hrest⟩ := matchStep_keyword hp hstep
  rw [hrest] at hsteps hdrop
  exact ⟨t, rest, c₂, n₂, hskip, ht, hsteps, hdrop⟩

theorem matchSteps_identifier {steps : List Step} (hp : p.keepComments = false)
    (h : p.matchSteps (.identifier :: steps) ts = .ok (c, n)) :
    ∃ name rest c' n', IsName name ∧ Reads name ts rest ∧
      p.matchSteps steps rest = .ok (c', n') ∧ ts.drop n = rest.drop n' := by
  obtain ⟨c₁, n₁, c₂, n₂, hstep, hsteps, hdrop⟩ := matchSteps_cons h
  obtain ⟨name, hname, hread⟩ := matchStep_identifier hp hstep
  exact ⟨name, ts.drop n₁, c₂, n₂, hname, hread, hsteps, hdrop⟩

theorem run?_eq_some (h : p.run? ts = some (c, n)) :
    ∃ c' n', p.matchSteps p.steps ts = .ok (c', n') ∧
      ts.drop n = (ts.drop n').drop (p.matchTail (ts.drop n')).2 := by
  simp only [run?, run] at h
  split at h
  · cases h
  · split at h
    · cases h
    · rename_i c' n' hsteps
      cases h
      exact ⟨c', n', hsteps, List.drop_drop.symm⟩

end Pattern

theorem Reads.keyword {us ts rest : List Token} {t : Token} {k : Keyword} {rest' : List Token}
    (h : Reads us ts rest) (hskip : skipTrivia rest = t :: rest') (ht : t.is k) :
    Reads (us ++ [t]) ts rest' := by
  have h' := h.trans (.of_skipTrivia hskip)
  rw [List.append_nil] at h'
  exact h'.trans (.single (isTrivia_of_is ht))

/-! ## Alignment -/

/-- Two readings of one list that pass over tokens of the same sort end at the same token. -/
theorem append_cons_inj {p : Token → Bool} {xs ys l m : List Token} {x y : Token}
    (h : xs ++ x :: l = ys ++ y :: m) (hxs : xs.all p) (hys : ys.all p) (hx : p x = false)
    (hy : p y = false) : xs = ys ∧ x = y ∧ l = m := by
  have htake := congrArg (List.takeWhile p) h
  rw [List.takeWhile_append_of_pos (List.all_eq_true.mp hxs),
    List.takeWhile_append_of_pos (List.all_eq_true.mp hys),
    List.takeWhile_cons_of_neg (by simp [hx]), List.takeWhile_cons_of_neg (by simp [hy]),
    List.append_nil, List.append_nil] at htake
  subst htake
  simpa using h

def isNamePart (t : Token) : Bool := t.kind.isIdentifier || t.kind = .dot

theorem isNamePart_of_is {t : Token} {k : Keyword} (h : t.is k) : isNamePart t = false := by
  rw [isNamePart, kind_of_is h]
  rfl

theorem all_isNamePart {name : List Token} (h : IsName name) : name.all isNamePart := by
  cases h with
  | plain ht => simp [isNamePart, ht]
  | qualified hq hdot ht =>
      have hq' := (Bool.and_eq_true_iff.mp hq).1
      simp [isNamePart, hq', hdot, ht]

theorem isOpening_inj {us vs xs ys : List Token} {x y : Token} {k k' : Keyword}
    (hus : IsOpening us) (hvs : IsOpening vs) (h : us ++ x :: xs = vs ++ y :: ys) (hx : x.is k)
    (hy : y.is k') : us = vs ∧ x = y ∧ xs = ys := by
  obtain ⟨_, _, hname⟩ := hus
  obtain ⟨_, _, hname'⟩ := hvs
  obtain ⟨rfl, rfl, htail⟩ : _ ∧ _ ∧ _ := by simpa using h
  obtain ⟨rfl, rfl, rfl⟩ := append_cons_inj htail (all_isNamePart hname) (all_isNamePart hname')
    (isNamePart_of_is hx) (isNamePart_of_is hy)
  exact ⟨rfl, rfl, rfl⟩

namespace Alteration

variable {d : Dialect} {ts : List Token} {a : Alteration} {n : Nat}

/-- Every pattern of an alteration starts with the opening. -/
theorem reads_opening {steps tail : List Step} {c : Captures}
    (h : (pattern d steps tail).run? ts = some (c, n)) :
    ∃ us rest c' n', IsOpening us ∧ Reads us ts rest ∧
      (pattern d steps tail).matchSteps steps rest = .ok (c', n') ∧
      ts.drop n = (rest.drop n').drop ((pattern d steps tail).matchTail (rest.drop n')).2 := by
  obtain ⟨c₀, n₀, hsteps, hdrop⟩ := Pattern.run?_eq_some h
  obtain ⟨t, r₁, _, n₁, hskip, ht, h₁, hdrop₁⟩ := Pattern.matchSteps_keyword rfl hsteps
  obtain ⟨u, r₂, _, n₂, hskip', hu, h₂, hdrop₂⟩ := Pattern.matchSteps_keyword rfl h₁
  obtain ⟨name, r₃, c', n', hname, hread, h₃, hdrop₃⟩ := Pattern.matchSteps_identifier rfl h₂
  have halter : Reads [t] ts r₁ := (Reads.of_skipTrivia hskip).trans (.single (isTrivia_of_is ht))
  have htable : Reads [t, u] ts r₂ := halter.keyword hskip' hu
  refine ⟨t :: u :: name, r₃, c', n', .intro ht hu hname, htable.trans hread, h₃, ?_⟩
  rw [hdrop, hdrop₁, hdrop₂, hdrop₃]

theorem isTerminator_iff {ts : List Token} :
    isTerminator ts ↔ ∀ t ∈ significant ts, t.kind = .semicolon := by
  simp only [isTerminator, List.all_eq_true, significant, List.mem_filter]
  constructor
  · rintro h t ⟨ht, htrivia⟩
    simpa [Bool.eq_false_iff.mpr (by simpa using htrivia)] using h t ht
  · intro h t ht
    by_cases htrivia : t.isTrivia
    · simp [htrivia]
    · simp [h t ⟨ht, by simpa using htrivia⟩]

/-! ## Lists of columns -/

/-- The strays of the columns after a comma. -/
def nextStrays (d : Dialect) (ts : List Token) : List Token :=
  match skipTrivia ts with
  | [] => []
  | t :: rest => if t.kind = .comma then columnStrays d rest else []

theorem columnStrays_eq {t : Token} {rest : List Token} (hskip : skipTrivia ts = t :: rest) :
    columnStrays d ts =
      Column.strays d t rest ++ nextStrays d (rest.drop (Column.define d t rest).2) := by
  rw [columnStrays]
  split
  · rename_i hnil
    rw [hnil] at hskip
    cases hskip
  · rename_i t' rest' hcons
    rw [hcons] at hskip
    cases hskip
    dsimp only
    congr 1
    split <;> rename_i hnext <;> simp only [nextStrays, hnext]

/-- The repetitions of a comma and a column go on a list of columns. -/
theorem exists_columnTail {p : Pattern} (hp : p.keepComments = false)
    (htail : p.tail = Alteration.moreSteps) (h : nextStrays p.dialect ts = []) :
    ∃ us, (∀ vs, IsColumn vs → CommaList IsColumn (vs ++ us)) ∧
      significant ts = us ++ significant (ts.drop (p.matchTail ts).2) := by
  have hnone (ts : List Token) : ∃ us, (∀ vs, IsColumn vs → CommaList IsColumn (vs ++ us)) ∧
      significant ts = us ++ significant (ts.drop 0) :=
    ⟨[], fun vs hvs => by simpa using CommaList.one hvs, rfl⟩
  fun_induction p.matchTail ts with
  | case1 => exact hnone []
  | case2 t ts c n hsteps c' m hrest ih =>
      rw [htail] at hsteps
      obtain ⟨_, n₁, _, n₂, hcomma, hcolumn, hdrop⟩ := Pattern.matchSteps_cons hsteps
      obtain ⟨u, more, hskip, hu, hmore⟩ := Pattern.matchStep_token hp hcomma
      replace hu : u.kind = .comma := by simpa [Step.kind] using hu
      replace hmore : (t :: ts).drop n₁ = more := hmore
      rw [hmore] at hcolumn hdrop
      obtain ⟨_, n₃, hcolumn, hdrop'⟩ := Pattern.matchSteps_single hcolumn
      obtain ⟨v, after, hskip', hv, hafter⟩ := Pattern.matchStep_token hp hcolumn
      have hdrop'' : ts.drop n = after.drop (Column.define p.dialect v after).2 :=
        (hdrop.trans hdrop').trans hafter
      have hstrays : columnStrays p.dialect more = [] := by
        simpa only [nextStrays, hskip, hu, if_true] using h
      rw [columnStrays_eq hskip', List.append_eq_nil_iff, ← hdrop''] at hstrays
      obtain ⟨vs, hcolumn, hvs⟩ := Column.exists_column hv hstrays.1
      obtain ⟨us, hus, htokens⟩ := ih hstrays.2
      refine ⟨u :: (vs ++ us), fun ws hws => .more hws hu (hus vs hcolumn), ?_⟩
      have hend : (t :: ts).drop (n + 1 + m) = (ts.drop n).drop (p.matchTail (ts.drop n)).2 := by
        rw [hrest, Nat.add_right_comm, List.drop_succ_cons, List.drop_drop]
      rw [significant_of_skipTrivia hskip, significant_of_skipTrivia hskip', hvs, ← hdrop'', hend,
        List.cons_append, List.append_assoc, ← htokens]
  | case3 t ts hsteps => exact hnone _

/-- The columns that a pattern reads make up a list of the grammar if they have no strays. -/
theorem exists_columns {p : Pattern} {c : Captures} (hp : p.keepComments = false)
    (htail : p.tail = Alteration.moreSteps) (hstep : p.matchStep .column ts = .ok (c, n))
    (h : columnStrays p.dialect ts = []) :
    ∃ us, CommaList IsColumn us ∧
      significant ts = us ++ significant ((ts.drop n).drop (p.matchTail (ts.drop n)).2) := by
  obtain ⟨t, rest, hskip, ht, hrest⟩ := Pattern.matchStep_token hp hstep
  replace hrest : ts.drop n = rest.drop (Column.define p.dialect t rest).2 := hrest
  rw [columnStrays_eq hskip, List.append_eq_nil_iff, ← hrest] at h
  obtain ⟨us, hcolumn, hus⟩ := Column.exists_column ht h.1
  obtain ⟨vs, hvs, htokens⟩ := exists_columnTail hp htail h.2
  refine ⟨us ++ vs, hvs us hcolumn, ?_⟩
  rw [significant_of_skipTrivia hskip, hus, ← hrest, htokens, List.append_assoc]

/-- A list of columns of the grammar has no strays. -/
theorem columnStrays_of_commaList {us vs : List Token} (h : CommaList IsColumn us)
    (hts : significant ts = us ++ vs) (hvs : ∀ v ∈ vs, v.kind = .semicolon) :
    columnStrays d ts = [] := by
  induction h generalizing ts with
  | one hcolumn =>
      have hstops : Column.Stops vs := fun v hv => .inr (hvs v (List.mem_of_mem_head? hv))
      obtain ⟨t, rest, hskip, hstrays, hrest⟩ :=
        Column.strays_of_isColumn (d := d) hcolumn hts hstops
      rw [columnStrays_eq hskip, hstrays, List.nil_append, nextStrays]
      split
      · rfl
      · rename_i u more hnext
        rw [significant_of_skipTrivia hnext] at hrest
        have hu := hvs u (by rw [← hrest]; exact List.mem_cons_self)
        simp [hu]
  | @more us ws t hcolumn ht hs ih =>
      have hstops : Column.Stops (t :: (ws ++ vs)) := by
        rintro _ ⟨⟩
        exact .inl ht
      rw [List.append_assoc] at hts
      obtain ⟨v, rest, hskip, hstrays, hrest⟩ :=
        Column.strays_of_isColumn (d := d) hcolumn hts hstops
      obtain ⟨more, hnext, hmore⟩ := exists_skipTrivia hrest
      rw [columnStrays_eq hskip, hstrays, List.nil_append, nextStrays, hnext]
      simp only [ht, if_true]
      exact ih hmore

/-! ## Lists of keys -/

theorem isIdentifier_of_isDirection {t : Token} (h : isDirection t) : t.kind.isIdentifier := by
  rw [isDirection, Bool.or_eq_true] at h
  rcases h with h | h <;> exact (Bool.and_eq_true_iff.mp h).1

theorem kind_ne_of_isIdentifier {t : Token} {k : Kind} (h : t.kind.isIdentifier)
    (hk : k.isIdentifier = false) : t.kind ≠ k := by
  rintro rfl
  rw [h] at hk
  cases hk

theorem readsKeys_iff {us : List Token} : readsKeys us ↔ CommaList IsKey us := by
  constructor
  · intro h
    fun_induction readsKeys us with
    | case1 => cases h
    | case2 t ts ih =>
        rw [Bool.and_eq_true, Bool.and_eq_true, Bool.not_eq_true'] at h
        obtain ⟨⟨ht, hword⟩, hrest⟩ := h
        have hplain : IsKey [t] := .plain ht hword
        cases ts with
        | nil => exact .one hplain
        | cons u us =>
            by_cases hcomma : u.kind = .comma
            · simp only [hcomma, if_true] at hrest
              exact CommaList.more hplain hcomma (ih.1 hrest)
            · simp only [hcomma, if_false, Bool.and_eq_true] at hrest
              obtain ⟨hu, hrest⟩ := hrest
              have hkey : IsKey [t, u] := .directed ht hword hu
              cases us with
              | nil => exact .one hkey
              | cons v vs =>
                  simp only [Bool.and_eq_true, decide_eq_true_iff] at hrest
                  exact CommaList.more hkey hrest.1 (ih.2 hrest.2)
  · intro h
    induction h with
    | one hkey =>
        cases hkey with
        | plain ht hword => simp [readsKeys, ht, hword]
        | directed ht hword hu =>
            have hcomma := kind_ne_of_isIdentifier (isIdentifier_of_isDirection hu)
              (rfl : Kind.comma.isIdentifier = false)
            simp [readsKeys, ht, hword, hu, hcomma]
    | more hkey hcomma hs ih =>
        cases hkey with
        | plain ht hword =>
            rw [List.singleton_append]
            unfold readsKeys
            simp [ht, hword, hcomma, ih]
        | directed ht hword hu =>
            have hne := kind_ne_of_isIdentifier (isIdentifier_of_isDirection hu)
              (rfl : Kind.comma.isIdentifier = false)
            simp [readsKeys, ht, hword, hu, hne, hcomma, ih]

theorem inKeys_of_isIdentifier {t : Token} (h : t.kind.isIdentifier) : inKeys t := by
  simpa [inKeys] using kind_ne_of_isIdentifier h rfl

theorem all_inKeys {us : List Token} (h : CommaList IsKey us) : us.all inKeys := by
  have hkey {us : List Token} (h : IsKey us) : us.all inKeys := by
    cases h with
    | plain ht _ => simpa using inKeys_of_isIdentifier ht
    | directed ht _ hu =>
        simpa using ⟨inKeys_of_isIdentifier ht,
          inKeys_of_isIdentifier (isIdentifier_of_isDirection hu)⟩
  induction h with
  | one h => exact hkey h
  | more h ht hs ih =>
      rw [List.all_append, List.all_cons, hkey h, ih]
      simp [inKeys, ht]

/-- The keys are read up to the first parenthesis that closes. -/
theorem drop_keyColumns {keys after : List Token} {right : Token} (hkeys : keys.all inKeys)
    (hright : right.kind = .rightParen) :
    (keys ++ right :: after).drop (keyColumns (keys ++ right :: after)).2 = after := by
  induction keys with
  | nil => simp [keyColumns, hright]
  | cons t ts ih =>
      rw [List.all_cons, Bool.and_eq_true] at hkeys
      have hkind : t.kind ≠ .rightParen := by simpa [inKeys] using hkeys.1
      have hcount (us : List Token) : (keyColumns (t :: us)).2 = (keyColumns us).2 + 1 := by
        simp only [keyColumns, hkind, if_false]
        split <;> rfl
      rw [List.cons_append, hcount, List.drop_succ_cons, ih hkeys.2]

theorem takeWhile_inKeys {keys after : List Token} {right : Token} (hkeys : keys.all inKeys)
    (hright : right.kind = .rightParen) : (keys ++ right :: after).takeWhile inKeys = keys := by
  rw [List.takeWhile_append_of_pos (List.all_eq_true.mp hkeys),
    List.takeWhile_cons_of_neg (by simp [inKeys, hright]), List.append_nil]

/-- A list with a parenthesis that closes, cut at the first one. -/
theorem exists_rightParen {ts : List Token} (h : ¬ (significant ts).all inKeys) :
    ∃ keys right after, ts = keys ++ right :: after ∧ keys.all inKeys ∧
      right.kind = .rightParen := by
  induction ts with
  | nil => simp [significant] at h
  | cons t ts ih =>
      by_cases ht : inKeys t
      · have hrest : ¬ (significant ts).all inKeys := by
          cases htrivia : t.isTrivia <;> simp_all [significant]
        obtain ⟨keys, right, after, rfl, hkeys, hright⟩ := ih hrest
        refine ⟨t :: keys, right, after, rfl, ?_, hright⟩
        rw [List.all_cons, ht, hkeys]
        rfl
      · exact ⟨[], t, ts, rfl, rfl, by simpa [inKeys] using ht⟩

theorem keyStrays_eq_nil_iff {left : Token} {inner : List Token} (hleft : left.kind = .leftParen) :
    keyStrays (left :: inner) = [] ↔ ¬ (significant inner).all inKeys ∧
      CommaList IsKey ((significant inner).takeWhile inKeys) := by
  have hne : significant (left :: inner) ≠ [] := by
    rw [significant_cons (isTrivia_of_kind hleft rfl)]
    exact List.cons_ne_nil _ _
  simp only [keyStrays, List.tail_cons, ← readsKeys_iff]
  rcases Bool.eq_false_or_eq_true ((significant inner).all inKeys) with hall | hall <;>
    rcases Bool.eq_false_or_eq_true (readsKeys ((significant inner).takeWhile inKeys)) with
      hkeys | hkeys <;>
    simp only [hall, hkeys] <;> simp [hne]

/-- Keys without strays are those of the grammar. -/
theorem exists_keys {left : Token} {inner : List Token} (hleft : left.kind = .leftParen)
    (h : keyStrays (left :: inner) = []) :
    ∃ keys right, CommaList IsKey keys ∧ right.kind = .rightParen ∧
      significant inner = keys ++ right :: significant (inner.drop (keyColumns inner).2) := by
  obtain ⟨hclose, hkeys⟩ := (keyStrays_eq_nil_iff hleft).mp h
  obtain ⟨body, right, after, rfl, hbody, hright⟩ := exists_rightParen hclose
  have hsplit : significant (body ++ right :: after) =
      significant body ++ right :: significant after := by
    rw [significant_append, significant_cons (isTrivia_of_kind hright rfl)]
  have hall : (significant body).all inKeys :=
    List.all_eq_true.mpr fun t ht => List.all_eq_true.mp hbody t (List.mem_filter.mp ht).1
  rw [hsplit, takeWhile_inKeys hall hright] at hkeys
  refine ⟨significant body, right, hkeys, hright, ?_⟩
  rw [drop_keyColumns hbody hright, hsplit]

theorem keyStrays_of_keys {left right : Token} {inner keys vs : List Token}
    (hleft : left.kind = .leftParen) (hkeys : CommaList IsKey keys)
    (hright : right.kind = .rightParen) (h : significant inner = keys ++ right :: vs) :
    keyStrays (left :: inner) = [] := by
  rw [keyStrays_eq_nil_iff hleft, h, takeWhile_inKeys (all_inKeys hkeys) hright]
  exact ⟨by simp [inKeys, hright], hkeys⟩

/-! ## The four forms -/

/-- The words between `KEY` and the keys. -/
theorem reads_storage {t : Token} {inner : List Token}
    (h : ts.drop (ts.takeWhile fun t => t.isTrivia || isStorageWord t).length = t :: inner) :
    ∃ storage, (∀ w ∈ storage, isStorageWord w) ∧ Reads storage ts (t :: inner) := by
  refine ⟨significant (ts.takeWhile fun t => t.isTrivia || isStorageWord t), ?_, _, ?_, rfl⟩
  · intro w hw
    obtain ⟨hmem, htrivia⟩ := List.mem_filter.mp hw
    have hw := List.mem_takeWhile_imp hmem
    rw [Bool.not_eq_true'] at htrivia
    simpa [htrivia] using hw
  · rw [← h]
    exact (List.prefix_iff_eq_append.mp (List.takeWhile_prefix _)).symm

theorem reads_addPrimaryKey (h : addPrimaryKey? d ts = some (a, n)) :
    ∃ opening head left inner, IsOpening opening ∧ IsKeyHead head ∧
      Reads (opening ++ head) ts (left :: inner) ∧ left.kind = .leftParen ∧
      ts.drop n = inner.drop (keyColumns inner).2 := by
  unfold addPrimaryKey? at h
  dsimp only at h
  split at h
  · rename_i n₀ hrun
    obtain ⟨us, r₀, _, _, hopening, hread, hsteps, hdrop⟩ := reads_opening hrun
    obtain ⟨t, r₁, _, n₁, hskip₁, ht, h₁, hdrop₁⟩ := Pattern.matchSteps_keyword rfl hsteps
    obtain ⟨u, r₂, _, n₂, hskip₂, hu, h₂, hdrop₂⟩ := Pattern.matchSteps_keyword rfl h₁
    obtain ⟨name, r₃, _, n₃, hname, hreadName, h₃, hdrop₃⟩ := Pattern.matchSteps_identifier rfl h₂
    obtain ⟨p, r₄, _, n₄, hskip₄, hp, h₄, hdrop₄⟩ := Pattern.matchSteps_keyword rfl h₃
    obtain ⟨k, r₅, _, n₅, hskip₅, hk, h₅, hdrop₅⟩ := Pattern.matchSteps_keyword rfl h₄
    cases h₅
    have hkey := ((((hread.keyword hskip₁ ht).keyword hskip₂ hu).trans hreadName).keyword
      hskip₄ hp).keyword hskip₅ hk
    have hrest : ts.drop n₀ = r₅ := by
      rw [hdrop, Pattern.matchTail_of_tail_eq_nil rfl, hdrop₁, hdrop₂, hdrop₃, hdrop₄, hdrop₅]
      rfl
    rw [hrest] at h
    split at h
    · cases h
    · rename_i left inner hgap
      split at h
      · rename_i hleft
        obtain ⟨storage, hstorage, hreadStorage⟩ := reads_storage hgap
        cases h
        refine ⟨us, t :: u :: (name ++ p :: k :: storage), left, inner, hopening,
          .intro ht hu hname hp hk hstorage, ?_, hleft, ?_⟩
        · simpa using hkey.trans hreadStorage
        · rw [Nat.add_assoc, Nat.add_assoc, ← List.drop_drop, hrest, ← List.drop_drop, hgap,
            Nat.add_comm 1, List.drop_succ_cons]
      · cases h
  · cases h

theorem reads_dropConstraint (h : dropConstraint? d ts = some (a, n)) :
    ∃ opening action, IsOpening opening ∧ IsAction action ∧
      Reads (opening ++ action) ts (ts.drop n) := by
  unfold dropConstraint? at h
  split at h
  · rename_i hrun
    obtain ⟨us, r₀, _, _, hopening, hread, hsteps, hdrop⟩ := reads_opening hrun
    obtain ⟨t, r₁, _, n₁, hskip₁, ht, h₁, hdrop₁⟩ := Pattern.matchSteps_keyword rfl hsteps
    obtain ⟨u, r₂, _, n₂, hskip₂, hu, h₂, hdrop₂⟩ := Pattern.matchSteps_keyword rfl h₁
    obtain ⟨name, r₃, _, n₃, hname, hreadName, h₃, hdrop₃⟩ := Pattern.matchSteps_identifier rfl h₂
    cases h₃
    cases h
    refine ⟨us, t :: u :: name, hopening, .dropConstraint ht hu hname, ?_⟩
    have hrest : ts.drop n = r₃ := by
      rw [hdrop, Pattern.matchTail_of_tail_eq_nil rfl, hdrop₁, hdrop₂, hdrop₃]
      rfl
    rw [hrest]
    simpa using ((hread.keyword hskip₁ ht).keyword hskip₂ hu).trans hreadName
  · cases h

theorem reads_addColumns (h : addColumns? d ts = some (a, n)) :
    ∃ opening add rest, IsOpening opening ∧ add.is .ADD ∧ Reads opening ts (add :: rest) ∧
      (∃ v vs, significant rest = v :: vs ∧ v.kind.isIdentifier) ∧
      (columnStrays d rest = [] →
        ∃ us, CommaList IsColumn us ∧ significant rest = us ++ significant (ts.drop n)) := by
  unfold addColumns? at h
  split at h
  · rename_i hrun
    obtain ⟨us, r₀, _, _, hopening, hread, hsteps, hdrop⟩ := reads_opening hrun
    obtain ⟨t, r₁, _, n₁, hskip₁, ht, h₁, hdrop₁⟩ := Pattern.matchSteps_keyword rfl hsteps
    obtain ⟨_, n₂, h₂, hdrop₂⟩ := Pattern.matchSteps_single h₁
    obtain ⟨v, after, hskip₂, hv, _⟩ := Pattern.matchStep_token rfl h₂
    cases h
    refine ⟨us, t, r₁, hopening, ht, by simpa using hread.trans (.of_skipTrivia hskip₁),
      ⟨v, significant after, significant_of_skipTrivia hskip₂, hv⟩, ?_⟩
    intro hstrays
    rw [hdrop, hdrop₁, hdrop₂]
    exact exists_columns rfl rfl h₂ hstrays
  · cases h

theorem reads_alterColumn (h : alterColumn? d ts = some (a, n)) :
    ∃ opening alter column rest, IsOpening opening ∧ alter.is .ALTER ∧ column.is .COLUMN ∧
      Reads (opening ++ [alter]) ts (column :: rest) ∧
      (columnStrays d rest = [] →
        ∃ us, IsColumn us ∧ significant rest = us ++ significant (ts.drop n)) := by
  unfold alterColumn? at h
  split at h
  · rename_i hrun
    obtain ⟨us, r₀, _, _, hopening, hread, hsteps, hdrop⟩ := reads_opening hrun
    obtain ⟨t, r₁, _, n₁, hskip₁, ht, h₁, hdrop₁⟩ := Pattern.matchSteps_keyword rfl hsteps
    obtain ⟨u, r₂, _, n₂, hskip₂, hu, h₂, hdrop₂⟩ := Pattern.matchSteps_keyword rfl h₁
    obtain ⟨_, n₃, h₃, hdrop₃⟩ := Pattern.matchSteps_single h₂
    obtain ⟨v, after, hskip₃, hv, hafter⟩ := Pattern.matchStep_token rfl h₃
    cases h
    refine ⟨us, t, u, r₂, hopening, ht, hu,
      by simpa using (hread.keyword hskip₁ ht).trans (.of_skipTrivia hskip₂), ?_⟩
    intro hstrays
    rw [columnStrays_eq hskip₃, List.append_eq_nil_iff] at hstrays
    obtain ⟨vs, hcolumn, hvs⟩ := Column.exists_column hv hstrays.1
    refine ⟨vs, hcolumn, ?_⟩
    rw [hdrop, Pattern.matchTail_of_tail_eq_nil rfl, hdrop₁, hdrop₂, hdrop₃, hafter,
      significant_of_skipTrivia hskip₃]
    exact hvs
  · cases h

/-! ## Sentences and strays -/

/-- An accepted statement is one of the four forms, and nothing but semicolons follows it. -/
theorem ofStatement?_cases (h : ofStatement? d ts = some a) :
    ∃ n, isTerminator (ts.drop n) ∧
      (addPrimaryKey? d ts = some (a, n) ∨
        addPrimaryKey? d ts = none ∧ dropConstraint? d ts = some (a, n) ∨
        (addPrimaryKey? d ts = none ∧ dropConstraint? d ts = none) ∧
          (addColumns? d ts = some (a, n) ∨ alterColumn? d ts = some (a, n))) := by
  unfold ofStatement? at h
  split at h
  · rename_i a' n hhead
    split at h
    · rename_i hend
      cases h
      refine ⟨n, hend, ?_⟩
      unfold atHead? at hhead
      cases hkey : addPrimaryKey? d ts with
      | some r => exact .inl (by simpa [hkey] using hhead)
      | none =>
          cases hdrop : dropConstraint? d ts with
          | some r => exact .inr (.inl ⟨rfl, by simpa [hkey, hdrop] using hhead⟩)
          | none =>
              refine .inr (.inr ⟨⟨rfl, rfl⟩, ?_⟩)
              cases hadd : addColumns? d ts with
              | some r => exact .inl (by simpa [hkey, hdrop, hadd] using hhead)
              | none => exact .inr (by simpa [hkey, hdrop, hadd] using hhead)
    · cases h
  · cases h

theorem kind_of_mem_opening {us : List Token} (h : IsOpening us) {t : Token} (ht : t ∈ us) :
    t.is .ALTER ∨ t.is .TABLE ∨ isNamePart t := by
  obtain ⟨halter, htable, hname⟩ := h
  rw [List.mem_cons, List.mem_cons] at ht
  rcases ht with rfl | rfl | ht
  · exact .inl halter
  · exact .inr (.inl htable)
  · exact .inr (.inr (List.all_eq_true.mp (all_isNamePart hname) t ht))

theorem beforeColumns_of_isTrivia {t : Token} (h : t.isTrivia) : beforeColumns t := by
  simp [beforeColumns, is_of_isTrivia h]

theorem beforeColumns_of_opening {us : List Token} (h : IsOpening us) : us.all beforeColumns := by
  rw [List.all_eq_true]
  intro t ht
  rcases kind_of_mem_opening h ht with his | his | hpart
  · simp [beforeColumns, Token.is, kind_of_is his]
  · simp [beforeColumns, Token.is, kind_of_is his]
  · cases hkind : t.kind <;>
      simp_all [beforeColumns, Token.is, isNamePart, Kind.isIdentifier, Kind.identifiers]

theorem beforeKeys_of_isNamePart {t : Token} (h : isNamePart t) : beforeKeys t := by
  cases hkind : t.kind <;> simp_all [beforeKeys, isNamePart, Kind.isIdentifier, Kind.identifiers]

theorem beforeKeys_of_is {t : Token} {k : Keyword} (h : t.is k) : beforeKeys t := by
  simp [beforeKeys, kind_of_is h]

theorem beforeKeys_of_opening {us : List Token} (h : IsOpening us) : us.all beforeKeys := by
  rw [List.all_eq_true]
  intro t ht
  rcases kind_of_mem_opening h ht with his | his | hpart
  · exact beforeKeys_of_is his
  · exact beforeKeys_of_is his
  · exact beforeKeys_of_isNamePart hpart

theorem beforeKeys_of_keyHead {us : List Token} (h : IsKeyHead us) : us.all beforeKeys := by
  obtain ⟨ht, hu, hname, hp, hk, hstorage⟩ := h
  have hnames := all_isNamePart hname
  rw [List.all_eq_true] at hnames ⊢
  intro t hmem
  rw [List.mem_cons, List.mem_cons, List.mem_append, List.mem_cons, List.mem_cons] at hmem
  rcases hmem with rfl | rfl | hmem | rfl | rfl | hmem
  · exact beforeKeys_of_is ht
  · exact beforeKeys_of_is hu
  · exact beforeKeys_of_isNamePart (hnames t hmem)
  · exact beforeKeys_of_is hp
  · exact beforeKeys_of_is hk
  · have hword := hstorage t hmem
    have hname : t.kind.isIdentifier := by
      rw [isStorageWord, Bool.or_eq_true] at hword
      rcases hword with hword | hword <;> exact (Bool.and_eq_true_iff.mp hword).1
    exact beforeKeys_of_isNamePart (by simp [isNamePart, hname])

section
variable {us head rest : List Token} {t : Token}

theorem strays_of_keys (hkey : addPrimaryKey? d ts = some (a, n)) (hopening : IsOpening us)
    (hhead : IsKeyHead head) (ht : t.kind = .leftParen) (h : Reads (us ++ head) ts (t :: rest)) :
    strays d ts = keyStrays (t :: rest) := by
  have hstart : ts.dropWhile beforeKeys = t :: rest := by
    refine h.dropWhile_eq ?_ ?_ (by simp [beforeKeys, ht])
    · rw [List.all_append, beforeKeys_of_opening hopening, beforeKeys_of_keyHead hhead]
      rfl
    · intro u hu
      cases hkind : u.kind <;>
        simp_all [beforeKeys, Token.isTrivia, Kind.isTrivia, Kind.isComment]
  simp only [strays, hkey, Option.isSome_some, if_true, hstart]

theorem strays_of_columns (hkey : addPrimaryKey? d ts = none) (hdrop : dropConstraint? d ts = none)
    (hus : us.all beforeColumns) (ht : beforeColumns t = false) (h : Reads us ts (t :: rest)) :
    strays d ts = columnStrays d rest := by
  have hstart : ts.dropWhile beforeColumns = t :: rest :=
    h.dropWhile_eq hus (fun _ hu => beforeColumns_of_isTrivia hu) ht
  simp only [strays, hkey, hdrop, hstart, Option.isSome_none, Bool.false_eq_true, if_false,
    List.tail_cons]

end

theorem all_beforeColumns_alter {us : List Token} {t : Token} (h : IsOpening us)
    (ht : t.is .ALTER) : (us ++ [t]).all beforeColumns := by
  rw [List.all_append, beforeColumns_of_opening h]
  simp [beforeColumns, Token.is, kind_of_is ht]

/-- A statement without strays is a sentence of the grammar. -/
theorem isAlteration_of_strays (h : ofStatement? d ts = some a) (hstrays : strays d ts = []) :
    IsAlteration (significant ts) := by
  obtain ⟨n, hend, hform⟩ := ofStatement?_cases h
  have hsemicolons := isTerminator_iff.mp hend
  rcases hform with hkey | ⟨hkey, hdrop⟩ | ⟨⟨hkey, hdrop⟩, hadd | halter⟩
  · obtain ⟨us, head, left, inner, hopening, hhead, hread, hleft, hrest⟩ :=
      reads_addPrimaryKey hkey
    rw [strays_of_keys hkey hopening hhead hleft hread] at hstrays
    obtain ⟨keys, right, hkeys, hright, hinner⟩ := exists_keys hleft hstrays
    have hall : significant ts =
        us ++ (head ++ left :: (keys ++ [right]) ++ significant (ts.drop n)) := by
      rw [hread.significant_eq, significant_cons (isTrivia_of_kind hleft rfl), hinner, hrest]
      simp
    rw [hall]
    exact .intro hopening (.addPrimaryKey hhead hleft hkeys hright) hsemicolons
  · obtain ⟨us, action, hopening, haction, hread⟩ := reads_dropConstraint hdrop
    rw [hread.significant_eq, List.append_assoc]
    exact .intro hopening haction hsemicolons
  · obtain ⟨us, add, rest, hopening, ht, hread, _, hcolumns⟩ := reads_addColumns hadd
    rw [strays_of_columns hkey hdrop (beforeColumns_of_opening hopening)
      (by simp [beforeColumns, ht]) hread] at hstrays
    obtain ⟨columns, hlist, htokens⟩ := hcolumns hstrays
    rw [hread.significant_eq, significant_cons (isTrivia_of_is ht), htokens]
    exact .intro hopening (.addColumns ht hlist) hsemicolons
  · obtain ⟨us, alter, column, rest, hopening, ht, hu, hread, hcolumn⟩ := reads_alterColumn halter
    rw [strays_of_columns hkey hdrop (all_beforeColumns_alter hopening ht)
      (by simp [beforeColumns, hu]) hread] at hstrays
    obtain ⟨columns, hlist, htokens⟩ := hcolumn hstrays
    have hall : significant ts = us ++ (alter :: column :: columns ++ significant (ts.drop n)) := by
      rw [hread.significant_eq, significant_cons (isTrivia_of_is hu), htokens]
      simp
    rw [hall]
    exact .intro hopening (.alterColumn ht hu hlist) hsemicolons

theorem head_of_columns {us : List Token} (h : CommaList IsColumn us) :
    ∃ v vs, us = v :: vs ∧ v.kind.isIdentifier := by
  have hcolumn {us : List Token} (h : IsColumn us) :
      ∃ v vs, us = v :: vs ∧ v.kind.isIdentifier := by
    obtain ⟨hname, _, _, _⟩ := h
    exact ⟨_, _, rfl, hname⟩
  cases h with
  | one h => exact hcolumn h
  | more h ht hs =>
      obtain ⟨v, vs, rfl, hv⟩ := hcolumn h
      exact ⟨v, _, rfl, hv⟩

theorem not_is_of_is {t : Token} {k k' : Keyword} (h : t.is k) (hne : k ≠ k') : ¬ t.is k' := by
  intro h'
  rw [Token.is, decide_eq_true_iff, kind_of_is h] at h'
  exact hne (Kind.keyword.inj h')

/-- Every action starts with a keyword. -/
theorem head_of_action {action : List Token} (h : IsAction action) :
    ∃ t ts k, action = t :: ts ∧ t.is k := by
  cases h with
  | addColumns ht _ => exact ⟨_, _, .ADD, rfl, ht⟩
  | alterColumn ht _ _ => exact ⟨_, _, .ALTER, rfl, ht⟩
  | dropConstraint ht _ _ => exact ⟨_, _, .DROP, rfl, ht⟩
  | addPrimaryKey hhead _ _ _ =>
      obtain ⟨ht, _, _, _, _, _⟩ := hhead
      exact ⟨_, _, .ADD, rfl, ht⟩

/-- Two readings of a statement agree on where the action starts. -/
theorem align_action {us us' xs action vs : List Token} {x : Token} {k : Keyword}
    (hopening : IsOpening us) (hopening' : IsOpening us') (haction : IsAction action) (hx : x.is k)
    (h : us ++ x :: xs = us' ++ (action ++ vs)) : ∃ ys, action = x :: ys ∧ xs = ys ++ vs := by
  obtain ⟨y, ys, k', rfl, hy⟩ := head_of_action haction
  obtain ⟨_, rfl, rfl⟩ := isOpening_inj hopening hopening' h hx hy
  exact ⟨ys, rfl, rfl⟩

theorem isAction_add {action ys : List Token} {x : Token} (h : IsAction action)
    (heq : action = x :: ys) (hx : x.is .ADD) :
    CommaList IsColumn ys ∨ ∃ head keys left right, IsKeyHead head ∧ left.kind = .leftParen ∧
      CommaList IsKey keys ∧ right.kind = .rightParen ∧
      action = head ++ left :: (keys ++ [right]) := by
  cases h with
  | addColumns ht hs =>
      cases heq
      exact .inl hs
  | alterColumn ht _ _ | dropConstraint ht _ _ =>
      cases heq
      exact absurd hx (not_is_of_is ht (by decide))
  | addPrimaryKey hhead hleft hkeys hright =>
      exact .inr ⟨_, _, _, _, hhead, hleft, hkeys, hright, rfl⟩

theorem isAction_alter {action ys : List Token} {x : Token} (h : IsAction action)
    (heq : action = x :: ys) (hx : x.is .ALTER) : ∃ u us, ys = u :: us ∧ IsColumn us := by
  cases h with
  | alterColumn ht hu hs =>
      cases heq
      exact ⟨_, _, rfl, hs⟩
  | addColumns ht _ | dropConstraint ht _ _ =>
      cases heq
      exact absurd hx (not_is_of_is ht (by decide))
  | addPrimaryKey hhead _ _ _ =>
      obtain ⟨ht, _, _, _, _, _⟩ := hhead
      cases heq
      exact absurd hx (not_is_of_is ht (by decide))

/-- A sentence of the grammar has no strays. -/
theorem strays_of_isAlteration (h : ofStatement? d ts = some a)
    (hsentence : IsAlteration (significant ts)) : strays d ts = [] := by
  obtain ⟨n, hend, hform⟩ := ofStatement?_cases h
  generalize hts : significant ts = tokens at hsentence
  obtain @⟨us', action, semicolons, hopening', haction, hsemicolons⟩ := hsentence
  rcases hform with hkey | ⟨hkey, hdrop⟩ | ⟨⟨hkey, hdrop⟩, hadd | halter⟩
  · obtain ⟨us, head, left, inner, hopening, hhead, hread, hleft, hrest⟩ :=
      reads_addPrimaryKey hkey
    rw [strays_of_keys hkey hopening hhead hleft hread]
    rw [hread.significant_eq, significant_cons (isTrivia_of_kind hleft rfl)] at hts
    have hbefore : (us ++ head).all beforeKeys := by
      rw [List.all_append, beforeKeys_of_opening hopening, beforeKeys_of_keyHead hhead]
      rfl
    obtain @⟨t, u, p, k, name, storage, ht, hu, _, _, _, _⟩ := hhead
    obtain ⟨ys, heq, hys⟩ := align_action hopening hopening' haction ht (by simpa using hts)
    rcases isAction_add haction heq ht with hcolumns | ⟨head', keys, left', right, hhead', hleft',
      hkeys, hright, rfl⟩
    · -- a column would start with a name and not with `CONSTRAINT`
      obtain ⟨v, vs, rfl, hv⟩ := head_of_columns hcolumns
      obtain ⟨rfl, _⟩ := List.cons.inj hys
      rw [kind_of_is hu] at hv
      cases hv
    · have hbefore' : (us' ++ head').all beforeKeys := by
        rw [List.all_append, beforeKeys_of_opening hopening', beforeKeys_of_keyHead hhead']
        rfl
      obtain ⟨_, _, hinner⟩ := append_cons_inj (y := left') (m := keys ++ right :: semicolons)
        (by simpa using hts) hbefore hbefore' (by simp [beforeKeys, hleft])
        (by simp [beforeKeys, hleft'])
      exact keyStrays_of_keys hleft hkeys hright hinner
  · simp [strays, hkey, hdrop]
  · obtain ⟨us, add, rest, hopening, ht, hread, ⟨v, vs, hrest, hv⟩, _⟩ := reads_addColumns hadd
    rw [strays_of_columns hkey hdrop (beforeColumns_of_opening hopening)
      (by simp [beforeColumns, ht]) hread]
    rw [hread.significant_eq, significant_cons (isTrivia_of_is ht)] at hts
    obtain ⟨ys, heq, hys⟩ := align_action hopening hopening' haction ht hts
    rcases isAction_add haction heq ht with hcolumns | ⟨head, _, _, _, hhead, _, _, _, hkeyed⟩
    · exact columnStrays_of_commaList hcolumns hys hsemicolons
    · obtain @⟨_, u, _, _, _, _, _, hu, _, _, _, _⟩ := hhead
      rw [heq] at hkeyed
      obtain ⟨_, rfl⟩ := List.cons.inj hkeyed
      rw [hrest] at hys
      obtain ⟨rfl, _⟩ := List.cons.inj hys
      rw [kind_of_is hu] at hv
      cases hv
  · obtain ⟨us, alter, column, rest, hopening, ht, hu, hread, _⟩ := reads_alterColumn halter
    rw [strays_of_columns hkey hdrop (all_beforeColumns_alter hopening ht)
      (by simp [beforeColumns, hu]) hread]
    rw [hread.significant_eq, significant_cons (isTrivia_of_is hu)] at hts
    obtain ⟨ys, heq, hys⟩ := align_action hopening hopening' haction ht (by simpa using hts)
    obtain ⟨u, columns, rfl, hcolumn⟩ := isAction_alter haction heq ht
    exact columnStrays_of_commaList (.one hcolumn) (List.cons.inj hys).2 hsemicolons

/-- An accepted statement is a sentence of the grammar if and only if it has no strays. -/
theorem isAlteration_iff_of_accepted (h : ofStatement? d ts = some a) :
    IsAlteration (significant ts) ↔ strays d ts = [] :=
  ⟨strays_of_isAlteration h, isAlteration_of_strays h⟩

theorem isAlteration_iff_of_accepted_columns :
    let ts := tokenize
      "ALTER TABLE dbo.t ADD a int NOT NULL CONSTRAINT c DEFAULT (0), b int IDENTITY(1, 1);".toList
    let a : Alteration := .addColumns ['t']
      [⟨['a'], { dataType := "integer".toList, nullable := false, defaultValue := some ['0'] }⟩,
        ⟨['b'], { dataType := "integer".toList, identity := true }⟩]
    ofStatement? .postgres ts = some a ∧ IsAlteration (significant ts) := by
  intro ts a
  have haccepted : ofStatement? .postgres ts = some a := by decide +kernel
  exact ⟨haccepted, (isAlteration_iff_of_accepted haccepted).mpr (by decide +kernel)⟩

/-- A reference to another table is accepted as part of a column, and then lost. -/
theorem references_accepted_and_dropped :
    let ts := tokenize "ALTER TABLE t ADD a int REFERENCES u".toList
    let a : Alteration := .addColumns ['t'] [⟨['a'], { dataType := "integer".toList }⟩]
    ofStatement? .postgres ts = some a ∧ a.toSql = "ALTER TABLE t ADD a integer;".toList ∧
      ¬ IsAlteration (significant ts) := by
  intro ts a
  have haccepted : ofStatement? .postgres ts = some a := by decide +kernel
  have hstrays : strays .postgres ts ≠ [] := by decide +kernel
  exact ⟨haccepted, by decide +kernel, fun h => hstrays (strays_of_isAlteration haccepted h)⟩

end Alteration

end SqlMigration
