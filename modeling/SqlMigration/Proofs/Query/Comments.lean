import SqlMigration.Proofs.Expression.Comments
import SqlMigration.Query

/-! # Comments in emitted queries

A limit is put behind the last solid character of a query, and the text in front of `INTO` loses
its blank space. Neither ends up in a comment if no line comment stands last there.
-/

namespace SqlMigration.Query

open Token Expression

/-- Whether a table name can be quoted. -/
def namesTable (t : Token) : Bool :=
  !(Name.normalize (Name.dropTemporaryMark t.text)).contains '"'

/-- Whether a token may follow in every mode but that of a line comment. -/
def followsAny (t : Token) : Bool :=
  t.kind ≠ .lineComment && t.kind ≠ .minus && t.kind ≠ .star && !isFleeting t

/-- Whether the tokens that stay can be emitted without a new comment. `limited` says that a limit
follows them. -/
def isSafeBody (limited : Bool) (ts : List Token) : Bool :=
  match into? ts with
  | some (into, name) =>
      let before := ts.take into
      let after := ts.drop (name + 1)
      isSafe before && holdsEnd .query before && ts[name]?.all namesTable &&
        after.head?.all followsAny && isSafe after && (!limited || holdsEnd .query after)
  | none => isSafe ts && (!limited || holdsEnd .query ts)

/-- Whether the tokens of a `TOP` clause can be emitted as a limit. -/
def isSafeLimit (ts : List Token) : Bool := tame ts && ts.all fun t => t.kind ≠ .lineComment

/-- Whether a query can be emitted without a new comment. -/
def isSafe (ts : List Token) : Bool :=
  isSafeBody (top? ts).isSome (kept ts) &&
    (top? ts).all fun top => isSafeLimit ((ts.take top.bounds.stop).drop top.bounds.start)

variable {P : Kind → Text → Prop} {m : Mode} {ts : List Token}

/-! ## The body -/

theorem admits_of_followsAny {t : Token} (hm : m ≠ .line) (h : followsAny t) : Admits m t := by
  simp only [followsAny, Bool.and_eq_true, decide_eq_true_eq, Bool.not_eq_true'] at h
  obtain ⟨⟨⟨hcomment, hminus⟩, hstar⟩, hfleeting⟩ := h
  exact {
    line := fun h => absurd h hm
    comment := fun h => absurd h hcomment
    dash := fun _ => ⟨hminus, hfleeting⟩
    slash := fun _ => ⟨hstar, hfleeting⟩ }

/-- The text in front of a query that makes a table. -/
theorem flow_tableHead {table : Text} (htable : '"' ∉ Name.normalize table) :
    Flow P .apart ("DROP TABLE IF EXISTS ".toList ++ Name.render table ++
      ";\nCREATE TEMP TABLE ".toList ++ Name.render table ++ " AS ".toList) .apart := by
  have hdrop : Flow P .apart "DROP TABLE IF EXISTS ".toList .apart :=
    .of_leadsTo (by decide) (by decide)
  obtain ⟨m₁, hm₁, hname⟩ := flow_render (P := P) (m := .apart) (by decide) htable
  have hcreate : Flow P m₁ ";\nCREATE TEMP TABLE ".toList .apart := .of_leadsTo (by decide) hm₁
  have has : Flow P m₁ " AS ".toList .apart := .of_leadsTo (by decide) hm₁
  exact (((hdrop.append hname).append hcreate).append hname).append has

/-- A query that makes a table starts with a text that can lose its end, and the rest may follow
it. -/
theorem exists_body_eq {into name : Nat} {limited : Bool} (hinto : into? ts = some (into, name))
    (hsafe : isSafeBody limited ts) (hts : ∀ t ∈ ts, Sound P t) :
    ∃ front m', body ts = front ++ Expression.emit (ts.drop (name + 1)) ∧
      Sturdy .query P .apart front ∧ m' ≠ .line ∧ Flow P .apart front m' ∧
      ∀ u ∈ (ts.drop (name + 1)).head?, Admits m' u := by
  simp only [isSafeBody, hinto, Bool.and_eq_true] at hsafe
  obtain ⟨⟨⟨⟨⟨hbefore, hend⟩, htable⟩, hafter⟩, -⟩, -⟩ := hsafe
  have htable :
      '"' ∉ Name.normalize (Name.dropTemporaryMark ((ts[name]?.map Token.text).getD [])) := by
    cases hname : ts[name]? with
    | none =>
        intro h
        have hbare := Name.isBare_of_mem_normalize (by simp [Name.dropTemporaryMark]) _ h
        exact absurd hbare (by decide)
    | some t => simpa [hname, namesTable] using htable
  have hhead : Flow (BlocksOf P) .apart _ .apart := flow_tableHead htable
  have hsturdy : Sturdy .query P .apart (Expression.emit (ts.take into)) :=
    sturdy_emit hbefore hend (fun t ht => hts t (List.mem_of_mem_take ht))
      (fun u _ => Admits.apart u) (by simp)
  obtain ⟨cut, htrim, hcut⟩ :=
    Text.exists_append_trimEndWhere Text.isBlank (Expression.emit (ts.take into))
  rw [htrim] at hsturdy
  have htrimmed := hsturdy.of_append fun c hc => Ending.cuts_of_isBlank _ (hcut c hc)
  have hfront := ((Sturdy.of_flow lineFree_blocksOf (by decide) hhead).mono of_blocksOf).append
    (hhead.mono of_blocksOf) htrimmed
  obtain ⟨m', hm', hflow⟩ := hfront.flow
  refine ⟨_, m', ?_, hfront, hm', hflow, ?_⟩
  · rw [body, hinto]
    rfl
  · intro u hu
    rw [Option.mem_def] at hu
    exact admits_of_followsAny hm' (by simpa [hu] using hafter)

theorem flow_body (hsafe : isSafeBody false ts) (hts : ∀ t ∈ ts, Sound P t) :
    ∃ m', Flow P .apart (body ts) m' := by
  cases hinto : into? ts with
  | none =>
      simp only [isSafeBody, hinto, Bool.and_eq_true] at hsafe
      rw [body, hinto]
      exact flow_emit hsafe.1 hts fun u _ => Admits.apart u
  | some positions =>
      obtain ⟨into, name⟩ := positions
      obtain ⟨front, m₁, hbody, -, -, hfront, hnext⟩ := exists_body_eq hinto hsafe hts
      simp only [isSafeBody, hinto, Bool.and_eq_true] at hsafe
      obtain ⟨m₂, hafter⟩ := flow_emit hsafe.1.2 (fun t ht => hts t (List.mem_of_mem_drop ht)) hnext
      exact ⟨m₂, hbody ▸ hfront.append hafter⟩

theorem sturdy_body (hsafe : isSafeBody true ts) (hts : ∀ t ∈ ts, Sound P t) :
    Sturdy .query P .apart (body ts) := by
  cases hinto : into? ts with
  | none =>
      simp only [isSafeBody, hinto, Bool.and_eq_true, Bool.not_true, Bool.false_or] at hsafe
      rw [body, hinto]
      exact sturdy_emit hsafe.1 hsafe.2 hts (fun u _ => Admits.apart u) (by simp)
  | some positions =>
      obtain ⟨into, name⟩ := positions
      obtain ⟨front, m₁, hbody, hsturdy, hm₁, hfront, hnext⟩ := exists_body_eq hinto hsafe hts
      simp only [isSafeBody, hinto, Bool.and_eq_true, Bool.not_true, Bool.false_or] at hsafe
      have hafter := sturdy_emit hsafe.1.2 hsafe.2 (fun t ht => hts t (List.mem_of_mem_drop ht))
        hnext fun h => absurd h hm₁
      exact hbody ▸ hsturdy.append hfront hafter

/-! ## The limit -/

theorem flow_withLimit {limit sql : Text} (hsql : Sturdy .query P m sql)
    (hlimit : ∃ m', m' ≠ .line ∧ Flow P .apart limit m') :
    ∃ m', Flow P m (withLimit limit sql) m' := by
  obtain ⟨m₂, hm₂, hlimit⟩ := hlimit
  obtain ⟨trailing, htrim, hblank⟩ := Text.exists_append_trimEndWhere Text.isBlank sql
  change sql = sql.trimEnd ++ trailing at htrim
  have htrailing : sql.drop sql.trimEnd.length = trailing := by
    generalize sql.trimEnd = query at htrim ⊢
    rw [htrim, List.drop_left]
  have hgap : ∀ c ∈ trailing, Ending.query.cuts c :=
    fun c hc => Ending.cuts_of_isBlank _ (hblank c hc)
  have hjoin {query final : Text} {m₃ : Mode} (hm₃ : m₃ ≠ .line)
      (hquery : ∃ m₁, m₁ ≠ .line ∧ Flow P m query m₁) (hfinal : Flow P m₂ final m₃) :
      ∃ m', Flow P m (query ++ " LIMIT ".toList ++ limit ++ final ++ trailing) m' := by
    obtain ⟨m₁, hm₁, hquery⟩ := hquery
    have hword : Flow P m₁ " LIMIT ".toList .apart := .of_leadsTo (by decide) hm₁
    have hfront := ((hquery.append hword).append hlimit).append hfinal
    by_cases hne : trailing = []
    · rw [hne, List.append_nil]
      exact ⟨_, hfront⟩
    · exact ⟨_, hfront.append (.blanks hm₃ hne hblank)⟩
  unfold withLimit
  dsimp only
  rw [htrailing]
  split
  · rename_i rest hrest
    obtain ⟨blanks, htrim', hblank'⟩ := Text.exists_append_trimEndWhere Text.isBlank rest
    change rest = rest.trimEnd ++ blanks at htrim'
    have hcut : sql = rest.trimEnd ++ (blanks ++ ';' :: trailing) := by
      rw [← List.append_assoc, ← htrim', List.append_cons, ← Text.eq_concat_of_dropFinal? hrest]
      exact htrim
    have hsemicolon : Flow P m₂ [';'] .solid := .of_leadsTo (by decide) hm₂
    refine hjoin (by decide) (hsql hcut ?_) hsemicolon
    intro c hc
    rcases List.mem_append.mp hc with hc | hc
    · exact Ending.cuts_of_isBlank _ (hblank' c hc)
    · rcases List.mem_cons.mp hc with rfl | hc
      · decide
      · exact hgap c hc
  · exact hjoin hm₂ (hsql htrim hgap) .nil

theorem exists_of_limitAt? {i last : Nat} {limit : Text} (h : limitAt? ts i = some (limit, last)) :
    (∃ t, ts[i]? = some t ∧ t.kind.isNumber ∧ limit = t.text ∧ last = i) ∨
      ∃ n, limit = '(' :: (Expression.emit ((ts.drop (i + 1)).take (n - 1))).trim ++ [')'] ∧
        last = i + n := by
  unfold limitAt? at h
  obtain ⟨t, ht, h⟩ := Option.bind_eq_some_iff.mp h
  split at h
  · rename_i hnumber
    cases h
    exact .inl ⟨t, ht, hnumber, rfl, rfl⟩
  · split at h
    · obtain ⟨n, -, h⟩ := Option.bind_eq_some_iff.mp h
      cases h
      exact .inr ⟨n, rfl, rfl⟩
    · cases h

theorem exists_of_top? {top : Top} (h : top? ts = some top) :
    ∃ i last, limitAt? ts i = some (top.limit, last) ∧ top.bounds.start ≤ i ∧
      last < top.bounds.stop := by
  unfold top? at h
  obtain ⟨select, -, h⟩ := Option.bind_eq_some_iff.mp h
  dsimp only at h
  generalize (if (ts[nextSignificant ts (select + 1)]?).any (fun t => t.is .DISTINCT || t.is .ALL)
    then nextSignificant ts (nextSignificant ts (select + 1) + 1)
    else nextSignificant ts (select + 1)) = start at h
  split at h
  · obtain ⟨⟨limit, last⟩, hlimit, h⟩ := Option.bind_eq_some_iff.mp h
    dsimp only at h
    split at h
    · cases h
    · cases h
      refine ⟨_, last, hlimit, ?_, ?_⟩
      · unfold nextSignificant
        dsimp only
        omega
      · dsimp only
        omega
  · cases h

theorem tameToken_of_mem {t : Token} (hts : tame ts) (ht : t ∈ ts) : tameToken t := by
  obtain ⟨before, after, rfl⟩ := List.append_of_mem ht
  have htame := tame_of_suffix (List.suffix_append before (t :: after)) hts
  simp only [tame, Bool.and_eq_true] at htame
  exact htame.1.1.1

theorem aloneText_of_isNumber {t : Token} (h : t.kind.isNumber) : aloneText t = t.text := by
  rcases aloneText_cases t with halone | ⟨hkind, -⟩ | ⟨hkind, -⟩ | ⟨hkind, -⟩
  · exact halone
  all_goals simp [hkind, Kind.isNumber] at h

/-- The limit flows, since its tokens stand in the clause. -/
theorem flow_limit {top : Top} (h : top? ts = some top)
    (hsafe : isSafeLimit ((ts.take top.bounds.stop).drop top.bounds.start))
    (hts : ∀ t ∈ ts, Sound P t) : ∃ m', m' ≠ .line ∧ Flow P .apart top.limit m' := by
  obtain ⟨i, last, hlimit, hstart, hstop⟩ := exists_of_top? h
  generalize hclause : (ts.take top.bounds.stop).drop top.bounds.start = clause at hsafe
  obtain ⟨htame, hline⟩ := Bool.and_eq_true_iff.mp hsafe
  have hline : ∀ t ∈ clause, t.kind ≠ .lineComment :=
    fun t ht => of_decide_eq_true (List.all_eq_true.mp hline t ht)
  have hsound : ∀ t ∈ clause, Sound P t :=
    fun t ht => hts t (List.mem_of_mem_take (List.mem_of_mem_drop (hclause ▸ ht)))
  rcases exists_of_limitAt? hlimit with ⟨t, ht, hnumber, hlimit, hlast⟩ | ⟨n, hlimit, hlast⟩
  · have hget : clause[i - top.bounds.start]? = some t := by
      rw [← hclause, List.getElem?_drop, List.getElem?_take_of_lt (by omega)]
      rwa [Nat.add_sub_cancel' hstart]
    have hmem := List.mem_of_getElem? hget
    have ht := (hsound t hmem).blocksOf (hline t hmem)
    obtain ⟨m', hflow, -⟩ := leadsOn_aloneText ht.shape ht.no_error (tameToken_of_mem htame hmem)
      ht.comment (Admits.apart t)
    rw [aloneText_of_isNumber hnumber] at hflow
    have hne := hflow.ne_line lineFree_blocksOf (by decide)
    exact hlimit ▸ ⟨m', hne, hflow.mono of_blocksOf⟩
  · have hinner : (ts.drop (i + 1)).take (n - 1) =
        (clause.drop (i + 1 - top.bounds.start)).take (n - 1) := by
      rw [← hclause, List.drop_drop, List.drop_take, List.take_take]
      congr 1
      · omega
      · congr 1
        omega
    rw [hinner] at hlimit
    generalize hpart : (clause.drop (i + 1 - top.bounds.start)).take (n - 1) = inner at hlimit
    have hmem : ∀ t ∈ inner, t ∈ clause :=
      fun t ht => List.mem_of_mem_drop (List.mem_of_mem_take (hpart ▸ ht))
    have htame : tame inner := by
      rw [← hpart]
      exact tame_of_isPrefix (List.take_prefix _ _) (tame_of_suffix (List.drop_suffix _ _) htame)
    have hfree : ∀ t ∈ inner, t.kind ≠ .lineComment := fun t ht => hline t (hmem t ht)
    have hsafe : Expression.isSafe inner :=
      Bool.and_eq_true_iff.mpr ⟨htame, callsHold_of_lineFree hfree⟩
    have hsturdy : Sturdy .query P .apart (Expression.emit inner) :=
      sturdy_emit hsafe (holdsEnd_of_lineFree hfree) (fun t ht => hsound t (hmem t ht))
        (fun u _ => Admits.apart u) (by simp)
    obtain ⟨m₀, hm₀, hflow⟩ := hsturdy.trim.flow
    obtain ⟨m₁, hm₁, hflow⟩ := hflow.restart (by decide) hm₀ (.inr rfl)
    have hopen : Flow P .apart ['('] .solid := .of_leadsTo (by decide) (by decide)
    have hclose : Flow P m₁ [')'] .solid := .of_leadsTo (by decide) hm₁
    exact hlimit ▸ ⟨.solid, by decide, (hopen.append hflow).append hclose⟩

/-! ## The whole query -/

theorem mem_of_mem_kept {t : Token} (h : t ∈ kept ts) : t ∈ ts := by
  obtain ⟨⟨u, i⟩, hu, rfl⟩ := List.mem_map.mp h
  exact List.fst_mem_of_mem_zipIdx (List.mem_filter.mp hu).1

theorem flow_query (hsafe : isSafe ts) (hts : ∀ t ∈ ts, Sound P t) :
    ∃ m', Flow P .apart (emit ts) m' := by
  obtain ⟨hbody, hlimit⟩ := Bool.and_eq_true_iff.mp hsafe
  have hkept : ∀ t ∈ kept ts, Sound P t := fun t ht => hts t (mem_of_mem_kept ht)
  unfold emit
  split
  · rename_i top htop
    rw [htop] at hbody hlimit
    exact flow_withLimit (sturdy_body hbody hkept) (flow_limit htop hlimit hts)
  · rename_i htop
    rw [htop] at hbody
    exact flow_body hbody hkept

/-- The token has the kind and the text of one of the given tokens. -/
def OneOf (ts : List Token) (k : Kind) (s : Text) : Prop := ∃ t ∈ ts, t.kind = k ∧ t.text = s

theorem sound_of_isInfix {s : Text} (h : ts <:+: tokenize s) (herror : ∀ t ∈ ts, t.kind ≠ .error) :
    ∀ t ∈ ts, Sound (OneOf ts) t := by
  intro t ht
  exact {
    shape := shape_of_mem_read (h.subset ht)
    no_error := herror t ht
    comment := fun _ => ⟨t, ht, rfl, rfl⟩ }

/-- Emitting an expression or a query makes no comments: each comment in the emitted text is one of
the tokens. -/
theorem comments_of_emit {s : Text} {ts : List Token} (hpart : ts <:+: tokenize s)
    (herror : ∀ t ∈ ts, t.kind ≠ .error) :
    (Expression.isSafe ts → ∀ c ∈ tokenize (Expression.emit ts), c.kind.isComment →
      ∃ t ∈ ts, t.kind = c.kind ∧ t.text = c.text) ∧
    (isSafe ts → ∀ c ∈ tokenize (emit ts), c.kind.isComment →
      ∃ t ∈ ts, t.kind = c.kind ∧ t.text = c.text) := by
  have hsound := sound_of_isInfix hpart herror
  constructor
  · intro hsafe
    obtain ⟨m', hflow⟩ := flow_emit (m := .apart) hsafe hsound fun u _ => Admits.apart u
    exact comments_of_flow hflow
  · intro hsafe
    obtain ⟨m', hflow⟩ := flow_query hsafe hsound
    exact comments_of_flow hflow

theorem comments_of_emit_limited :
    let ts := tokenize "SELECT TOP (1 + 2) CONVERT(int, -- id\n a), b -- name\n FROM t".toList
    (Expression.isSafe ts ∧ ∀ c ∈ tokenize (Expression.emit ts), c.kind.isComment →
      ∃ t ∈ ts, t.kind = c.kind ∧ t.text = c.text) ∧
    (isSafe ts ∧ ∀ c ∈ tokenize (emit ts), c.kind.isComment →
      ∃ t ∈ ts, t.kind = c.kind ∧ t.text = c.text) := by
  intro ts
  have hexpression : Expression.isSafe ts := by decide +kernel
  have hquery : isSafe ts := by decide +kernel
  have hcomments := comments_of_emit (List.infix_refl ts) (by decide +kernel)
  exact ⟨⟨hexpression, hcomments.1 hexpression⟩, ⟨hquery, hcomments.2 hquery⟩⟩

theorem emit_of_top? (limit : Text) (h : (top? ts).map Top.limit = some limit)
    (hinto : into? (kept ts) = none) : emit ts = withLimit limit (Expression.emit (kept ts)) := by
  obtain ⟨top, htop, rfl⟩ := Option.map_eq_some_iff.mp h
  simp only [emit, htop, body, hinto]

/-- A limit after a line comment becomes part of the comment. -/
theorem limit_lost_in_comment :
    let ts := tokenize "SELECT TOP 5 a FROM t -- c".toList
    (∀ t ∈ ts, t.kind ≠ .error) ∧
      ∃ c ∈ tokenize (emit ts), c.kind = .lineComment ∧ c.text = "-- c LIMIT 5".toList ∧
        ∀ t ∈ ts, t.text ≠ c.text := by
  intro ts
  have hemit : emit ts = "SELECT a FROM t -- c LIMIT 5".toList := by
    rw [emit_of_top? ['5'] (by decide +kernel) (by decide +kernel),
      emit_eq_flatMap_tokenText (by decide +kernel)]
    decide +kernel
  rw [hemit]
  decide +kernel

end SqlMigration.Query
