import SqlMigration.Batch
import SqlMigration.Proofs.Alteration.Acceptance
import SqlMigration.Proofs.Query.Comments
import SqlMigration.Proofs.Text.Tagless

/-! # Emitted texts without tags

The texts of tokens that hold no tags are joined, trimmed and lower-cased, and only words without
dollar signs are put between them. So what is emitted for such tokens holds no tags either.
-/

namespace SqlMigration

open Text

/-- The tokens from the first significant one on. -/
theorem tagless_of_skipTrivia {ts rest : List Token} {t : Token} (hts : ∀ u ∈ ts, u.text.tagless)
    (h : skipTrivia ts = t :: rest) : t.text.tagless ∧ ∀ u ∈ rest, u.text.tagless :=
  List.forall_mem_cons.mp fun u hu => hts u ((List.dropWhile_suffix _).subset (h ▸ hu))

/-! ## Expressions -/

namespace Expression

theorem tagless_tokenText {t : Token} (ht : t.text.tagless) : (tokenText t).tagless := by
  unfold tokenText
  split
  · exact Name.tagless_ofVariable ht
  · split
    · exact Name.tagless_render (tagless_of_isSuffix (List.dropWhile_suffix _) ht)
    · exact ht
  · exact Name.tagless_render ht
  · exact ht

section
variable {args : List Text} (hargs : ∀ a ∈ args, tagless a)
include hargs

theorem tagless_getD (i : Nat) : tagless (args[i]?.getD []) := by
  cases h : args[i]? with
  | none => rfl
  | some a => exact hargs a (List.mem_of_getElem? h)

theorem tagless_castText : tagless (castText args) := by
  have htype := tagless_trim (tagless_getD hargs 0)
  have hvalue := tagless_stripParens (tagless_getD hargs 1)
  have hfront : tagless ("CAST(".toList ++ _ ++ " AS ".toList) :=
    tagless_append (tagless_append (by decide) hvalue) (by decide)
  exact tagless_append (tagless_append hfront htype) rfl

end

theorem tagless_unit {s : Text} (hs : tagless s) : tagless (DatePart.ofText s).unit := by
  have hname : tagless (s.trim.trimWhere ['\'', '"'].contains).asciiLower :=
    tagless_asciiLower (tagless_trimWhere (tagless_trim hs) (cuttable_of_all (by decide)))
  unfold DatePart.ofText
  dsimp only
  split
  · decide
  split
  · rename_i names unit hfind
    have hunits : unitNames.all fun entry => tagless entry.2.toList := by decide
    exact List.all_eq_true.mp hunits _ (List.mem_of_find?_eq_some hfind)
  · exact hname

theorem tagless_dateText {s : Text} (hs : tagless s) : tagless (dateText s) := by
  unfold dateText
  dsimp only
  split
  · decide
  split
  · decide
  · exact tagless_trim hs

theorem tagless_splitMinus {s : Text} (hs : tagless s) : tagless (splitMinus s).2 := by
  unfold splitMinus
  split
  · exact tagless_trim (tagless_of_isSuffix (List.suffix_cons '-' _) hs)
  · exact hs

theorem tagless_digits (n : Nat) : tagless (Nat.toDigits 10 n) := by
  apply tagless_of_not_mem
  intro h
  exact absurd (Nat.isDigit_of_mem_toDigits (b := 10) (by decide) (by decide) h) (by decide)

theorem tagless_intervalText {part : DatePart} {amount : Text} (hunit : tagless part.unit)
    (hamount : tagless amount) : tagless (intervalText part amount) := by
  unfold intervalText
  split
  · rename_i x _
    have hnumber : tagless (x.scaleBy part.factor).toText :=
      tagless_of_not_mem (Binary64.not_mem_toText (by decide) (by decide) _)
    have hfront : tagless ("INTERVAL '".toList ++ (x.scaleBy part.factor).toText ++ [' ']) :=
      tagless_append (tagless_append (by decide) hnumber) rfl
    have htext := tagless_append (tagless_append hfront hunit) (t := ['\'']) rfl
    simpa using htext
  · have hproduct : tagless (if part.factor = 1 then '(' :: amount ++ [')']
        else "((".toList ++ amount ++ ") * ".toList ++ Nat.toDigits 10 part.factor ++ [')']) := by
      split
      · exact tagless_append (tagless_append (s := ['(']) rfl hamount) rfl
      · have hfront : tagless ("((".toList ++ amount ++ ") * ".toList) :=
          tagless_append (tagless_append (by decide) hamount) (by decide)
        exact tagless_append (tagless_append hfront (tagless_digits _)) rfl
    have hfront := tagless_append (tagless_append (s := ['(']) rfl hproduct)
      (by decide : tagless "::text || ' ".toList)
    exact tagless_append (tagless_append hfront hunit) (by decide)

theorem tagless_dateAddText {args : List Text} (hargs : ∀ a ∈ args, tagless a) :
    tagless (dateAddText args) := by
  have hamount := tagless_splitMinus (tagless_stripParens (tagless_getD hargs 1))
  have hinterval := tagless_intervalText (tagless_unit (tagless_getD hargs 0)) hamount
  have hsign (negative : Bool) : tagless (if negative then " - " else " + ").toList := by
    cases negative <;> decide
  have hdate := tagless_dateText (tagless_getD hargs 2)
  exact tagless_append (tagless_append hdate (hsign _)) hinterval

/-- The text for the first of some tokens, given those of its arguments if it starts a call. -/
theorem tagless_emitHead {t : Token} {ts : List Token} (ht : t.text.tagless)
    (hargs : ∀ arg ∈ callTokens ts, tagless (emit arg)) : tagless (emitHead t ts).1 := by
  have hcall {args : List Text} {n : Nat} (h : callArguments? ts = some (args, n)) :
      ∀ a ∈ args, tagless a := by
    rw [eq_map_of_callArguments? h]
    simpa using hargs
  rw [emitHead]
  split
  · split
    · rename_i hsome
      exact tagless_castText (hcall hsome)
    · exact ht
  split
  · split
    · rename_i hsome
      exact tagless_dateAddText (hcall hsome)
    · exact ht
  split
  · rfl
  · exact tagless_tokenText ht

theorem tagless_emit {ts : List Token} (hts : ∀ t ∈ ts, t.text.tagless) : tagless (emit ts) := by
  induction hn : ts.length using Nat.strongRecOn generalizing ts with
  | ind n ih =>
      cases ts with
      | nil =>
          rw [emit]
          rfl
      | cons t ts =>
          obtain ⟨ht, hts⟩ := List.forall_mem_cons.mp hts
          rw [List.length_cons] at hn
          rw [emit_cons]
          apply tagless_append
          · apply tagless_emitHead ht
            intro arg harg
            obtain ⟨hpart, hlt⟩ := isInfix_of_mem_callTokens harg
            exact ih arg.length (by omega) (fun u hu => hts u (hpart.subset hu)) rfl
          · refine ih (ts.drop _).length ?_ (fun u hu => hts u (List.mem_of_mem_drop hu)) rfl
            rw [List.length_drop]
            omega

theorem mem_of_mem_operandsFrom {depth : Nat} {ts operand : List Token} {t : Token}
    (h : operand ∈ operandsFrom depth ts) (ht : t ∈ operand) : t ∈ ts := by
  induction ts generalizing depth operand with
  | nil =>
      rw [List.mem_singleton.mp h] at ht
      cases ht
  | cons u ts ih =>
      unfold operandsFrom at h
      split at h
      · rcases List.mem_cons.mp h with rfl | h
        · cases ht
        · exact List.mem_cons_of_mem u (ih h ht)
      · dsimp only at h
        split at h
        · rw [List.mem_singleton.mp h, List.mem_singleton] at ht
          exact ht ▸ List.mem_cons_self
        · rename_i first rest heq
          rcases List.mem_cons.mp h with rfl | h
          · rcases List.mem_cons.mp ht with rfl | ht
            · exact List.mem_cons_self
            · exact List.mem_cons_of_mem u (ih (heq ▸ List.mem_cons_self) ht)
          · exact List.mem_cons_of_mem u (ih (heq ▸ List.mem_cons_of_mem first h) ht)

theorem tagless_concat? {ts : List Token} {s : Text} (hts : ∀ t ∈ ts, t.text.tagless)
    (h : concat? ts = some s) : tagless s := by
  unfold concat? at h
  dsimp only at h
  split at h
  · cases h
    refine tagless_append (tagless_append (by decide) (tagless_intercalate (by decide) ?_)) rfl
    intro part hpart
    obtain ⟨operand, hoperand, rfl⟩ := List.mem_map.mp (List.mem_filter.mp hpart).1
    exact tagless_trim (tagless_emit fun t ht => hts t (mem_of_mem_operandsFrom hoperand ht))
  · cases h

end Expression

/-! ## Queries -/

namespace Query

open Expression

variable {ts : List Token} (hts : ∀ t ∈ ts, t.text.tagless)
include hts

theorem tagless_body : tagless (body ts) := by
  unfold body
  split
  · rename_i into name hinto
    have htable : tagless
        (Name.render (Name.dropTemporaryMark ((ts[name]?.map Token.text).getD []))) := by
      apply Name.tagless_render
      apply tagless_of_isSuffix (List.dropWhile_suffix _)
      cases hname : ts[name]? with
      | none => rfl
      | some t => exact hts t (List.mem_of_getElem? hname)
    have hbefore : tagless (Expression.emit (ts.take into)) :=
      tagless_emit fun t ht => hts t (List.mem_of_mem_take ht)
    have hafter : tagless (Expression.emit (ts.drop (name + 1))) :=
      tagless_emit fun t ht => hts t (List.mem_of_mem_drop ht)
    have hdrop := tagless_append (by decide : tagless "DROP TABLE IF EXISTS ".toList) htable
    have hmake := tagless_append hdrop (by decide : tagless ";\nCREATE TEMP TABLE ".toList)
    have has := tagless_append (tagless_append hmake htable) (by decide : tagless " AS ".toList)
    exact tagless_append (tagless_append has (tagless_trimEnd hbefore)) hafter
  · exact tagless_emit hts

theorem tagless_limit {top : Top} (h : top? ts = some top) : tagless top.limit := by
  obtain ⟨i, last, hlimit, -, -⟩ := exists_of_top? h
  rcases exists_of_limitAt? hlimit with ⟨t, ht, -, hlimit, -⟩ | ⟨n, hlimit, -⟩
  · rw [hlimit]
    exact hts t (List.mem_of_getElem? ht)
  · have hinner : tagless (Expression.emit ((ts.drop (i + 1)).take (n - 1))) :=
      tagless_emit fun t ht => hts t (List.mem_of_mem_drop (List.mem_of_mem_take ht))
    rw [hlimit]
    exact tagless_append (tagless_append (s := ['(']) rfl (tagless_trim hinner)) rfl

omit hts in
theorem tagless_withLimit {limit sql : Text} (hlimit : tagless limit) (hsql : tagless sql) :
    tagless (withLimit limit sql) := by
  have htrim := tagless_trimEnd hsql
  have htrailing : tagless (sql.drop sql.trimEnd.length) :=
    tagless_of_isSuffix (List.drop_suffix _ _) hsql
  have hjoin {query final : Text} (hquery : tagless query) (hfinal : tagless final) :
      tagless (query ++ " LIMIT ".toList ++ limit ++ final ++ sql.drop sql.trimEnd.length) := by
    have hword : tagless " LIMIT ".toList := by decide
    have hfront := tagless_append (tagless_append hquery hword) hlimit
    exact tagless_append (tagless_append hfront hfinal) htrailing
  unfold withLimit
  dsimp only
  split
  · rename_i rest hrest
    exact hjoin (tagless_trimEnd (tagless_dropFinal? htrim (by decide) hrest)) rfl
  · exact hjoin htrim rfl

theorem tagless_query : tagless (emit ts) := by
  have hbody := tagless_body fun t ht => hts t (mem_of_mem_kept ht)
  unfold emit
  split
  · rename_i top htop
    exact tagless_withLimit (tagless_limit hts htop) hbody
  · exact hbody

end Query

/-! ## Columns -/

/-- The texts of a column hold no tags. -/
structure Column.Tagless (c : Column) : Prop where
  name : tagless c.name
  dataType : tagless c.type.dataType
  default : ∀ value ∈ c.type.defaultValue, tagless value

namespace Column

variable {d : Dialect} {t : Token} {ts : List Token}

theorem tagless_compactText (hts : ∀ t ∈ ts, t.text.tagless) : tagless (compactText ts) := by
  rw [compactText, List.flatMap_def]
  apply tagless_flatten
  intro s hs
  obtain ⟨t, ht, rfl⟩ := List.mem_map.mp hs
  have htext := hts t (List.mem_filter.mp ht).1
  split
  · exact tagless_append htext rfl
  · exact htext

theorem tagless_of_mem_argumentTexts {s a : Text} (hs : tagless s) (h : a ∈ argumentTexts s) :
    tagless a := by
  obtain ⟨part, hpart, rfl⟩ := List.mem_map.mp (List.mem_filter.mp h).1
  exact tagless_trim (tagless_of_mem_splitOn (by decide) hs hpart)

theorem tagless_dataType (hd : d.Tagless) (ht : t.text.tagless) (hts : ∀ t ∈ ts, t.text.tagless) :
    tagless (dataType d t ts).1 := by
  have hname := Name.tagless_trimQuotes ht
  have hplain : tagless (d.mapType (Name.trimQuotes t.text) []) := hd.mapType hname (by simp)
  unfold dataType
  dsimp only
  split
  · exact hplain
  · rename_i u inner hdrop
    split
    · refine hd.mapType hname fun a ha => tagless_of_mem_argumentTexts (tagless_compactText ?_) ha
      intro v hv
      have hmem := List.mem_cons_of_mem u (List.mem_of_mem_take hv)
      exact hts v (List.mem_of_mem_drop (hdrop ▸ hmem))
    · exact hplain

theorem tagless_defaultValue (hts : ∀ t ∈ ts, t.text.tagless) : tagless (defaultValue ts).1 := by
  cases ts with
  | nil => rfl
  | cons t ts =>
      obtain ⟨ht, hrest⟩ := List.forall_mem_cons.mp hts
      have hcompact (n : Nat) : tagless (compactText ((t :: ts).take n)) :=
        tagless_compactText fun u hu => hts u (List.mem_of_mem_take hu)
      rw [defaultValue]
      split
      · exact tagless_stripParens (hcompact _)
      · dsimp only
        split
        · exact ht
        · rename_i u rest hdrop
          have hu := hrest u (List.mem_of_mem_drop (hdrop ▸ List.mem_cons_self))
          split
          · exact hcompact _
          split
          · exact tagless_append (s := ['-']) rfl hu
          · exact ht

/-- An option leaves the data type as it is, and may set the default value. -/
theorem tagless_option? {c c' : ColumnType} {n : Nat} (hd : d.Tagless)
    (hts : ∀ t ∈ ts, t.text.tagless) (h : option? d c t ts = some (c', n))
    (hdefault : ∀ value ∈ c.defaultValue, tagless value) :
    c'.dataType = c.dataType ∧ ∀ value ∈ c'.defaultValue, tagless value := by
  have hvalue : tagless (defaultValue (skipTrivia ts)).1 :=
    tagless_defaultValue fun u hu => hts u ((List.dropWhile_suffix _).subset hu)
  unfold option? at h
  dsimp only at h
  split at h
  case h_10 =>
      cases h
      refine ⟨rfl, fun value hmem => ?_⟩
      cases hmem
      exact hd.mapDefault hvalue
  all_goals (try split at h) <;> cases h <;> exact ⟨rfl, hdefault⟩

theorem tagless_options {c : ColumnType} (hd : d.Tagless) (hts : ∀ t ∈ ts, t.text.tagless)
    (hdefault : ∀ value ∈ c.defaultValue, tagless value) :
    (options d c ts).1.dataType = c.dataType ∧
      ∀ value ∈ (options d c ts).1.defaultValue, tagless value := by
  fun_induction options d c ts with
  | case1 c ts hskip => exact ⟨rfl, hdefault⟩
  | case2 c ts t rest hskip hoption => exact ⟨rfl, hdefault⟩
  | case3 c ts t rest hskip c' n hoption type m heq ih =>
      have hrest := (tagless_of_skipTrivia hts hskip).2
      obtain ⟨htype, hdefault⟩ := tagless_option? hd hrest hoption hdefault
      rw [← htype]
      rw [heq] at ih
      exact ih (fun u hu => hrest u (List.mem_of_mem_drop hu)) hdefault

theorem tagless_define (hd : d.Tagless) (ht : t.text.tagless) (hts : ∀ t ∈ ts, t.text.tagless) :
    (define d t ts).1.Tagless := by
  have hstart (start : ColumnType) (n : Nat) (hstart : tagless start.dataType)
      (hnone : start.defaultValue = none) :
      Column.Tagless ⟨Name.normalize t.text, (options d start (ts.drop n)).1⟩ := by
    obtain ⟨htype, hdefault⟩ := tagless_options hd (c := start)
      (fun u hu => hts u (List.mem_of_mem_drop hu)) (by simp [hnone])
    exact ⟨Name.tagless_normalize ht, htype ▸ hstart, hdefault⟩
  unfold define
  dsimp only
  split
  · rename_i u us hskip
    obtain ⟨hu, hus⟩ := tagless_of_skipTrivia hts hskip
    split
    · exact hstart _ _ (tagless_dataType hd hu hus) rfl
    · exact hstart _ _ rfl rfl
  · exact hstart _ _ rfl rfl

end Column

/-! ## Patterns and alterations -/

/-- What a pattern has captured holds no tags. -/
structure Captures.Tagless (c : Captures) : Prop where
  values : ∀ value ∈ c.values, tagless value
  columns : ∀ column ∈ c.columns, column.Tagless

theorem Captures.tagless_append {a b : Captures} (ha : a.Tagless) (hb : b.Tagless) :
    (a ++ b).Tagless where
  values value h := (List.mem_append.mp h).elim (ha.values value) (hb.values value)
  columns column h := (List.mem_append.mp h).elim (ha.columns column) (hb.columns column)

namespace Pattern

variable {p : Pattern} {ts : List Token} {c : Captures} {n : Nat}

theorem tagless_nameAt {t : Token} (ht : t.text.tagless) (hts : ∀ t ∈ ts, t.text.tagless) :
    tagless (nameAt t ts).1 := by
  unfold nameAt
  split
  · split
    · exact Name.tagless_normalize (hts _ (by simp))
    · exact Name.tagless_normalize ht
  · exact Name.tagless_normalize ht

section
variable (hp : p.dialect.Tagless)
include hp

theorem tagless_matchStep {s : Step} (hts : ∀ t ∈ ts, t.text.tagless)
    (h : p.matchStep s ts = .ok (c, n)) : c.Tagless := by
  simp only [matchStep] at h
  split at h
  · cases h
  · rename_i t rest hdrop
    have hmem : ∀ u ∈ t :: rest, u.text.tagless := fun u hu =>
      hts u (List.mem_of_mem_drop (hdrop ▸ hu))
    obtain ⟨ht, hrest⟩ := List.forall_mem_cons.mp hmem
    split at h
    · split at h
      · cases h
        exact ⟨by simp, by simp⟩
      · cases h
        exact ⟨by simpa using ht, by simp⟩
      · cases h
        exact ⟨by simpa using tagless_nameAt ht hrest, by simp⟩
      · cases h
        exact ⟨by simp, by simpa using Column.tagless_define hp ht hrest⟩
    · cases h

theorem tagless_matchSteps {steps : List Step} (hts : ∀ t ∈ ts, t.text.tagless)
    (h : p.matchSteps steps ts = .ok (c, n)) : c.Tagless := by
  induction steps generalizing ts c n with
  | nil =>
      cases h
      exact ⟨by simp, by simp⟩
  | cons s steps ih =>
      rw [matchSteps] at h
      split at h
      · cases h
      · rename_i c₁ n₁ hfirst
        split at h
        · cases h
        · rename_i c₂ n₂ hrest
          cases h
          exact Captures.tagless_append (tagless_matchStep hp hts hfirst)
            (ih (fun t ht => hts t (List.mem_of_mem_drop ht)) hrest)

theorem tagless_matchTail (hts : ∀ t ∈ ts, t.text.tagless) : (p.matchTail ts).1.Tagless := by
  fun_induction matchTail p ts with
  | case1 => exact ⟨by simp, by simp⟩
  | case2 t ts c n hsteps c' m heq ih =>
      rw [heq] at ih
      apply Captures.tagless_append (tagless_matchSteps hp hts hsteps)
      exact ih fun u hu => hts u (List.mem_cons_of_mem t (List.mem_of_mem_drop hu))
  | case3 => exact ⟨by simp, by simp⟩

theorem tagless_run? (hts : ∀ t ∈ ts, t.text.tagless) (h : p.run? ts = some (c, n)) :
    c.Tagless := by
  simp only [run?, run] at h
  split at h
  · cases h
  · split at h
    · cases h
    · rename_i c' n' hsteps
      cases h
      exact Captures.tagless_append (tagless_matchSteps hp hts hsteps)
        (tagless_matchTail hp fun t ht => hts t (List.mem_of_mem_drop ht))

end

end Pattern

namespace Alteration

theorem tagless_columnClause {c : Column} (hc : c.Tagless) : tagless (columnClause c) := by
  have htextIf (b : Bool) (s : String) (hs : tagless s.toList) : tagless (textIf b s) := by
    cases b
    · rfl
    · exact hs
  have hdefault : tagless (defaultClause c.type.defaultValue) := by
    unfold defaultClause
    split
    · rfl
    · rfl
    · rename_i value _ hvalue
      exact tagless_append (by decide) (hc.default value hvalue)
  have hname := tagless_append (Name.tagless_render hc.name) (t := [' ']) rfl
  have htype := tagless_append hname hc.dataType
  have hidentity := tagless_append htype
    (htextIf c.type.identity " generated by default as identity" (by decide))
  have hnull := tagless_append hidentity (htextIf (!c.type.nullable) " not null" (by decide))
  have hclause := tagless_append (tagless_append hnull hdefault)
    (htextIf c.type.primaryKey " primary key" (by decide))
  simpa [columnClause] using hclause

/-- The texts of an alteration hold no tags. -/
def Tagless : Alteration → Prop
  | addPrimaryKey table constraint columns =>
      tagless table ∧ tagless constraint ∧ ∀ column ∈ columns, tagless column
  | dropConstraint table constraint => tagless table ∧ tagless constraint
  | addColumns table columns => tagless table ∧ ∀ column ∈ columns, column.Tagless
  | alterColumn table column => tagless table ∧ column.Tagless

theorem tagless_toSql {a : Alteration} (ha : a.Tagless) : tagless a.toSql := by
  have hopen {table : Text} (htable : tagless table) :
      tagless ("ALTER TABLE ".toList ++ Name.render table) :=
    tagless_append (by decide) (Name.tagless_render htable)
  cases a with
  | addPrimaryKey table constraint columns =>
      obtain ⟨htable, hconstraint, hcolumns⟩ := ha
      have hadd := tagless_append (hopen htable) (by decide : tagless " ADD CONSTRAINT ".toList)
      have hname := tagless_append hadd (Name.tagless_render hconstraint)
      have hkey := tagless_append hname (by decide : tagless " PRIMARY KEY (".toList)
      exact tagless_append (tagless_append hkey (tagless_intercalate rfl hcolumns)) (by decide)
  | dropConstraint table constraint =>
      obtain ⟨htable, hconstraint⟩ := ha
      have hdrop := tagless_append (hopen htable) (by decide : tagless " DROP CONSTRAINT ".toList)
      exact tagless_append (tagless_append hdrop (Name.tagless_render hconstraint)) rfl
  | addColumns table columns =>
      obtain ⟨htable, hcolumns⟩ := ha
      refine tagless_append (tagless_append (hopen htable) (tagless_intercalate rfl ?_)) rfl
      intro clause hclause
      obtain ⟨c, hc, rfl⟩ := List.mem_map.mp hclause
      exact tagless_append (by decide) (tagless_columnClause (hcolumns c hc))
  | alterColumn table column =>
      obtain ⟨htable, hcolumn⟩ := ha
      have hname := Name.tagless_render hcolumn.name
      have halter := tagless_append (hopen htable) (by decide : tagless " alter column ".toList)
      have htype := tagless_append (tagless_append halter hname)
        (by decide : tagless " type ".toList)
      have hsecond := tagless_append (tagless_append htype hcolumn.dataType)
        (by decide : tagless ", alter column ".toList)
      have hchange : tagless (' ' :: (if column.type.nullable then "drop" else "set").toList) := by
        split <;> decide
      exact tagless_append (tagless_append (tagless_append hsecond hname) hchange) (by decide)

theorem tagless_keyColumns {ts : List Token} (hts : ∀ t ∈ ts, t.text.tagless) :
    ∀ column ∈ (keyColumns ts).1, tagless column := by
  induction ts with
  | nil => simp [keyColumns]
  | cons t ts ih =>
      obtain ⟨ht, hts⟩ := List.forall_mem_cons.mp hts
      rw [keyColumns]
      split
      · simp
      · dsimp only
        split
        · exact List.forall_mem_cons.mpr ⟨Name.tagless_normalize ht, ih hts⟩
        · exact ih hts

/-- An alteration that is read from tokens without tags has none. -/
theorem tagless_ofStatement? {d : Dialect} {ts : List Token} {a : Alteration} (hd : d.Tagless)
    (hts : ∀ t ∈ ts, t.text.tagless) (h : ofStatement? d ts = some a) : a.Tagless := by
  have hrun {steps tail : List Step} {c : Captures} {n : Nat}
      (h : (pattern d steps tail).run? ts = some (c, n)) : c.Tagless :=
    Pattern.tagless_run? hd hts h
  obtain ⟨n, -, h | ⟨-, h⟩ | ⟨-, h | h⟩⟩ := ofStatement?_cases h
  · unfold addPrimaryKey? at h
    dsimp only at h
    split at h
    · rename_i n₀ hpattern
      have hvalues := (hrun hpattern).values
      split at h
      · cases h
      · rename_i t inner hdrop
        split at h
        · cases h
          refine ⟨hvalues _ (by simp), hvalues _ (by simp), tagless_keyColumns fun u hu => ?_⟩
          have hmem := List.mem_of_mem_drop (hdrop ▸ List.mem_cons_of_mem t hu)
          exact hts u (List.mem_of_mem_drop hmem)
        · cases h
    · cases h
  · unfold dropConstraint? at h
    split at h
    · rename_i hpattern
      cases h
      exact ⟨(hrun hpattern).values _ (by simp), (hrun hpattern).values _ (by simp)⟩
    · cases h
  · unfold addColumns? at h
    split at h
    · rename_i hpattern
      cases h
      exact ⟨(hrun hpattern).values _ (by simp), (hrun hpattern).columns⟩
    · cases h
  · unfold alterColumn? at h
    split at h
    · rename_i hpattern
      cases h
      exact ⟨(hrun hpattern).values _ (by simp), (hrun hpattern).columns _ (by simp)⟩
    · cases h

end Alteration

/-! ## Declarations -/

namespace Declaration

/-- The name and the first value of a variable hold no tags. -/
structure Tagless (d : Declaration) : Prop where
  name : tagless d.declared.name
  value : ∀ value ∈ d.value, tagless value

variable {d : Dialect} {ts : List Token}

theorem tagless_valueAt? {value : Text} {n : Nat} (hts : ∀ t ∈ ts, t.text.tagless)
    (h : valueAt? ts = some (value, n)) : tagless value := by
  unfold valueAt? at h
  split at h
  · cases h
  · rename_i t after hskip
    split at h
    · cases h
      have hafter := (tagless_of_skipTrivia hts hskip).2
      exact tagless_trim (Expression.tagless_emit fun u hu => hafter u (List.mem_of_mem_take hu))
    · cases h

theorem tagless_one? {declaration : Declaration} {n : Nat} (hts : ∀ t ∈ ts, t.text.tagless)
    (h : one? d ts = some (declaration, n)) : declaration.Tagless := by
  unfold one? at h
  split at h
  · cases h
  · rename_i t after hskip
    obtain ⟨ht, hafter⟩ := tagless_of_skipTrivia hts hskip
    split at h
    · obtain ⟨⟨typeText, m⟩, -, h⟩ := Option.bind_eq_some_iff.mp h
      dsimp only at h
      split at h
      · rename_i value k hvalue
        cases h
        have hvalue := tagless_valueAt? (fun u hu => hafter u (List.mem_of_mem_drop hu)) hvalue
        exact ⟨Name.tagless_ofVariable ht, by simpa using hvalue⟩
      · cases h
        exact ⟨Name.tagless_ofVariable ht, by simp⟩
    · cases h

theorem tagless_list (hts : ∀ t ∈ ts, t.text.tagless) :
    ∀ declaration ∈ (list d ts).1, declaration.Tagless := by
  fun_induction list d ts with
  | case1 ts hone => simp
  | case2 ts declaration n hone hskip => simpa using tagless_one? hts hone
  | case3 ts declaration n hone t rest hskip hcomma m hlist ih =>
      simpa using tagless_one? hts hone
  | case4 ts declaration n hone t rest hskip hcomma declarations m hne hlist ih =>
      rw [hlist] at ih
      have hrest := (tagless_of_skipTrivia (fun u hu => hts u (List.mem_of_mem_drop hu)) hskip).2
      exact List.forall_mem_cons.mpr ⟨tagless_one? hts hone, ih hrest⟩
  | case5 ts declaration n hone t rest hskip hcomma => simpa using tagless_one? hts hone

end Declaration

/-! ## Statements without statements inside -/

namespace Batch

variable {ts : List Token} (hts : ∀ t ∈ ts, t.text.tagless)
include hts

theorem tagless_alter {s : Setting} (hs : s.dialect.Tagless) : tagless (alter s ts) := by
  unfold alter
  split
  · rename_i a ha
    exact Alteration.tagless_toSql (Alteration.tagless_ofStatement? hs hts ha)
  · exact Expression.tagless_emit hts

theorem tagless_valueText : tagless (valueText ts) := by
  unfold valueText
  cases h : Expression.concat? ts with
  | none => exact Expression.tagless_emit hts
  | some s => exact Expression.tagless_concat? hts h

theorem tagless_set : tagless (set ts) := by
  unfold set
  split
  · rename_i name columns n hrun
    have hname := (Pattern.tagless_run? Dialect.tagless_postgres hts hrun).values name (by simp)
    have hvalue : tagless (valueText (trimValue (ts.drop n))) := by
      apply tagless_valueText
      intro t ht
      have hmem := (List.dropWhile_suffix _).subset (List.mem_reverse.mp ht)
      exact hts t (List.mem_of_mem_drop (List.mem_reverse.mp hmem))
    have hassign := tagless_append (Name.tagless_ofVariable hname)
      (by decide : tagless " := ".toList)
    exact tagless_append (tagless_append hassign (tagless_trim hvalue)) rfl
  · exact Expression.tagless_emit hts

omit hts in
theorem tagless_assignments {declarations : List Declaration}
    (h : ∀ d ∈ declarations, d.Tagless) : tagless (assignments declarations) := by
  apply tagless_intercalate rfl
  intro text htext
  obtain ⟨d, hd, hmap⟩ := List.mem_filterMap.mp htext
  obtain ⟨value, hvalue, rfl⟩ := Option.map_eq_some_iff.mp hmap
  have hassign := tagless_append (h d hd).name (by decide : tagless " := ".toList)
  exact tagless_append (tagless_append hassign ((h d hd).value value hvalue)) rfl

theorem tagless_joinText : tagless (joinText ts) := by
  rw [joinText, List.flatMap_def]
  apply tagless_flatten
  intro s hs
  obtain ⟨t, ht, rfl⟩ := List.mem_map.mp hs
  exact hts t ht

end Batch

end SqlMigration
