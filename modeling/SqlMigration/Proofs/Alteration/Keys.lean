import SqlMigration.Proofs.Alteration.Acceptance
import SqlMigration.Proofs.Name.Listing

/-! # The columns of a primary key

The columns are read by normalising every identifier in the parentheses that is no direction, and
they are written without quotes. Main statement: the columns of a key come out as they went in
exactly when none of them has the name of a direction and each is an identifier by its normal name.
-/

namespace SqlMigration

open Grammar

/-! ## Reading on -/

namespace Reads

variable {us vs ts rest : List Token} {t : Token}

theorem of_cons (h : Reads (t :: us) ts rest) :
    ∃ ts', skipTrivia ts = t :: ts' ∧ Reads us ts' rest := by
  obtain ⟨taken, rfl, hus⟩ := h
  induction taken with
  | nil => cases hus
  | cons u taken ih =>
      by_cases hu : u.isTrivia
      · rw [significant, List.filter_cons_of_neg (by simp [hu])] at hus
        rw [List.cons_append, skipTrivia, List.dropWhile_cons_of_pos hu]
        exact ih hus
      · rw [Bool.not_eq_true] at hu
        rw [significant_cons hu] at hus
        cases hus
        rw [List.cons_append, skipTrivia, List.dropWhile_cons_of_neg (by simp [hu])]
        exact ⟨taken ++ rest, rfl, taken, rfl, rfl⟩

theorem of_append_cons (h : Reads (us ++ t :: vs) ts rest) :
    ∃ mid, Reads us ts (t :: mid) ∧ Reads vs mid rest := by
  induction us generalizing ts with
  | nil =>
      obtain ⟨mid, hskip, hmid⟩ := h.of_cons
      exact ⟨mid, .of_skipTrivia hskip, hmid⟩
  | cons u us ih =>
      obtain ⟨ts', hskip, hts'⟩ := h.of_cons
      obtain ⟨mid, hus, hvs⟩ := ih hts'
      obtain ⟨_, _, _, _, hu⟩ := eq_append_of_skipTrivia hskip
      exact ⟨mid, ((of_skipTrivia hskip).trans (.single hu)).trans hus, hvs⟩

theorem skipTrivia_eq (h : Reads [] ts rest) : skipTrivia ts = skipTrivia rest := by
  obtain ⟨gap, rfl, hgap⟩ := h
  have hgap : ∀ t ∈ gap, t.isTrivia := by simpa [significant] using hgap
  exact List.dropWhile_append_of_pos hgap

/-- What is read next is the first token or comes after trivia. -/
theorem kind_head_ne {k : Kind} (h : Reads (t :: us) ts rest) (ht : t.kind ≠ k)
    (hk : k.isTrivia = false) : ∀ u ∈ ts.head?, u.kind ≠ k := by
  obtain ⟨ts', hskip, _⟩ := h.of_cons
  obtain ⟨gap, rfl, hgap, _, _⟩ := eq_append_of_skipTrivia hskip
  cases gap with
  | nil =>
      intro u hu
      cases hu
      exact ht
  | cons g gap =>
      rintro u hu rfl
      cases hu
      exact absurd (hgap g List.mem_cons_self) (by simp [Token.isTrivia, hk])

end Reads

/-! ## Steps that match -/

/-- The name that the tokens of a name stand for. -/
def Grammar.nameOf (name : List Token) : Text := Name.normalize (joinText name.getLast?.toList)

namespace Pattern

variable {p : Pattern} {steps : List Step} {ts ts' rest name : List Token} {values : List Text}
  {t : Token}

/-- The steps match, capture the values and leave `rest`. -/
def Captured (p : Pattern) (steps : List Step) (ts : List Token) (values : List Text)
    (rest : List Token) : Prop :=
  ∃ n, p.matchSteps steps ts = .ok (⟨values, []⟩, n) ∧ ts.drop n = rest

theorem nameAt_of_head (h : ∀ u ∈ ts.head?, u.kind ≠ .dot) :
    nameAt t ts = (Name.normalize t.text, 0) := by
  cases ts with
  | nil => rfl
  | cons u ts =>
      cases ts with
      | nil => rfl
      | cons v ts => simp [nameAt, startsWithDbo, h u rfl]

/-- A whole name is taken, with its qualifier. -/
theorem nameAt_isName (hname : IsName name) (h : ∀ u ∈ ts.head?, u.kind ≠ .dot) :
    ∃ t name', name = t :: name' ∧ t.kind.isIdentifier ∧
      nameAt t (name' ++ ts) = (nameOf name, name'.length) := by
  cases hname with
  | @plain t ht => exact ⟨t, [], rfl, ht, by simpa [nameOf, joinText] using nameAt_of_head h⟩
  | @qualified q dot t hq hdot ht =>
      refine ⟨q, [dot, t], rfl, (Bool.and_eq_true_iff.mp hq).1, ?_⟩
      simp [nameAt, startsWithDbo, hq, hdot, ht, nameOf, joinText]

namespace Captured

theorem nil : p.Captured [] ts [] ts := ⟨0, rfl, rfl⟩

theorem cons {step : Step} {captured : List Text} {m : Nat}
    (hstep : p.matchStep step ts = .ok (⟨captured, []⟩, m))
    (h : p.Captured steps (ts.drop m) values rest) :
    p.Captured (step :: steps) ts (captured ++ values) rest := by
  obtain ⟨n, hsteps, hrest⟩ := h
  refine ⟨m + n, ?_, by rw [← List.drop_drop, hrest]⟩
  rw [matchSteps, hstep]
  dsimp only
  rw [hsteps]
  rfl

theorem keyword {k : Keyword} (hp : p.keepComments = false) (hskip : skipTrivia ts = t :: ts')
    (ht : t.is k) (h : p.Captured steps ts' values rest) :
    p.Captured (.keyword k :: steps) ts values rest := by
  have hstep : p.matchStep (.keyword k) ts = .ok ({}, triviaLength ts + 1) := by
    simp only [matchStep, skips_eq hp]
    rw [← triviaLength, drop_triviaLength, hskip]
    simp [Step.keyword, Step.kind, of_decide_eq_true ht]
  have hdrop : ts.drop (triviaLength ts + 1) = ts' := drop_of_skipTrivia hskip 0
  exact cons hstep (hdrop ▸ h)

theorem identifier (hp : p.keepComments = false) (hskip : skipTrivia ts = t :: ts')
    (ht : t.kind.isIdentifier)
    (h : p.Captured steps (ts'.drop (nameAt t ts').2) values rest) :
    p.Captured (.identifier :: steps) ts ((nameAt t ts').1 :: values) rest := by
  have hstep : p.matchStep .identifier ts =
      .ok ({ values := [(nameAt t ts').1] }, triviaLength ts + 1 + (nameAt t ts').2) := by
    simp only [matchStep, skips_eq hp]
    rw [← triviaLength, drop_triviaLength, hskip]
    exact if_pos ht
  have hdrop : ts.drop (triviaLength ts + 1 + (nameAt t ts').2) = ts'.drop (nameAt t ts').2 :=
    drop_of_skipTrivia hskip _
  exact cons hstep (hdrop ▸ h)

theorem named (hp : p.keepComments = false) (hread : Reads [] ts (name ++ ts'))
    (hname : IsName name) (hhead : ∀ u ∈ ts'.head?, u.kind ≠ .dot)
    (h : p.Captured steps ts' values rest) :
    p.Captured (.identifier :: steps) ts (nameOf name :: values) rest := by
  obtain ⟨t, name', rfl, ht, hat⟩ := nameAt_isName hname hhead
  have hskip : skipTrivia ts = t :: (name' ++ ts') := by
    rw [hread.skipTrivia_eq, List.cons_append, skipTrivia,
      List.dropWhile_cons_of_neg (by simp [isTrivia_of_isIdentifier ht])]
  have hrest : p.Captured steps ((name' ++ ts').drop (nameAt t (name' ++ ts')).2) values rest := by
    rwa [hat, List.drop_left]
  have hcaptured := identifier hp hskip ht hrest
  rwa [hat] at hcaptured

end Captured

theorem run?_of_captured (htail : p.tail = []) (hts : ts ≠ [])
    (h : p.Captured p.steps ts values rest) :
    ∃ n, p.run? ts = some (⟨values, []⟩, n) ∧ ts.drop n = rest := by
  obtain ⟨n, hsteps, hrest⟩ := h
  refine ⟨n, ?_, hrest⟩
  have hempty : ts.isEmpty = false := by simpa using hts
  have hcaptures : (⟨values, []⟩ : Captures) ++ {} = ⟨values, []⟩ := by
    show (⟨values ++ [], [] ++ []⟩ : Captures) = _
    simp
  simp only [run?, run, hempty, hsteps, matchTail_of_tail_eq_nil htail, hcaptures]
  rfl

end Pattern

/-! ## Keys -/

/-- A column of a key, with or without its direction. -/
structure KeyColumn where
  name : Token
  direction : Option Token
  isIdentifier : name.kind.isIdentifier
  isDirection : ∀ t ∈ direction, Grammar.isDirection t

namespace KeyColumn

def tokens (c : KeyColumn) : List Token := c.name :: c.direction.toList

/-- The normal name of the column. -/
def normal (c : KeyColumn) : Text := Name.normalize c.name.text

/-- The names of the columns that are not taken for a direction. -/
def kept (columns : List KeyColumn) : List Text :=
  (columns.filter fun c => !Grammar.isDirection c.name).map normal

end KeyColumn

namespace Grammar

/-- The tokens of the columns, with a comma between each two. -/
inductive KeyList : List KeyColumn → List Token → Prop where
  | one (c : KeyColumn) : KeyList [c] c.tokens
  | more {cs : List KeyColumn} {us : List Token} {comma : Token} (c : KeyColumn)
      (hcomma : comma.kind = .comma) (h : KeyList cs us) :
      KeyList (c :: cs) (c.tokens ++ comma :: us)

/-- The statement that gives a table a primary key on the columns, at the head of the tokens. -/
inductive AddsKey (table constraint : List Token) (columns : List KeyColumn) :
    List Token → Prop where
  | intro {ts ts₁ ts₂ rest storage keys : List Token}
      {alter tab add con primary key left right : Token}
      (hopening : Reads [alter, tab] ts (table ++ ts₁))
      (hadding : Reads [add, con] ts₁ (constraint ++ ts₂))
      (hkeying : Reads (primary :: key :: (storage ++ left :: (keys ++ [right]))) ts₂ rest)
      (halter : alter.is .ALTER) (htab : tab.is .TABLE) (htable : IsName table)
      (hadd : add.is .ADD) (hcon : con.is .CONSTRAINT) (hconstraint : IsName constraint)
      (hprimary : primary.is .PRIMARY) (hkey : key.is .KEY)
      (hstorage : ∀ w ∈ storage, Alteration.isStorageWord w) (hleft : left.kind = .leftParen)
      (hkeys : KeyList columns keys) (hright : right.kind = .rightParen) :
      AddsKey table constraint columns ts

end Grammar

namespace Alteration

variable {columns : List KeyColumn} {table constraint ts keys taken rest : List Token}
  {right : Token}

/-- Whether the token is taken for a column of a key. -/
def isKeyName (t : Token) : Bool := t.kind.isIdentifier && !isDirection t

theorem all_inKeys_tokens (c : KeyColumn) : c.tokens.all inKeys := by
  rw [KeyColumn.tokens, List.all_cons, inKeys_of_isIdentifier c.isIdentifier, Bool.true_and,
    List.all_eq_true]
  intro t ht
  exact inKeys_of_isIdentifier
    (isIdentifier_of_isDirection (c.isDirection t (Option.mem_toList.mp ht)))

theorem filter_isKeyName_tokens (c : KeyColumn) :
    c.tokens.filter isKeyName = if isDirection c.name then [] else [c.name] := by
  have hdirection : c.direction.toList.filter isKeyName = [] := by
    rw [List.filter_eq_nil_iff]
    intro t ht
    simp [isKeyName, c.isDirection t (Option.mem_toList.mp ht)]
  rw [KeyColumn.tokens, List.filter_cons, hdirection, isKeyName, c.isIdentifier]
  cases isDirection c.name <;> rfl

theorem all_inKeys_keyList (h : KeyList columns keys) : keys.all inKeys := by
  induction h with
  | one c => exact all_inKeys_tokens c
  | more c hcomma _ ih =>
      rw [List.all_append, List.all_cons, all_inKeys_tokens c, ih]
      simp [inKeys, hcomma]

/-- The columns that are read from a list of keys. -/
theorem filter_isKeyName_keyList (h : KeyList columns keys) :
    keys.filter isKeyName =
      (columns.filter fun c => !isDirection c.name).map KeyColumn.name := by
  induction h with
  | one c =>
      rw [filter_isKeyName_tokens]
      cases hc : isDirection c.name <;> simp [hc]
  | @more cs us comma c hcomma _ ih =>
      have hseparator : isKeyName comma = false := by rw [isKeyName, hcomma]; rfl
      rw [List.filter_append, filter_isKeyName_tokens,
        List.filter_cons_of_neg (by simp [hseparator]), ih]
      cases hc : isDirection c.name <;> simp [hc]

theorem filter_isKeyName_significant (ts : List Token) :
    (significant ts).filter isKeyName = ts.filter isKeyName := by
  rw [significant, List.filter_filter]
  refine List.filter_congr fun t _ => ?_
  cases h : isKeyName t with
  | false => rfl
  | true => simp [isTrivia_of_isIdentifier (Bool.and_eq_true_iff.mp h).1]

/-- The scan of the keys ends at the first parenthesis that closes, and takes every name before
it. -/
theorem keyColumns_eq (htaken : taken.all inKeys) (hright : right.kind = .rightParen) :
    (keyColumns (taken ++ right :: rest)).1 =
      (taken.filter isKeyName).map fun t => Name.normalize t.text := by
  induction taken with
  | nil => simp [keyColumns, hright]
  | cons t taken ih =>
      rw [List.all_cons, Bool.and_eq_true] at htaken
      have hkind : t.kind ≠ .rightParen := by simpa [inKeys] using htaken.1
      have hstep : (keyColumns (t :: (taken ++ right :: rest))).1 =
          if isKeyName t then Name.normalize t.text :: (keyColumns (taken ++ right :: rest)).1
          else (keyColumns (taken ++ right :: rest)).1 := by
        simp only [keyColumns, hkind, if_false]
        split <;> rename_i h <;> simp only [isKeyName, isDirection, h] <;> rfl
      rw [List.cons_append, hstep, ih htaken.2]
      cases h : isKeyName t <;> simp [h]

theorem keyColumns_of_reads (hkeys : KeyList columns keys) (hright : right.kind = .rightParen)
    (h : Reads (keys ++ [right]) ts rest) :
    (keyColumns ts).1 = KeyColumn.kept columns := by
  obtain ⟨mid, ⟨taken, rfl, hsignificant⟩, -⟩ := h.of_append_cons
  have htaken : taken.all inKeys := by
    have hall := all_inKeys_keyList hkeys
    rw [← hsignificant] at hall
    rw [List.all_eq_true] at hall ⊢
    intro t ht
    cases htrivia : t.isTrivia with
    | false => exact hall t (List.mem_filter.mpr ⟨ht, by simp [htrivia]⟩)
    | true =>
        rw [inKeys, decide_eq_true_eq]
        intro hkind
        rw [isTrivia_of_kind hkind rfl] at htrivia
        cases htrivia
  rw [keyColumns_eq htaken hright, ← filter_isKeyName_significant, hsignificant,
    filter_isKeyName_keyList hkeys, List.map_map]
  rfl

/-- The words for storage are passed over, up to the parenthesis. -/
theorem drop_storage {storage inner : List Token} {left : Token}
    (hstorage : ∀ w ∈ storage, isStorageWord w) (hleft : left.kind = .leftParen)
    (h : Reads storage ts (left :: inner)) :
    ts.drop (ts.takeWhile fun t => t.isTrivia || isStorageWord t).length = left :: inner := by
  have hparen : isStorageWord left = false := by
    simp [isStorageWord, Token.isWord, hleft, Kind.isIdentifier, Kind.identifiers]
  have hdropWhile := h.dropWhile_eq (p := fun t => t.isTrivia || isStorageWord t)
    (by simpa using fun w hw => .inr (hstorage w hw)) (fun u hu => by simp [hu])
    (by simp [isTrivia_of_kind hleft rfl, hparen])
  have hsplit := ts.takeWhile_append_dropWhile (p := fun t => t.isTrivia || isStorageWord t)
  rw [hdropWhile] at hsplit
  calc ts.drop (ts.takeWhile fun t => t.isTrivia || isStorageWord t).length
      = (ts.takeWhile (fun t => t.isTrivia || isStorageWord t) ++ left :: inner).drop
          (ts.takeWhile fun t => t.isTrivia || isStorageWord t).length := by rw [hsplit]
    _ = left :: inner := List.drop_left

/-- The alteration that is read from the statement for a primary key. -/
theorem addPrimaryKey?_of_addsKey (d : Dialect) (h : AddsKey table constraint columns ts) :
    (addPrimaryKey? d ts).map Prod.fst =
      some (.addPrimaryKey (nameOf table) (nameOf constraint) (KeyColumn.kept columns)) := by
  obtain ⟨hopening, hadding, hkeying, halter, htab, htable, hadd, hcon, hconstraint, hprimary, hkey,
    hstorage, hleft, hkeys, hright⟩ := h
  obtain ⟨r₁, hskip₁, hr₁⟩ := hopening.of_cons
  obtain ⟨r₂, hskip₂, hr₂⟩ := hr₁.of_cons
  obtain ⟨r₃, hskip₃, hr₃⟩ := hadding.of_cons
  obtain ⟨r₄, hskip₄, hr₄⟩ := hr₃.of_cons
  obtain ⟨r₅, hskip₅, hr₅⟩ := hkeying.of_cons
  obtain ⟨r₆, hskip₆, hr₆⟩ := hr₅.of_cons
  obtain ⟨inner, hstoring, hinner⟩ := hr₆.of_append_cons
  have hne : ts ≠ [] := by
    rintro rfl
    cases hskip₁
  have hdot {t : Token} {k : Keyword} (ht : t.is k) : t.kind ≠ .dot := by
    rw [of_decide_eq_true ht]
    exact Kind.noConfusion
  have hcaptured : (pattern d keySteps).Captured (opening ++ keySteps) ts
      [nameOf table, nameOf constraint] r₆ :=
    .keyword rfl hskip₁ halter <| .keyword rfl hskip₂ htab <|
      .named rfl hr₂ htable (hadding.kind_head_ne (hdot hadd) rfl) <|
      .keyword rfl hskip₃ hadd <| .keyword rfl hskip₄ hcon <|
      .named rfl hr₄ hconstraint (hkeying.kind_head_ne (hdot hprimary) rfl) <|
      .keyword rfl hskip₅ hprimary <| .keyword rfl hskip₆ hkey .nil
  obtain ⟨n, hrun, hdrop⟩ := Pattern.run?_of_captured rfl hne hcaptured
  rw [addPrimaryKey?, hrun]
  simp only [hdrop, drop_storage hstorage hleft hstoring, hleft, if_true, Option.map_some,
    keyColumns_of_reads hkeys hright hinner]

/-- The columns of a primary key are read as they stand in the statement, and read back from what is
written, exactly when none has the name of a direction and each is an identifier by its normal
name. -/
theorem primaryKey_kept_iff (d : Dialect) (h : AddsKey table constraint columns ts) :
    (addPrimaryKey? d ts).map Prod.fst =
        some (.addPrimaryKey (nameOf table) (nameOf constraint) (KeyColumn.kept columns)) ∧
      (KeyColumn.kept columns = columns.map KeyColumn.normal ∧
          Name.list? (tokenize (keyList (KeyColumn.kept columns))) =
            some (columns.map KeyColumn.normal) ↔
        ∀ c ∈ columns, isDirection c.name = false ∧ Name.isUnquoted c.normal) := by
  refine ⟨addPrimaryKey?_of_addsKey d h, ?_⟩
  have hne : columns.map KeyColumn.normal ≠ [] := by
    obtain ⟨-, -, -, -, -, -, -, -, -, -, -, -, -, hkeys, -⟩ := h
    cases hkeys <;> exact List.cons_ne_nil _ _
  have hnormal : ∀ n ∈ columns.map KeyColumn.normal, Name.normalize n = n := by
    intro n hn
    obtain ⟨c, -, rfl⟩ := List.mem_map.mp hn
    exact Name.normalize_normalize c.name.text
  have hlist := Name.list?_keyList_iff hne hnormal 0
  rw [List.forall_mem_map] at hlist
  constructor
  · rintro ⟨hkept, hback⟩
    -- as many columns are kept as there are, so none is left out
    have hlength := congrArg List.length hkept
    rw [KeyColumn.kept, List.length_map, List.length_map, List.length_filter_eq_length_iff]
      at hlength
    rw [hkept] at hback
    exact fun c hc => ⟨by simpa using hlength c hc, hlist.mp hback c hc⟩
  · intro hcolumns
    have hkept : KeyColumn.kept columns = columns.map KeyColumn.normal := by
      rw [KeyColumn.kept, List.filter_eq_self.mpr fun c hc => by simp [(hcolumns c hc).1]]
    rw [hkept]
    exact ⟨rfl, hlist.mpr fun c hc => (hcolumns c hc).2⟩

/-- A token of ASCII characters. -/
def ascii (k : Kind) (s : String) (start : Nat) : Token :=
  ⟨k, s.toList, ⟨start, start + s.toList.length⟩⟩

theorem primaryKey_kept_iff_pair :
    let ts := tokenize
      "ALTER TABLE dbo.T ADD CONSTRAINT K PRIMARY KEY CLUSTERED ([Id] DESC, b)".toList
    let table := [ascii .identifier "dbo" 12, ascii .dot "." 15, ascii .identifier "T" 16]
    let constraint := [ascii .identifier "K" 33]
    let columns : List KeyColumn :=
      [⟨ascii .bracketed "[Id]" 58, some (ascii .identifier "DESC" 63), rfl, by simp; decide⟩,
        ⟨ascii .identifier "b" 69, none, rfl, by simp⟩]
    AddsKey table constraint columns ts ∧
      (addPrimaryKey? .postgres ts).map Prod.fst =
        some (.addPrimaryKey ['t'] ['k'] ["id".toList, ['b']]) ∧
      Name.list? (tokenize (keyList ["id".toList, ['b']])) = some ["id".toList, ['b']] := by
  intro ts table constraint columns
  let opening := [ascii (.keyword .ALTER) "ALTER" 0, ascii (.keyword .TABLE) "TABLE" 6]
  let adding := [ascii (.keyword .ADD) "ADD" 18, ascii (.keyword .CONSTRAINT) "CONSTRAINT" 22]
  let keying := ascii (.keyword .PRIMARY) "PRIMARY" 35 :: ascii (.keyword .KEY) "KEY" 43 ::
    ([ascii .identifier "CLUSTERED" 47] ++ ascii .leftParen "(" 57 ::
      (([ascii .bracketed "[Id]" 58, ascii .identifier "DESC" 63] ++ ascii .comma "," 67 ::
        [ascii .identifier "b" 69]) ++ [ascii .rightParen ")" 70]))
  have hchecks : (ts = ts.take 4 ++ (table ++ ts.drop 7) ∧ significant (ts.take 4) = opening) ∧
      (ts.drop 7 = (ts.drop 7).take 5 ++ (constraint ++ ts.drop 13) ∧
        significant ((ts.drop 7).take 5) = adding) ∧
      ts.drop 13 = ts.drop 13 ++ [] ∧ significant (ts.drop 13) = keying := by decide +kernel
  obtain ⟨hopening, hadding, hkeying⟩ := hchecks
  have hadds : AddsKey table constraint columns ts :=
    .intro ⟨_, hopening⟩ ⟨_, hadding⟩ ⟨_, hkeying⟩ rfl rfl (.qualified (by decide) rfl rfl) rfl rfl
      (.plain rfl) rfl rfl (by decide) rfl (.more _ rfl (.one _)) rfl
  obtain ⟨hread, hkept⟩ := primaryKey_kept_iff .postgres hadds
  have hcolumns : nameOf table = ['t'] ∧ nameOf constraint = ['k'] ∧
      KeyColumn.kept columns = ["id".toList, ['b']] ∧
      columns.map KeyColumn.normal = ["id".toList, ['b']] := by decide +kernel
  have hbare : ∀ c ∈ columns, isDirection c.name = false ∧ Name.isUnquoted c.normal := by
    decide +kernel
  rw [hcolumns.1, hcolumns.2.1, hcolumns.2.2.1] at hread
  have hback := (hkept.mpr hbare).2
  rw [hcolumns.2.2.1, hcolumns.2.2.2] at hback
  exact ⟨hadds, hread, hback⟩

/-- A quoted column is written without its quotes, and one that is called `desc` is lost. -/
theorem primaryKey_lost :
    (addPrimaryKey? .postgres
        (tokenize "ALTER TABLE t ADD CONSTRAINT k PRIMARY KEY ([Order Id])".toList)).map Prod.fst =
        some (.addPrimaryKey ['t'] ['k'] ["order id".toList]) ∧
      (tokenize (keyList ["order id".toList])).map Token.kind =
        [.keyword .ORDER, .blank, .identifier] ∧
      (addPrimaryKey? .postgres
        (tokenize "ALTER TABLE t ADD CONSTRAINT k PRIMARY KEY ([desc], a)".toList)).map Prod.fst =
        some (.addPrimaryKey ['t'] ['k'] [['a']]) := by
  decide +kernel

end Alteration

end SqlMigration
