import SqlMigration.Proofs.Alteration.Scan
import SqlMigration.Proofs.Text.Tagless

/-! # Columns as they are written

The definition of a column as data: a name, a type and clauses in any order, each with its tokens
and with what it means. The scan of a column finds what is meant, whatever trivia stand between the
tokens. Of several clauses about nulls, and of several defaults, the last one counts.
-/

namespace SqlMigration

namespace Grammar

/-! ## Types, values and clauses -/

/-- A type, with its arguments in parentheses or without any. -/
structure TypeName where
  name : Token
  arguments : List Token
  isIdentifier : name.kind.isIdentifier
  isGroup : arguments = [] ∨ IsGroup arguments

namespace TypeName

def tokens (t : TypeName) : List Token := t.name :: t.arguments

/-- The texts between the commas of the arguments. -/
def argumentTexts (t : TypeName) : List Text :=
  Column.argumentTexts (Column.compactText t.arguments.tail.dropLast)

/-- The type in a dialect. -/
def text (d : Dialect) (t : TypeName) : Text :=
  d.mapType (Name.trimQuotes t.name.text) t.argumentTexts

end TypeName

/-- The value of a default. -/
inductive Value where
  | group (us : List Token) (h : IsGroup us)
  | call (t : Token) (us : List Token) (ht : t.kind.isIdentifier) (h : IsGroup us)
  | negative (t n : Token) (ht : t.kind = .minus) (hn : n.kind.isNumber)
  | atom (t : Token) (ht : isAtom t.kind)

namespace Value

def tokens : Value → List Token
  | group us _ => us
  | call t us _ _ => t :: us
  | negative t n _ _ => [t, n]
  | atom t _ => [t]

/-- The text of the value, without blank space and without parentheses around it. -/
def text : Value → Text
  | group us _ => Text.stripParens (Column.compactText us)
  | call t us _ _ => Column.compactText (t :: us)
  | negative _ n _ _ => '-' :: n.text
  | atom t _ => t.text

/-- What the value is to be recorded as: the texts of its tokens, with a space after each comma. A
group loses the parentheses around it if the others in it balance without them. -/
def spelling : Value → Text
  | group us _ =>
      let inner := spacedText (significant us.tail.dropLast)
      if Text.Balanced inner then inner.trim else spacedText (significant us)
  | call t us _ _ => spacedText (significant (t :: us))
  | negative _ n _ _ => '-' :: n.text
  | atom t _ => t.text

/-- The parentheses of the value are spelled as such. -/
def ParensSpelled (v : Value) : Prop :=
  ∀ t ∈ v.tokens,
    (t.kind = .leftParen → t.text = ['(']) ∧ (t.kind = .rightParen → t.text = [')'])

theorem isValue (v : Value) : IsValue v.tokens := by
  cases v with
  | group us h => exact .group h
  | call t us ht h => exact .call ht h
  | negative t n ht hn => exact .negative ht hn
  | atom t ht => exact .atom ht

end Value

/-- A clause of a column. -/
inductive Clause where
  | notNull (t u : Token) (ht : t.is .NOT) (hu : u.is .NULL)
  | null (t : Token) (ht : t.is .NULL)
  | identity (t : Token) (seed : List Token) (ht : t.is .IDENTITY)
      (hseed : seed = [] ∨ IsGroup seed)
  | primaryKey (t u : Token) (ht : t.is .PRIMARY) (hu : u.is .KEY)
  | default (t : Token) (v : Value) (ht : t.is .DEFAULT)
  | namedDefault (c name t : Token) (v : Value) (hc : c.is .CONSTRAINT)
      (hname : name.kind.isIdentifier) (ht : t.is .DEFAULT)

namespace Clause

def tokens : Clause → List Token
  | notNull t u _ _ => [t, u]
  | null t _ => [t]
  | identity t seed _ _ => t :: seed
  | primaryKey t u _ _ => [t, u]
  | default t v _ => t :: v.tokens
  | namedDefault c name t v _ _ _ => c :: name :: t :: v.tokens

/-- What the clause says about nulls, if anything. -/
def nullable? : Clause → Option Bool
  | notNull .. => some false
  | null .. => some true
  | _ => none

def isIdentity : Clause → Bool
  | identity .. => true
  | _ => false

def isPrimaryKey : Clause → Bool
  | primaryKey .. => true
  | _ => false

/-- The default that the clause gives, if any. -/
def value? : Clause → Option Value
  | default _ v _ => some v
  | namedDefault _ _ _ v _ _ _ => some v
  | _ => none

theorem isClause (cl : Clause) : IsClause cl.tokens := by
  cases cl with
  | notNull t u ht hu => exact .notNull ht hu
  | null t ht => exact .null ht
  | identity t seed ht hseed =>
      rcases hseed with rfl | hseed
      · exact .identity ht
      · exact .identityFrom ht hseed
  | primaryKey t u ht hu => exact .primaryKey ht hu
  | default t v ht => exact .default ht v.isValue
  | namedDefault c name t v hc hname ht => exact .namedDefault hc hname ht v.isValue

end Clause

/-! ## Columns -/

/-- The definition of a column. -/
structure ColumnDefinition where
  name : Token
  type : TypeName
  clauses : List Clause
  isIdentifier : name.kind.isIdentifier

/-- The type `c` with the clauses after it. Of the clauses about nulls and of the defaults the last
one counts. -/
def withClauses (d : Dialect) (c : ColumnType) (clauses : List Clause) : ColumnType where
  dataType := c.dataType
  nullable := (clauses.filterMap Clause.nullable?).getLast?.getD c.nullable
  primaryKey := c.primaryKey || clauses.any Clause.isPrimaryKey
  identity := c.identity || clauses.any Clause.isIdentity
  defaultValue :=
    ((clauses.filterMap Clause.value?).getLast?.map fun v => d.mapDefault v.text).or c.defaultValue

namespace ColumnDefinition

def tokens (c : ColumnDefinition) : List Token :=
  c.name :: (c.type.tokens ++ c.clauses.flatMap Clause.tokens)

/-- The column in a dialect. -/
def column (d : Dialect) (c : ColumnDefinition) : Column where
  name := Name.normalize c.name.text
  type := {
    dataType := c.type.text d
    nullable := (c.clauses.filterMap Clause.nullable?).getLast? ≠ some false
    primaryKey := c.clauses.any Clause.isPrimaryKey
    identity := c.clauses.any Clause.isIdentity
    defaultValue := (c.clauses.filterMap Clause.value?).getLast?.map fun v => d.mapDefault v.text }

end ColumnDefinition

/-- The tokens of several things, with a comma between each two. -/
inductive Joined {α : Type} (tokens : α → List Token) : List α → List Token → Prop where
  | one (a : α) : Joined tokens [a] (tokens a)
  | more {as : List α} {us : List Token} {comma : Token} (a : α) (hcomma : comma.kind = .comma)
      (h : Joined tokens as us) : Joined tokens (a :: as) (tokens a ++ comma :: us)

/-- The arguments of a type, one by one, none of which has a comma in it. -/
structure TypeName.HasArguments (ty : TypeName) (args : List (List Token)) : Prop where
  joined : Joined id args ty.arguments.tail.dropLast
  comma_text : ∀ t ∈ ty.arguments, t.kind = .comma → t.text = [',']
  not_mem : ∀ a ∈ args, ∀ t ∈ a, ',' ∉ t.text

end Grammar

open Grammar

/-! ## Arguments -/

namespace Text

theorem splitOn_of_not_mem {c : Char} {s : Text} (h : c ∉ s) : splitOn c s = [s] := by
  induction s with
  | nil => rfl
  | cons d s ih =>
      rw [List.mem_cons, not_or] at h
      rw [splitOn, if_neg (Ne.symm h.1), ih h.2]

theorem splitOn_append_cons {c : Char} {s : Text} (h : c ∉ s) (r : Text) :
    splitOn c (s ++ c :: r) = s :: splitOn c r := by
  induction s with
  | nil => rw [List.nil_append, splitOn, if_pos rfl]
  | cons d s ih =>
      rw [List.mem_cons, not_or] at h
      rw [List.cons_append, splitOn, if_neg (Ne.symm h.1), ih h.2]

theorem trim_cons_space (s : Text) : trim (' ' :: s) = trim s := rfl

/-- A space at the start is lost when the parts are trimmed. -/
theorem map_trim_splitOn_space (s : Text) :
    (splitOn ',' (' ' :: s)).map trim = (splitOn ',' s).map trim := by
  rw [splitOn, if_neg (by decide)]
  cases hparts : splitOn ',' s with
  | nil => exact absurd hparts (splitOn_ne_nil ',' s)
  | cons part parts => rw [List.map_cons, List.map_cons, trim_cons_space]

end Text

namespace Column

theorem compactText_append (ts us : List Token) :
    compactText (ts ++ us) = compactText ts ++ compactText us := by
  simp only [compactText, List.filter_append, List.flatMap_append]

theorem compactText_of_no_comma {a : List Token} (h : ∀ t ∈ a, t.kind ≠ .comma) :
    compactText a = joinText (significant a) := by
  rw [compactText, joinText, significant, List.flatMap_def, List.flatMap_def]
  refine congrArg List.flatten (List.map_congr_left fun t ht => ?_)
  rw [if_neg (h t (List.mem_filter.mp ht).1)]

/-- The texts of the arguments, without blank space around them. -/
theorem argumentTexts_joined {args : List (List Token)} {inner : List Token}
    (h : Joined id args inner) (hcomma : ∀ t ∈ inner, t.kind = .comma → t.text = [','])
    (hargs : ∀ a ∈ args, ∀ t ∈ a, ',' ∉ t.text) :
    argumentTexts (compactText inner) =
      (args.map fun a => (joinText (significant a)).trim).filter fun s => !s.isEmpty := by
  have hkind {a : List Token} (hin : ∀ t ∈ a, t.kind = .comma → t.text = [','])
      (ha : ∀ t ∈ a, ',' ∉ t.text) : ∀ t ∈ a, t.kind ≠ .comma := by
    intro t ht hkind
    refine ha t ht ?_
    rw [hin t ht hkind]
    exact List.mem_singleton.mpr rfl
  have htext {a : List Token} (ha : ∀ t ∈ a, ',' ∉ t.text) : ',' ∉ joinText (significant a) := by
    intro hmem
    obtain ⟨t, ht, hmem⟩ := List.mem_flatMap.mp hmem
    exact ha t (List.mem_filter.mp ht).1 hmem
  rw [argumentTexts]
  refine congrArg (List.filter _) ?_
  induction h with
  | one a =>
      have ha := hargs a List.mem_cons_self
      rw [id, compactText_of_no_comma (a := a) (hkind hcomma ha),
        Text.splitOn_of_not_mem (htext ha)]
      rfl
  | @more args us comma a hc h ih =>
      obtain ⟨ha, hargs⟩ := List.forall_mem_cons.mp hargs
      obtain ⟨hfront, hback⟩ := List.forall_mem_append.mp hcomma
      obtain ⟨hhere, hback⟩ := List.forall_mem_cons.mp hback
      have hseparator : compactText (comma :: us) = ',' :: ' ' :: compactText us := by
        simp [compactText, isTrivia_of_kind hc rfl, hc, hhere hc]
      rw [id, compactText_append, compactText_of_no_comma (a := a) (hkind hfront ha), hseparator,
        Text.splitOn_append_cons (htext ha), List.map_cons, Text.map_trim_splitOn_space,
        ih hback hargs, List.map_cons]

end Column

theorem Grammar.TypeName.argumentTexts_eq {ty : TypeName} {args : List (List Token)}
    (h : ty.HasArguments args) :
    ty.argumentTexts =
      (args.map fun a => (joinText (significant a)).trim).filter fun s => !s.isEmpty :=
  Column.argumentTexts_joined h.joined
    (fun t ht => h.comma_text t (List.mem_of_mem_tail (List.dropLast_subset _ ht))) h.not_mem

/-! ## Values -/

/-- The text of a group, where only trivia and the balance of its parentheses matter. -/
theorem Column.stripParens_group {l r : Token} {inner : List Token} (hl : l.kind = .leftParen)
    (hr : r.kind = .rightParen) (hopen : l.text = ['(']) (hclose : r.text = [')']) :
    Text.stripParens (compactText (l :: (inner ++ [r]))) =
      if Text.Balanced (spacedText (significant inner)) then (spacedText (significant inner)).trim
      else spacedText (significant (l :: (inner ++ [r]))) := by
  have hwhole := compactText_between inner hl hr hopen hclose
  have hbalanced : Text.balancedFrom 0 false (compactText inner) =
      Text.balancedFrom 0 false (spacedText (significant inner)) := by
    rw [compactText_eq_spacedText, lastSpace]
    split
    · exact Text.balancedFrom_append_space 0 false _
    · rw [List.append_nil]
  rw [hwhole, Text.stripParens_between, ← hwhole, hbalanced, trim_compactText, ← List.cons_append,
    compactText_concat _ hr]
  simp only [Text.balanced_iff]

/-- A value is recorded as it is spelled. -/
theorem Grammar.Value.text_eq_spelling {v : Value} (h : v.ParensSpelled) : v.text = v.spelling := by
  cases v with
  | group us hus =>
      obtain ⟨l, inner, r, rfl, hl, hr⟩ := hus.exists_between
      have hopen : l.text = ['('] := (h l List.mem_cons_self).1 hl
      have hclose : r.text = [')'] := (h r (by simp [tokens])).2 hr
      simp only [text, spelling, List.tail_cons, List.dropLast_concat]
      exact Column.stripParens_group hl hr hopen hclose
  | call t us ht hus =>
      obtain ⟨l, inner, r, rfl, -, hr⟩ := hus.exists_between
      rw [text, spelling, ← List.cons_append, ← List.cons_append, Column.compactText_concat _ hr]
  | negative t n ht hn => rfl
  | atom t ht => rfl

/-! ## Reading types, values and clauses -/

namespace Column

variable {d : Dialect} {ts vs : List Token}

/-- The inside of a group, up to trivia. -/
theorem significant_take_group {u : Token} {inner rest : List Token} {r : Token}
    (hu : u.kind = .leftParen) (hclose : closes (u :: rest))
    (hrest : significant rest = inner ++ r :: vs)
    (hdrop : significant (rest.drop (groupEnd (u :: rest))) = vs) :
    significant (rest.take (groupEnd (u :: rest) - 1)) = inner := by
  obtain ⟨i, hi⟩ := (closes_iff hu).mp hclose
  obtain ⟨r', after, hat, hr'⟩ := kind_of_closingParenFrom? hi
  obtain ⟨n, rfl⟩ : ∃ n, i = n + 1 := by
    cases i with
    | zero =>
        obtain ⟨rfl, -⟩ := List.cons.inj hat
        rw [hu] at hr'
        cases hr'
    | succ n => exact ⟨n, rfl⟩
  rw [groupEnd_of_closingParen? hi] at hdrop ⊢
  rw [List.drop_succ_cons] at hat
  have hafter : significant after = vs := by
    rw [← hdrop, ← List.drop_drop, hat, List.drop_one, List.tail_cons]
  have hsplit : significant rest = significant (rest.take n) ++ r' :: vs := by
    rw [← hafter, ← significant_cons (isTrivia_of_kind hr' rfl), ← hat, ← significant_append,
      List.take_append_drop]
  rw [hrest] at hsplit
  exact (List.append_inj' hsplit rfl).1.symm

theorem dataType_written (ty : TypeName) (hts : significant ts = ty.arguments ++ vs)
    (hvs : NoGroup vs) :
    (dataType d ty.name ts).1 = ty.text d ∧
      significant (ts.drop (dataType d ty.name ts).2) = vs := by
  rw [TypeName.text, TypeName.argumentTexts]
  rcases ty.isGroup with hnone | hgroup
  · rw [hnone] at hts
    have hopen : NoGroup (skipTrivia ts) := by rwa [NoGroup, head?_skipTrivia, hts]
    rw [fst_dataType_of_noGroup hopen, drop_dataType_of_noGroup hopen, hnone]
    exact ⟨rfl, hts⟩
  · obtain ⟨u, rest, hskip, hu, hclose, hdrop⟩ := closes_of_isGroup hgroup hts
    obtain ⟨l, inner, r, harguments, -, -⟩ := hgroup.exists_between
    rw [significant_of_skipTrivia hskip, harguments, List.cons_append, List.append_assoc] at hts
    have hinside := significant_take_group hu hclose (List.cons.inj hts).2 hdrop
    rw [fst_dataType_group hskip hu, drop_dataType_group hskip hu, harguments, List.tail_cons,
      List.dropLast_concat, compactText_eq (rest.take _), hinside]
    exact ⟨rfl, hdrop⟩

/-- A default is taken in whole. -/
theorem defaultValue_written (v : Value) (hts : significant ts = v.tokens ++ vs)
    (hvs : NoGroup vs) :
    defaultOf ts = v.text ∧
      significant ((skipTrivia ts).drop (defaultValue (skipTrivia ts)).2) = vs := by
  obtain ⟨t, rest, hskip, -, hdrop⟩ := readsValue_of_isValue v.isValue hts hvs
  rw [← hskip] at hdrop
  refine ⟨?_, hdrop⟩
  cases v with
  | group us h => exact defaultOf_group h hts
  | call t us ht h => exact defaultOf_call ht h hts
  | negative t n ht hn =>
      obtain ⟨rest, hskip, hrest⟩ := exists_skipTrivia hts
      obtain ⟨more, hnext, -⟩ := exists_skipTrivia hrest
      rw [defaultOf, hskip, fst_defaultValue_negative ht hnext hn]
      rfl
  | atom t ht =>
      obtain ⟨rest, hskip, hrest⟩ := exists_skipTrivia hts
      obtain ⟨hleft, hminus⟩ := ne_leftParen_of_isAtom ht
      rw [defaultOf, hskip, fst_defaultValue_single hleft]
      · rfl
      · intro u hu
        rw [head?_skipTrivia, hrest] at hu
        simp [hvs u hu, hminus]

end Column

namespace Grammar

/-- The type `c` with one clause more. -/
def Clause.apply (d : Dialect) (cl : Clause) (c : ColumnType) : ColumnType where
  dataType := c.dataType
  nullable := cl.nullable?.getD c.nullable
  primaryKey := c.primaryKey || cl.isPrimaryKey
  identity := c.identity || cl.isIdentity
  defaultValue := (cl.value?.map fun v => d.mapDefault v.text).or c.defaultValue

section
variable {d : Dialect} {c : ColumnType} {t u : Token}

@[simp] theorem Clause.apply_notNull (ht : t.is .NOT) (hu : u.is .NULL) :
    (notNull t u ht hu).apply d c = { c with nullable := false } := by
  simp [apply, nullable?, isPrimaryKey, isIdentity, value?]

@[simp] theorem Clause.apply_null (ht : t.is .NULL) :
    (null t ht).apply d c = { c with nullable := true } := by
  simp [apply, nullable?, isPrimaryKey, isIdentity, value?]

@[simp] theorem Clause.apply_identity {seed : List Token} (ht : t.is .IDENTITY)
    (hseed : seed = [] ∨ IsGroup seed) :
    (identity t seed ht hseed).apply d c = { c with identity := true } := by
  simp [apply, nullable?, isPrimaryKey, isIdentity, value?]

@[simp] theorem Clause.apply_primaryKey (ht : t.is .PRIMARY) (hu : u.is .KEY) :
    (primaryKey t u ht hu).apply d c = { c with primaryKey := true } := by
  simp [apply, nullable?, isPrimaryKey, isIdentity, value?]

@[simp] theorem Clause.apply_default (v : Value) (ht : t.is .DEFAULT) :
    (default t v ht).apply d c = { c with defaultValue := some (d.mapDefault v.text) } := by
  simp [apply, nullable?, isPrimaryKey, isIdentity, value?]

@[simp] theorem Clause.apply_namedDefault {k : Token} (v : Value) (hk : k.is .CONSTRAINT)
    (hu : u.kind.isIdentifier) (ht : t.is .DEFAULT) :
    (namedDefault k u t v hk hu ht).apply d c =
      { c with defaultValue := some (d.mapDefault v.text) } := by
  simp [apply, nullable?, isPrimaryKey, isIdentity, value?]

end

theorem getLast?_filterMap_cons {α β : Type} (f : α → Option β) (a : α) (as : List α) :
    ((a :: as).filterMap f).getLast? = (as.filterMap f).getLast?.or (f a) := by
  cases h : f a with
  | none => simp [h]
  | some b => cases hlast : (as.filterMap f).getLast? <;> simp [h, List.getLast?_cons, hlast]

theorem withClauses_nil (d : Dialect) (c : ColumnType) : withClauses d c [] = c := by
  simp [withClauses]

theorem withClauses_cons (d : Dialect) (c : ColumnType) (cl : Clause) (clauses : List Clause) :
    withClauses d c (cl :: clauses) = withClauses d (cl.apply d c) clauses := by
  simp only [withClauses, Clause.apply, getLast?_filterMap_cons, List.any_cons, Bool.or_assoc,
    ColumnType.mk.injEq, true_and]
  constructor
  · cases (clauses.filterMap Clause.nullable?).getLast? <;> rfl
  · cases (clauses.filterMap Clause.value?).getLast? <;> rfl

theorem ColumnDefinition.column_eq (d : Dialect) (col : ColumnDefinition) :
    col.column d = ⟨Name.normalize col.name.text,
      withClauses d { dataType := col.type.text d } col.clauses⟩ := by
  have hnullable (o : Option Bool) : decide (o ≠ some false) = o.getD true := by
    rcases o with _ | _ | _ <;> rfl
  simp only [column, withClauses, hnullable, Bool.false_or, Option.or_none]

end Grammar

namespace Column

variable {d : Dialect} {ts vs : List Token}

theorem continues_of_option? {c c' : ColumnType} {t : Token} {after rest : List Token} {n : Nat}
    (hskip : skipTrivia ts = t :: after) (h : option? d c t after = some (c', n))
    (hdrop : after.drop n = rest) : Continues d c ts c' rest :=
  hdrop ▸ options_of_some hskip h

theorem continues_default {c : ColumnType} {t : Token} (v : Value) (ht : t.is .DEFAULT)
    (hts : significant ts = t :: v.tokens ++ vs) (hvs : NoGroup vs) :
    ∃ rest, significant rest = vs ∧
      Continues d c ts { c with defaultValue := some (d.mapDefault v.text) } rest := by
  obtain ⟨after, hskip, hafter⟩ := exists_skipTrivia hts
  obtain ⟨hvalue, hrest⟩ := defaultValue_written v hafter hvs
  rw [← hvalue]
  refine ⟨_, hrest, continues_of_option? hskip (option?_default ht) ?_⟩
  rw [← List.drop_drop, drop_triviaLength]

/-- One clause is taken in, and the options go on behind it. -/
theorem continues_clause (d : Dialect) (cl : Clause) (c : ColumnType)
    (hts : significant ts = cl.tokens ++ vs) (hvs : NoGroup vs) :
    ∃ rest, significant rest = vs ∧ Continues d c ts (cl.apply d c) rest := by
  cases cl with
  | notNull t u ht hu =>
      obtain ⟨after, hskip, hafter⟩ := exists_skipTrivia hts
      obtain ⟨rest, hnext, hrest⟩ := exists_skipTrivia hafter
      have hnull : comesNext .NULL after := comesNext_iff.mpr ⟨u, rest, hnext, hu⟩
      refine ⟨rest, hrest, continues_of_option? hskip ?_ (drop_of_skipTrivia hnext 0)⟩
      simp only [option?, kind_of_is ht, hnull, if_true, Clause.apply_notNull]
  | null t ht =>
      obtain ⟨rest, hskip, hrest⟩ := exists_skipTrivia hts
      refine ⟨rest, hrest, continues_of_option? (n := 0) hskip ?_ rfl⟩
      simp only [option?, kind_of_is ht, Clause.apply_null]
  | identity t seed ht hseed =>
      obtain ⟨after, hskip, hafter⟩ := exists_skipTrivia hts
      rw [Clause.apply_identity]
      rcases hseed with rfl | hseed
      · have hopen : NoGroup (skipTrivia after) := by rwa [NoGroup, head?_skipTrivia, hafter]
        exact ⟨after, hafter, continues_of_option? hskip (option?_identity ht hopen) rfl⟩
      · obtain ⟨u, rest, hnext, hu, -, hrest⟩ := closes_of_isGroup hseed hafter
        exact ⟨_, hrest, continues_of_option? hskip (option?_identityFrom ht hnext hu)
          (drop_of_skipTrivia hnext _)⟩
  | primaryKey t u ht hu =>
      obtain ⟨after, hskip, hafter⟩ := exists_skipTrivia hts
      obtain ⟨rest, hnext, hrest⟩ := exists_skipTrivia hafter
      have hkey : comesNext .KEY after := comesNext_iff.mpr ⟨u, rest, hnext, hu⟩
      refine ⟨rest, hrest, continues_of_option? hskip ?_ (drop_of_skipTrivia hnext 0)⟩
      simp only [option?, kind_of_is ht, hkey, if_true, Clause.apply_primaryKey]
  | default t v ht =>
      rw [Clause.apply_default]
      exact continues_default v ht hts hvs
  | namedDefault k name t v hk hname ht =>
      obtain ⟨after, hskip, hafter⟩ := exists_skipTrivia hts
      obtain ⟨rest, hnext, hrest⟩ := exists_skipTrivia hafter
      have hoption : option? d c k after = some (c, triviaLength after + 1) := by
        simp only [option?, kind_of_is hk]
      obtain ⟨rest', hrest', hdefault⟩ := continues_default (c := c) v ht hrest hvs
      rw [Clause.apply_namedDefault]
      exact ⟨rest', hrest',
        (continues_of_option? hskip hoption (drop_of_skipTrivia hnext 0)).trans hdefault⟩

theorem noGroup_flatMap_clauses (clauses : List Clause) (hvs : Stops vs) :
    NoGroup (clauses.flatMap Clause.tokens ++ vs) := by
  cases clauses with
  | nil => exact noGroup_of_stops hvs
  | cons cl clauses =>
      rw [List.flatMap_cons, List.append_assoc]
      exact noGroup_of_isClause cl.isClause _

/-- All clauses are taken in, in any order. -/
theorem options_written (d : Dialect) (clauses : List Clause) (c : ColumnType)
    (hts : significant ts = clauses.flatMap Clause.tokens ++ vs) (hvs : Stops vs) :
    (options d c ts).1 = withClauses d c clauses ∧
      significant (ts.drop (options d c ts).2) = vs := by
  induction clauses generalizing c ts with
  | nil =>
      have hstop : Stops (significant ts) := by rwa [hts]
      have hnone (t : Token) (rest : List Token) (hskip : skipTrivia ts = t :: rest) :
          option? d c t rest = none := option?_eq_none_of_stops hstop hskip c
      rw [withClauses_nil, drop_options_of_none hnone, hts]
      refine ⟨?_, rfl⟩
      cases hskip : skipTrivia ts with
      | nil => rw [options_of_skipTrivia_eq_nil hskip]
      | cons t rest => rw [options_of_none hskip (hnone t rest hskip)]
  | cons cl clauses ih =>
      rw [List.flatMap_cons, List.append_assoc] at hts
      obtain ⟨rest, hrest, hvalue, hdrop⟩ :=
        continues_clause d cl c hts (noGroup_flatMap_clauses clauses hvs)
      rw [hvalue, hdrop, withClauses_cons]
      exact ih (cl.apply d c) hrest

/-- A column is read as it is written. -/
theorem define_written (d : Dialect) (col : ColumnDefinition)
    (hts : significant ts = col.type.tokens ++ (col.clauses.flatMap Clause.tokens ++ vs))
    (hvs : Stops vs) :
    (define d col.name ts).1 = col.column d ∧
      significant (ts.drop (define d col.name ts).2) = vs := by
  obtain ⟨us, hskip, hus⟩ := exists_skipTrivia hts
  obtain ⟨htype, hafter⟩ :=
    dataType_written (d := d) col.type hus (noGroup_flatMap_clauses col.clauses hvs)
  obtain ⟨hvalue, hrest⟩ := options_written d col.clauses { dataType := col.type.text d } hafter hvs
  obtain ⟨hfst, hdrop⟩ := define_of_type (d := d) (t := col.name) hskip col.type.isIdentifier
  rw [hfst, hdrop, htype, hvalue, col.column_eq]
  exact ⟨rfl, hrest⟩

end Column

end SqlMigration
