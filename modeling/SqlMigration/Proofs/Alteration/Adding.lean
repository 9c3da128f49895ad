import SqlMigration.Proofs.Alteration.Keys
import SqlMigration.Proofs.Alteration.Written
import SqlMigration.Proofs.Pattern.Greedy

/-! # Columns that are added

Main statement: the statement that adds columns to a table is read as just these columns, in their
order, whatever trivia stand between its tokens.
-/

namespace SqlMigration

namespace Grammar

/-- The statement that adds the columns to a table. -/
inductive AddsColumns (table : List Token) (columns : List ColumnDefinition) :
    List Token → Prop where
  | intro {ts ts₁ us semicolons : List Token} {alter tab add : Token}
      (hopening : Reads [alter, tab] ts (table ++ ts₁))
      (hadding : significant ts₁ = add :: (us ++ semicolons))
      (halter : alter.is .ALTER) (htab : tab.is .TABLE) (htable : IsName table)
      (hadd : add.is .ADD) (hcolumns : Joined ColumnDefinition.tokens columns us)
      (hsemicolons : ∀ s ∈ semicolons, s.kind = .semicolon) :
      AddsColumns table columns ts

end Grammar

open Grammar

/-! ## Lists of columns -/

namespace Pattern

variable {p : Pattern} {ts rest vs : List Token} {t : Token}

theorem captures_append_empty (c : Captures) : c ++ ({} : Captures) = c :=
  congrArg₂ Captures.mk (List.append_nil _) (List.append_nil _)

theorem matchStep_of_ne {s : Step} (hp : p.keepComments = false)
    (h : ∀ t ∈ (significant ts).head?, s.kinds.contains t.kind = false) :
    p.matchStep s ts = .error (triviaLength ts) := by
  simp only [matchStep, skips_eq hp]
  rw [← triviaLength, drop_triviaLength]
  cases hskip : skipTrivia ts with
  | nil => rfl
  | cons t rest =>
      have ht := h t (by rw [← head?_skipTrivia, hskip]; rfl)
      dsimp only
      rw [ht]
      rfl

theorem matchSteps_of_ne {s : Step} {steps : List Step} (hp : p.keepComments = false)
    (h : ∀ t ∈ (significant ts).head?, s.kinds.contains t.kind = false) :
    p.matchSteps (s :: steps) ts = .error (triviaLength ts) := by
  rw [matchSteps, matchStep_of_ne hp h]

/-- A step that accepts the first token leaves what follows it to the other steps. -/
theorem matchSteps_of_kind {k : Kind} {steps : List Step} (hp : p.keepComments = false)
    (hskip : skipTrivia ts = t :: rest) (ht : t.kind = k) :
    (∀ i, p.matchSteps steps rest = .error i →
        p.matchSteps (.kind k :: steps) ts = .error (triviaLength ts + 1 + i)) ∧
      ∀ c n, p.matchSteps steps rest = .ok (c, n) →
        p.matchSteps (.kind k :: steps) ts = .ok (c, triviaLength ts + 1 + n) := by
  have hstep : p.matchStep (.kind k) ts = .ok ({}, triviaLength ts + 1) := by
    simp only [matchStep, skips_eq hp]
    rw [← triviaLength, drop_triviaLength, hskip]
    simp [Step.kind, ht]
  have hdrop : ts.drop (triviaLength ts + 1) = rest := drop_of_skipTrivia hskip 0
  rw [matchSteps, hstep]
  dsimp only
  rw [hdrop]
  refine ⟨fun i hi => ?_, fun c n hn => ?_⟩
  · rw [hi]
  · rw [hn]
    rfl

theorem matchSteps_single_of_ok {s : Step} {c : Captures} {n : Nat}
    (h : p.matchStep s ts = .ok (c, n)) : p.matchSteps [s] ts = .ok (c, n) := by
  rw [matchSteps, h]
  exact congrArg (fun c => Except.ok (c, n)) (captures_append_empty c)

theorem matchStep_column (hp : p.keepComments = false) (hskip : skipTrivia ts = t :: rest)
    (ht : t.kind.isIdentifier) :
    p.matchStep .column ts = .ok ({ columns := [(Column.define p.dialect t rest).1] },
      triviaLength ts + 1 + (Column.define p.dialect t rest).2) := by
  simp only [matchStep, skips_eq hp]
  rw [← triviaLength, drop_triviaLength, hskip]
  exact if_pos ht

theorem matchStep_written (hp : p.keepComments = false) (col : ColumnDefinition)
    (hts : significant ts = col.tokens ++ vs) (hvs : Column.Stops vs) :
    ∃ n, p.matchStep .column ts = .ok ({ columns := [col.column p.dialect] }, n) ∧
      significant (ts.drop n) = vs := by
  rw [ColumnDefinition.tokens, List.cons_append, List.append_assoc] at hts
  obtain ⟨rest, hskip, hrest⟩ := exists_skipTrivia hts
  obtain ⟨hvalue, hdrop⟩ := Column.define_written p.dialect col hrest hvs
  refine ⟨_, by rw [matchStep_column hp hskip col.isIdentifier, hvalue], ?_⟩
  rw [drop_of_skipTrivia hskip, hdrop]

/-- Steps that follow others match what those leave. -/
theorem matchSteps_followed {front back : List Step} {c : Captures} {n : Nat}
    (h : p.matchSteps front ts = .ok (c, n)) :
    (∀ i, p.matchSteps back (ts.drop n) = .error i →
        p.matchSteps (front ++ back) ts = .error (n + i)) ∧
      ∀ c' m, p.matchSteps back (ts.drop n) = .ok (c', m) →
        p.matchSteps (front ++ back) ts = .ok (c ++ c', n + m) := by
  induction front generalizing ts c n with
  | nil =>
      cases h
      refine ⟨fun i hi => ?_, fun c' m hm => ?_⟩
      · rw [List.nil_append, Nat.zero_add]
        exact hi
      · rw [List.nil_append, Nat.zero_add]
        exact hm
  | cons s front ih =>
      rw [matchSteps] at h
      rw [List.cons_append, matchSteps]
      cases hstep : p.matchStep s ts with
      | error i =>
          rw [hstep] at h
          cases h
      | ok r =>
          obtain ⟨c₁, n₁⟩ := r
          rw [hstep] at h
          dsimp only at h ⊢
          cases hfront : p.matchSteps front (ts.drop n₁) with
          | error i =>
              rw [hfront] at h
              cases h
          | ok r =>
              obtain ⟨c₂, n₂⟩ := r
              rw [hfront] at h
              cases h
              obtain ⟨herror, hok⟩ := ih hfront
              rw [List.drop_drop] at herror hok
              refine ⟨fun i hi => ?_, fun c' m hm => ?_⟩
              · rw [herror i hi, Nat.add_assoc]
              · rw [hok c' m hm, Nat.add_assoc, captures_append_assoc]

/-- The columns are captured one after the other, and the repetitions end with the last. -/
theorem matchTail_written {columns : List ColumnDefinition} {us : List Token}
    (hp : p.keepComments = false) (htail : p.tail = Alteration.moreSteps)
    (h : Joined ColumnDefinition.tokens columns us) (hts : significant ts = us ++ vs)
    (hvs : ∀ t ∈ vs.head?, t.kind = .semicolon) :
    ∃ c n, p.matchStep .column ts = .ok (c, n) ∧
      c ++ (p.matchTail (ts.drop n)).1 =
        { columns := columns.map (ColumnDefinition.column p.dialect) } ∧
      significant ((ts.drop n).drop (p.matchTail (ts.drop n)).2) = vs := by
  induction h generalizing ts with
  | one col =>
      obtain ⟨n, hstep, hrest⟩ := matchStep_written hp col hts fun t ht => .inr (hvs t ht)
      have hend : p.matchSteps p.tail (ts.drop n) = .error (triviaLength (ts.drop n)) := by
        rw [htail, Alteration.moreSteps]
        refine matchSteps_of_ne hp ?_
        rw [hrest]
        intro t ht
        rw [hvs t ht]
        rfl
      refine ⟨_, n, hstep, ?_, ?_⟩
      · rw [matchTail_of_error hend]
        rfl
      · rw [matchTail_of_error hend]
        exact hrest
  | @more cols us comma col hcomma h ih =>
      rw [List.append_assoc, List.cons_append] at hts
      obtain ⟨n, hstep, hrest⟩ := matchStep_written hp col hts (by
        rintro t ht
        cases ht
        exact .inl hcomma)
      obtain ⟨after, hskip, hafter⟩ := exists_skipTrivia hrest
      obtain ⟨c, m, hcolumn, hcaptures, hleft⟩ := ih hafter
      have hsteps : p.matchSteps p.tail (ts.drop n) =
          .ok (c, triviaLength (ts.drop n) + 1 + m) := by
        rw [htail, Alteration.moreSteps]
        exact (matchSteps_of_kind hp hskip hcomma).2 c m (matchSteps_single_of_ok hcolumn)
      rw [← drop_of_skipTrivia hskip m] at hcaptures hleft
      refine ⟨_, n, hstep, ?_, ?_⟩
      · rw [matchTail_of_ok hsteps (by omega), hcaptures]
        rfl
      · rw [matchTail_of_ok hsteps (by omega), ← List.drop_drop, hleft]

end Pattern

namespace Alteration

variable {table ts : List Token} {columns : List ColumnDefinition}

section
variable {d : Dialect} {steps tail : List Step} {name : Text} {rest : List Token}

theorem run?_eq_none_of_captured {i : Nat}
    (h : (pattern d steps tail).Captured opening ts [name] rest)
    (hsteps : (pattern d steps tail).matchSteps steps rest = .error i) :
    (pattern d steps tail).run? ts = none := by
  obtain ⟨n, hopening, hdrop⟩ := h
  rw [← hdrop] at hsteps
  exact Pattern.run?_of_error ((Pattern.matchSteps_followed hopening).1 i hsteps)

theorem run?_eq_some_of_captured {c c' : Captures} {m k : Nat}
    (h : (pattern d steps tail).Captured opening ts [name] rest)
    (hsteps : (pattern d steps tail).matchSteps steps rest = .ok (c, m))
    (htail : (pattern d steps tail).matchTail (rest.drop m) = (c', k)) :
    ∃ n, (pattern d steps tail).run? ts = some (⟨[name], []⟩ ++ (c ++ c'), n) ∧
      ts.drop n = (rest.drop m).drop k := by
  obtain ⟨n, hopening, hdrop⟩ := h
  have hne : (pattern d steps tail).steps ≠ [] := by simp [pattern, opening]
  rw [← hdrop] at hsteps
  have hall := (Pattern.matchSteps_followed hopening).2 c m hsteps
  have hafter : ts.drop (n + m) = rest.drop m := by rw [← List.drop_drop, hdrop]
  refine ⟨n + m + k, ?_, by rw [← List.drop_drop, hafter]⟩
  rw [Pattern.run?_of_ok hne hall, hafter, htail, Pattern.captures_append_assoc]

end

section
variable {d : Dialect} {ts₁ us semicolons : List Token} {alter tab add : Token}

theorem captured_opening (d : Dialect) (steps tail : List Step)
    (hopening : Reads [alter, tab] ts (table ++ ts₁)) (hadding : significant ts₁ = add :: us)
    (halter : alter.is .ALTER) (htab : tab.is .TABLE) (htable : IsName table)
    (hadd : add.is .ADD) :
    (pattern d steps tail).Captured opening ts [nameOf table] ts₁ := by
  obtain ⟨r₁, hskip₁, hr₁⟩ := hopening.of_cons
  obtain ⟨r₂, hskip₂, hr₂⟩ := hr₁.of_cons
  have hdot : add.kind ≠ .dot := by
    rw [kind_of_is hadd]
    exact Kind.noConfusion
  have hread : Reads (add :: us) ts₁ [] := ⟨ts₁, (List.append_nil ts₁).symm, hadding⟩
  exact .keyword rfl hskip₁ halter <| .keyword rfl hskip₂ htab <|
    .named rfl hr₂ htable (hread.kind_head_ne hdot rfl) .nil

theorem exists_head_joined (h : Joined ColumnDefinition.tokens columns us) :
    ∃ t us', us = t :: us' ∧ t.kind.isIdentifier := by
  cases h with
  | one col => exact ⟨_, _, rfl, col.isIdentifier⟩
  | more col hcomma h => exact ⟨_, _, rfl, col.isIdentifier⟩

/-- A name after `ADD` does not start a constraint. -/
theorem matchSteps_keySteps_error {p : Pattern} (hp : p.keepComments = false)
    (hadding : significant ts₁ = add :: (us ++ semicolons)) (hadd : add.is .ADD)
    (hcolumns : Joined ColumnDefinition.tokens columns us) :
    ∃ i, p.matchSteps keySteps ts₁ = .error i := by
  obtain ⟨after, hskip, hafter⟩ := exists_skipTrivia hadding
  obtain ⟨t, us', rfl, ht⟩ := exists_head_joined hcolumns
  refine ⟨_, (Pattern.matchSteps_of_kind hp hskip (kind_of_is hadd)).1 _
    (Pattern.matchSteps_of_ne hp ?_)⟩
  rw [hafter]
  rintro u hu
  cases hu
  simpa [Step.keyword, Step.kind] using kind_ne_of_isIdentifier ht rfl

/-- Nor does it drop one. -/
theorem matchSteps_dropSteps_error {p : Pattern} (hp : p.keepComments = false)
    (hadding : significant ts₁ = add :: us) (hadd : add.is .ADD) :
    ∃ i, p.matchSteps dropSteps ts₁ = .error i := by
  refine ⟨_, Pattern.matchSteps_of_ne hp ?_⟩
  rw [hadding]
  rintro u hu
  cases hu
  rw [kind_of_is hadd]
  rfl

theorem addColumns?_written (hadding : significant ts₁ = add :: (us ++ semicolons))
    (hadd : add.is .ADD) (hcolumns : Joined ColumnDefinition.tokens columns us)
    (hsemicolons : ∀ s ∈ semicolons, s.kind = .semicolon) {name : Text}
    (h : (pattern d addSteps moreSteps).Captured opening ts [name] ts₁) :
    ∃ n, addColumns? d ts = some (.addColumns name (columns.map (ColumnDefinition.column d)), n) ∧
      significant (ts.drop n) = semicolons := by
  obtain ⟨after, hskip, hafter⟩ := exists_skipTrivia hadding
  have hstop : ∀ t ∈ semicolons.head?, t.kind = .semicolon :=
    fun t ht => hsemicolons t (List.mem_of_head? ht)
  obtain ⟨c, m, hcolumn, hcaptures, hleft⟩ := Pattern.matchTail_written
    (p := pattern d addSteps moreSteps) rfl rfl hcolumns hafter hstop
  have hsteps := (Pattern.matchSteps_of_kind (k := .keyword .ADD) rfl hskip (kind_of_is hadd)).2 c m
    (Pattern.matchSteps_single_of_ok hcolumn)
  obtain ⟨n, hrun, hrest⟩ := run?_eq_some_of_captured h hsteps rfl
  rw [drop_of_skipTrivia hskip] at hrun hrest
  rw [hcaptures] at hrun
  refine ⟨n, ?_, hrest ▸ hleft⟩
  rw [addColumns?, hrun]
  rfl

end

/-- The statement that adds columns is read as it is written. The arguments of a type are the texts
between its commas, and a default is recorded as it is spelled. -/
theorem ofStatement?_addsColumns (d : Dialect) (h : AddsColumns table columns ts) :
    ofStatement? d ts =
        some (.addColumns (nameOf table) (columns.map (ColumnDefinition.column d))) ∧
      (∀ col ∈ columns, ∀ args, col.type.HasArguments args →
        col.type.argumentTexts =
          (args.map fun a => (joinText (significant a)).trim).filter fun s => !s.isEmpty) ∧
      ∀ col ∈ columns, ∀ v ∈ col.clauses.filterMap Clause.value?,
        v.ParensSpelled → v.text = v.spelling := by
  refine ⟨?_, fun col _ args hargs => TypeName.argumentTexts_eq hargs,
    fun col _ v _ hv => Value.text_eq_spelling hv⟩
  obtain ⟨hopening, hadding, halter, htab, htable, hadd, hcolumns, hsemicolons⟩ := h
  have hcaptured (steps tail : List Step) :=
    captured_opening d steps tail hopening hadding halter htab htable hadd
  have hkey : addPrimaryKey? d ts = none := by
    obtain ⟨i, herror⟩ :=
      matchSteps_keySteps_error (p := pattern d keySteps) rfl hadding hadd hcolumns
    rw [addPrimaryKey?, run?_eq_none_of_captured (hcaptured _ _) herror]
  have hdrop : dropConstraint? d ts = none := by
    obtain ⟨i, herror⟩ := matchSteps_dropSteps_error (p := pattern d dropSteps) rfl hadding hadd
    rw [dropConstraint?, run?_eq_none_of_captured (hcaptured _ _) herror]
  obtain ⟨n, hread, hrest⟩ :=
    addColumns?_written hadding hadd hcolumns hsemicolons (hcaptured _ _)
  rw [ofStatement?, atHead?, hkey, hdrop, hread]
  exact if_pos (isTerminator_iff.mpr (hrest ▸ hsemicolons))

theorem ofStatement?_addsColumns_pair :
    let ts := tokenize ("ALTER TABLE dbo.t ADD a int NOT NULL IDENTITY(1,1) NULL,".toList ++
      " b decimal(10, 2) CONSTRAINT k DEFAULT -1 DEFAULT (f(0,1));".toList)
    let table := [ascii .identifier "dbo" 12, ascii .dot "." 15, ascii .identifier "t" 16]
    let seed := [ascii .leftParen "(" 45, ascii .integer "1" 46, ascii .comma "," 47,
      ascii .integer "1" 48, ascii .rightParen ")" 49]
    let digits := [ascii .leftParen "(" 66, ascii .integer "10" 67, ascii .comma "," 69,
      ascii .integer "2" 71, ascii .rightParen ")" 72]
    let group := [ascii .leftParen "(" 106, ascii .identifier "f" 107, ascii .leftParen "(" 108,
      ascii .integer "0" 109, ascii .comma "," 110, ascii .integer "1" 111,
      ascii .rightParen ")" 112, ascii .rightParen ")" 113]
    let value : Value := .group group (by decide)
    let a : ColumnDefinition := {
      name := ascii .identifier "a" 22
      type := ⟨ascii .identifier "int" 24, [], rfl, .inl rfl⟩
      clauses := [
        .notNull (ascii (.keyword .NOT) "NOT" 28) (ascii (.keyword .NULL) "NULL" 32) rfl rfl,
        .identity (ascii (.keyword .IDENTITY) "IDENTITY" 37) seed rfl (.inr (by decide)),
        .null (ascii (.keyword .NULL) "NULL" 51) rfl]
      isIdentifier := rfl }
    let b : ColumnDefinition := {
      name := ascii .identifier "b" 57
      type := ⟨ascii .identifier "decimal" 59, digits, rfl, .inr (by decide)⟩
      clauses := [
        .namedDefault (ascii (.keyword .CONSTRAINT) "CONSTRAINT" 74) (ascii .identifier "k" 85)
          (ascii (.keyword .DEFAULT) "DEFAULT" 87)
          (.negative (ascii .minus "-" 95) (ascii .integer "1" 96) rfl rfl) rfl rfl rfl,
        .default (ascii (.keyword .DEFAULT) "DEFAULT" 98) value rfl]
      isIdentifier := rfl }
    let args := [[ascii .integer "10" 67], [ascii .integer "2" 71]]
    AddsColumns table [a, b] ts ∧ b.type.HasArguments args ∧
      b.type.argumentTexts = ["10".toList, "2".toList] ∧
      value.ParensSpelled ∧ value.text = "f(0, 1)".toList ∧
      ofStatement? .postgres ts = some (.addColumns ['t'] [
        ⟨['a'], { dataType := "integer".toList, identity := true }⟩,
        ⟨['b'],
          { dataType := "numeric(10, 2)".toList, defaultValue := some "f(0, 1)".toList }⟩]) := by
  intro ts table seed digits group value a b args
  have hchecks : (ts = ts.take 4 ++ (table ++ ts.drop 7) ∧ significant (ts.take 4) =
        [ascii (.keyword .ALTER) "ALTER" 0, ascii (.keyword .TABLE) "TABLE" 6]) ∧
      significant (ts.drop 7) = ascii (.keyword .ADD) "ADD" 18 ::
        (a.tokens ++ ascii .comma "," 55 :: b.tokens ++ [ascii .semicolon ";" 114]) := by
    decide +kernel
  obtain ⟨hopening, hadding⟩ := hchecks
  have hadds : AddsColumns table [a, b] ts :=
    .intro ⟨_, hopening⟩ hadding rfl rfl (.qualified (by decide) rfl rfl) rfl
      (.more a rfl (.one b)) (by decide)
  have hargs : b.type.HasArguments args :=
    ⟨.more _ rfl (.one _), by decide, by decide⟩
  have hparens : value.ParensSpelled := by
    have hall : group.all (fun t => (t.kind ≠ .leftParen || t.text = ['(']) &&
        (t.kind ≠ .rightParen || t.text = [')'])) := by decide
    intro t ht
    have ht := List.all_eq_true.mp hall t ht
    simpa [imp_iff_not_or] using ht
  have hmeaning : nameOf table = ['t'] ∧ [a, b].map (ColumnDefinition.column .postgres) = [
        ⟨['a'], { dataType := "integer".toList, identity := true }⟩,
        ⟨['b'],
          { dataType := "numeric(10, 2)".toList, defaultValue := some "f(0, 1)".toList }⟩] ∧
      ((args.map fun a => (joinText (significant a)).trim).filter fun s => !s.isEmpty) =
        ["10".toList, "2".toList] ∧ value.spelling = "f(0, 1)".toList := by decide +kernel
  obtain ⟨hread, htexts, hvalues⟩ := ofStatement?_addsColumns .postgres hadds
  rw [hmeaning.1, hmeaning.2.1] at hread
  exact ⟨hadds, hargs, (htexts b (by simp) args hargs).trans hmeaning.2.2.1, hparens,
    (hvalues b (by simp) value (by simp [b, Clause.value?]) hparens).trans hmeaning.2.2.2, hread⟩

end Alteration

end SqlMigration
