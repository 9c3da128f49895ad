import SqlMigration.Declaration
import SqlMigration.Proofs.Alteration.Keys
import SqlMigration.Proofs.Alteration.Written
import SqlMigration.Proofs.Expression.Call

/-! # Variables that are declared

A `DECLARE` as data: variables with their types and first values. Main statement: each variable is
found with its name, its type and its value, in a statement and in a row of statements. A value is
everything between the equals sign and the comma or semicolon after it, trivia included.
-/

namespace SqlMigration

namespace Grammar

/-! ## Values -/

/-- Tokens with matching parentheses. -/
inductive Matched : List Token → Prop where
  | nil : Matched []
  | token {t : Token} {ts : List Token} (hleft : t.kind ≠ .leftParen)
      (hright : t.kind ≠ .rightParen) (h : Matched ts) : Matched (t :: ts)
  | group {l r : Token} {inner ts : List Token} (hl : l.kind = .leftParen)
      (hinner : Matched inner) (hr : r.kind = .rightParen) (h : Matched ts) :
      Matched (l :: (inner ++ r :: ts))

/-- Whether the token neither ends a value nor opens or closes a part of it. A keyword that opens
a statement ends a value outside a `CASE`. -/
def goesOn (inCase : Bool) (t : Token) : Bool :=
  t.kind ≠ .leftParen && t.kind ≠ .rightParen && t.kind ≠ .comma && t.kind ≠ .semicolon &&
    !t.is .CASE && !t.is .END && (inCase || !t.kind.startsStatement)

/-- The tokens of a value, or of the part of it inside a `CASE`. The two sorts of brackets are
nested: in `(CASE) SELECT END` both are balanced, but the value ends before `SELECT`. -/
inductive ValueTokens : (inCase : Bool) → List Token → Prop where
  | nil {inCase : Bool} : ValueTokens inCase []
  | token {inCase : Bool} {t : Token} {ts : List Token} (ht : goesOn inCase t)
      (h : ValueTokens inCase ts) : ValueTokens inCase (t :: ts)
  | group {inCase : Bool} {l r : Token} {inner ts : List Token} (hl : l.kind = .leftParen)
      (hinner : Matched inner) (hr : r.kind = .rightParen) (h : ValueTokens inCase ts) :
      ValueTokens inCase (l :: (inner ++ r :: ts))
  | case {inCase : Bool} {c e : Token} {inner ts : List Token} (hc : c.is .CASE)
      (hinner : ValueTokens true inner) (he : e.is .END) (h : ValueTokens inCase ts) :
      ValueTokens inCase (c :: (inner ++ e :: ts))

/-! ## Declarations -/

/-- A variable with its type and perhaps an equals sign and a value. -/
structure VariableDefinition where
  name : Token
  asToken : Option Token
  type : TypeName
  value : Option (Token × List Token)
  isVariable : name.kind = .variable
  isAs : ∀ t ∈ asToken, t.is .AS
  isEquals : ∀ p ∈ value, p.1.kind = .eq
  isValue : ∀ p ∈ value, ValueTokens false p.2

namespace VariableDefinition

/-- The tokens of the name and the type. -/
def front (v : VariableDefinition) : List Token :=
  v.name :: (v.asToken.toList ++ v.type.tokens)

/-- The equals sign and the value. -/
def assignment (v : VariableDefinition) : List Token := v.value.elim [] fun p => p.1 :: p.2

theorem assignment_of_none {v : VariableDefinition} (h : v.value = none) : v.assignment = [] := by
  rw [assignment, h]
  rfl

theorem assignment_of_some {v : VariableDefinition} {p : Token × List Token}
    (h : v.value = some p) : v.assignment = p.1 :: p.2 := by
  rw [assignment, h]
  rfl

/-- The declaration in a dialect. -/
def declaration (d : Dialect) (v : VariableDefinition) : Declaration where
  declared := ⟨Name.ofVariable v.name.text, v.type.text d⟩
  value := v.value.map fun p => (Expression.emit p.2).trim

/-- The variable is declared at the head of `ts`, and `rest` follows. -/
def Declares (v : VariableDefinition) (ts rest : List Token) : Prop :=
  Reads v.front ts (v.assignment ++ rest)

end VariableDefinition

/-- The variables are declared at the head of `ts`, with commas between them, and `rest` follows. -/
inductive DeclareList : List VariableDefinition → List Token → List Token → Prop where
  | one {v : VariableDefinition} {ts rest : List Token} (h : v.Declares ts rest)
      (hrest : ∀ t ∈ rest.head?, t.kind = .semicolon) : DeclareList [v] ts rest
  | more {v : VariableDefinition} {vs : List VariableDefinition} {comma : Token}
      {ts ts' rest : List Token} (h : v.Declares ts (comma :: ts')) (hcomma : comma.kind = .comma)
      (hs : DeclareList vs ts' rest) : DeclareList (v :: vs) ts rest

/-- Statements that declare variables, with trivia between them. All but the last end with a
semicolon. -/
inductive DeclareStream : List (List VariableDefinition) → List Token → Prop where
  | nil {gap : List Token} (hgap : ∀ t ∈ gap, t.isTrivia) : DeclareStream [] gap
  | last {vs : List VariableDefinition} {gap ts : List Token} {declare : Token}
      (hgap : ∀ t ∈ gap, t.isTrivia) (hdeclare : declare.is .DECLARE) (h : DeclareList vs ts []) :
      DeclareStream [vs] (gap ++ declare :: ts)
  | cons {vs : List VariableDefinition} {vss : List (List VariableDefinition)}
      {gap ts rest : List Token} {declare semicolon : Token} (hgap : ∀ t ∈ gap, t.isTrivia)
      (hdeclare : declare.is .DECLARE) (h : DeclareList vs ts (semicolon :: rest))
      (hsemicolon : semicolon.kind = .semicolon) (hs : DeclareStream vss rest) :
      DeclareStream (vs :: vss) (gap ++ declare :: ts)

end Grammar

open Grammar
open Alteration (ascii)

/-! ## Where values end -/

namespace Declaration

variable {d : Dialect} {ts vs rest inner init : List Token} {t : Token} {depth cases : Nat}

theorem valueLength_left (ht : t.kind = .leftParen) (ts : List Token) :
    valueLength depth cases (t :: ts) = valueLength (depth + 1) cases ts + 1 := by
  rw [valueLength, ht]

theorem valueLength_right (ht : t.kind = .rightParen) (ts : List Token) :
    valueLength (depth + 1) cases (t :: ts) = valueLength depth cases ts + 1 := by
  rw [valueLength, ht]
  rfl

theorem valueLength_inside (hleft : t.kind ≠ .leftParen) (hright : t.kind ≠ .rightParen)
    (ts : List Token) :
    valueLength (depth + 1) cases (t :: ts) = valueLength (depth + 1) cases ts + 1 := by
  rw [valueLength]
  split <;> simp_all

/-- Within parentheses nothing ends a value. -/
theorem valueLength_matched (h : Matched inner) (depth cases : Nat) (rest : List Token) :
    valueLength (depth + 1) cases (inner ++ rest) =
      inner.length + valueLength (depth + 1) cases rest := by
  induction h generalizing depth rest with
  | nil => rw [List.nil_append, List.length_nil, Nat.zero_add]
  | token hleft hright h ih =>
      rw [List.cons_append, valueLength_inside hleft hright, ih, List.length_cons]
      omega
  | group hl hinner hr h ih ih' =>
      rw [List.cons_append, List.append_assoc, List.cons_append, valueLength_left hl, ih,
        valueLength_right hr, ih', List.length_cons, List.length_append, List.length_cons]
      omega

theorem valueLength_goesOn {inCase : Bool} (ht : goesOn inCase t)
    (hcases : inCase = true → cases ≠ 0) (ts : List Token) :
    valueLength 0 cases (t :: ts) = valueLength 0 cases ts + 1 := by
  rw [valueLength]
  split <;> cases inCase <;> simp_all [goesOn, Token.is, Kind.startsStatement]

theorem valueLength_case (ht : t.is .CASE) (ts : List Token) :
    valueLength 0 cases (t :: ts) = valueLength 0 (cases + 1) ts + 1 := by
  rw [valueLength, kind_of_is ht]
  rfl

theorem valueLength_end (ht : t.is .END) (ts : List Token) :
    valueLength 0 (cases + 1) (t :: ts) = valueLength 0 cases ts + 1 := by
  rw [valueLength, kind_of_is ht]
  rfl

/-- The scan passes over the tokens of a value. Inside a `CASE` one is open, so that no keyword ends
the value there. -/
theorem valueLength_append {inCase : Bool} (h : ValueTokens inCase init) {cases : Nat}
    (hcases : inCase = true → cases ≠ 0) (rest : List Token) :
    valueLength 0 cases (init ++ rest) = init.length + valueLength 0 cases rest := by
  induction h generalizing cases rest with
  | nil => rw [List.nil_append, List.length_nil, Nat.zero_add]
  | token ht h ih =>
      rw [List.cons_append, valueLength_goesOn ht hcases, ih hcases, List.length_cons]
      omega
  | group hl hinner hr h ih =>
      rw [List.cons_append, List.append_assoc, List.cons_append, valueLength_left hl,
        valueLength_matched hinner, valueLength_right hr, ih hcases, List.length_cons,
        List.length_append, List.length_cons]
      omega
  | case hc hinner he h ih ih' =>
      rw [List.cons_append, List.append_assoc, List.cons_append, valueLength_case hc,
        ih fun _ => Nat.succ_ne_zero cases, valueLength_end he, ih' hcases, List.length_cons,
        List.length_append, List.length_cons]
      omega

theorem valueLength_of_stops (h : Column.Stops rest) (cases : Nat) :
    valueLength 0 cases rest = 0 := by
  cases rest with
  | nil => rfl
  | cons t ts =>
      rw [valueLength]
      rcases h t rfl with ht | ht <;> rw [ht] <;> rfl

/-- A value goes on to the comma or semicolon after it. -/
theorem valueLength_eq (h : ValueTokens false init) (hrest : Column.Stops rest) :
    valueLength 0 0 (init ++ rest) = init.length := by
  rw [valueLength_append h (by decide), valueLength_of_stops hrest, Nat.add_zero]

/-! ## One variable -/

/-- With trivia aside, a place in a list is known by the significant tokens after it. -/
theorem skipTrivia_eq_of_isSuffix {us : List Token} (hus : us <:+ ts) (hvs : vs <:+ ts)
    (h : significant us = significant vs) : skipTrivia us = skipTrivia vs := by
  have hgap {xs ys : List Token} (hxs : xs <:+ ys) (h : significant ys = significant xs) :
      skipTrivia ys = skipTrivia xs := by
    obtain ⟨gap, rfl⟩ := hxs
    exact Reads.skipTrivia_eq ⟨gap, rfl, List.append_left_eq_self.mp (significant_append .. ▸ h)⟩
  rcases List.suffix_or_suffix_of_suffix hus hvs with hle | hle
  · exact (hgap hle h.symm).symm
  · exact hgap hle h

theorem firstKeyword?_iff {k : Keyword} :
    firstKeyword? ts = some k ↔ ∃ t rest, skipTrivia ts = t :: rest ∧ t.is k := by
  rw [← Column.comesNext_iff, Column.comesNext, decide_eq_true_iff]

theorem typeAt?_of_identifier {after : List Token} {start : Nat}
    (hstart : (if firstKeyword? ts = some .AS then triviaLength ts + 1 else 0) = start)
    (hskip : skipTrivia (ts.drop start) = t :: after) (ht : t.kind.isIdentifier) :
    typeAt? d ts = some ((Column.dataType d t after).1,
      start + triviaLength (ts.drop start) + 1 + (Column.dataType d t after).2) := by
  simp only [typeAt?, hstart, hskip, ht, if_true]

/-- The type of a variable is read with its arguments. -/
theorem typeAt?_written (v : VariableDefinition)
    (hts : significant ts = v.asToken.toList ++ v.type.tokens ++ vs) (hvs : Column.NoGroup vs) :
    ∃ n, typeAt? d ts = some (v.type.text d, n) ∧ significant (ts.drop n) = vs := by
  obtain ⟨start, hstart, htype⟩ : ∃ start,
      (if firstKeyword? ts = some .AS then triviaLength ts + 1 else 0) = start ∧
        significant (ts.drop start) = v.type.tokens ++ vs := by
    cases has : v.asToken with
    | none =>
        rw [has] at hts
        refine ⟨0, if_neg ?_, hts⟩
        intro hfirst
        obtain ⟨t, rest, hskip, ht⟩ := firstKeyword?_iff.mp hfirst
        rw [significant_of_skipTrivia hskip] at hts
        have hident := (List.cons.inj hts).1 ▸ v.type.isIdentifier
        exact Alteration.kind_ne_of_isIdentifier hident rfl (kind_of_is ht)
    | some t =>
        rw [has] at hts
        obtain ⟨after, hskip, hafter⟩ := exists_skipTrivia hts
        refine ⟨_, if_pos (firstKeyword?_iff.mpr ⟨t, after, hskip, v.isAs t has⟩), ?_⟩
        rwa [drop_of_skipTrivia hskip 0]
  obtain ⟨after, hskip, hafter⟩ := exists_skipTrivia htype
  obtain ⟨htext, hdrop⟩ := Column.dataType_written (d := d) v.type hafter hvs
  refine ⟨_, by rw [typeAt?_of_identifier hstart hskip v.type.isIdentifier, htext], ?_⟩
  rw [Nat.add_assoc, Nat.add_assoc, ← List.drop_drop, ← Nat.add_assoc, drop_of_skipTrivia hskip,
    hdrop]

theorem valueAt?_written (hskip : skipTrivia ts = t :: (init ++ rest)) (ht : t.kind = .eq)
    (hinit : ValueTokens false init) (hrest : Column.Stops rest) :
    valueAt? ts = some ((Expression.emit init).trim, triviaLength ts + 1 + init.length) := by
  rw [valueAt?, hskip]
  dsimp only
  rw [if_pos ht, valueLength_eq hinit hrest, List.take_left]

theorem valueAt?_of_stops (hskip : skipTrivia ts = rest) (hrest : Column.Stops rest) :
    valueAt? ts = none := by
  rw [valueAt?, hskip]
  cases rest with
  | nil => rfl
  | cons t after =>
      rcases hrest t rfl with ht | ht <;> simp [ht]

theorem one?_of_noValue {after : List Token} {text : Text} {n : Nat}
    (hskip : skipTrivia ts = t :: after) (ht : t.kind = .variable)
    (htype : typeAt? d after = some (text, n)) (hvalue : valueAt? (after.drop n) = none) :
    one? d ts = some (⟨⟨Name.ofVariable t.text, text⟩, none⟩, triviaLength ts + 1 + n) := by
  simp [one?, hskip, ht, htype, hvalue]

theorem one?_of_value {after : List Token} {text value : Text} {n m : Nat}
    (hskip : skipTrivia ts = t :: after) (ht : t.kind = .variable)
    (htype : typeAt? d after = some (text, n))
    (hvalue : valueAt? (after.drop n) = some (value, m)) :
    one? d ts =
      some (⟨⟨Name.ofVariable t.text, text⟩, some value⟩, triviaLength ts + 1 + n + m) := by
  simp [one?, hskip, ht, htype, hvalue]

theorem skipTrivia_of_stops (h : Column.Stops rest) : skipTrivia rest = rest := by
  cases rest with
  | nil => rfl
  | cons t ts =>
      have ht : t.isTrivia = false := by
        rcases h t rfl with ht | ht <;> exact isTrivia_of_kind ht rfl
      exact skipTrivia_gap ts (List.forall_mem_nil _) ht

/-- After the type comes an equals sign or the end of the declaration. -/
theorem assignment_append (v : VariableDefinition) (hrest : Column.Stops rest) :
    skipTrivia (v.assignment ++ rest) = v.assignment ++ rest ∧
      Column.NoGroup (v.assignment ++ rest) := by
  cases hvalue : v.value with
  | none =>
      rw [VariableDefinition.assignment_of_none hvalue]
      exact ⟨skipTrivia_of_stops hrest, Column.noGroup_of_stops hrest⟩
  | some p =>
      have hp := v.isEquals p hvalue
      rw [VariableDefinition.assignment_of_some hvalue]
      refine ⟨skipTrivia_gap _ (List.forall_mem_nil _) (isTrivia_of_kind hp rfl), ?_⟩
      rintro t ⟨⟩
      rw [hp]
      decide

/-- One variable is read, up to the comma or semicolon after it. -/
theorem one?_written (v : VariableDefinition) (h : v.Declares ts rest)
    (hrest : Column.Stops rest) :
    ∃ n, one? d ts = some (v.declaration d, n) ∧ skipTrivia (ts.drop n) = rest := by
  obtain ⟨after, hskip, hafter⟩ := Reads.of_cons h
  obtain ⟨hhead, hnoGroup⟩ := assignment_append v hrest
  have hopen : Column.NoGroup (significant (v.assignment ++ rest)) := by
    rwa [Column.NoGroup, ← head?_skipTrivia, hhead]
  obtain ⟨n, htype, hdrop⟩ := typeAt?_written (d := d) v hafter.significant_eq hopen
  -- The type is known up to trivia, but a value starts right after its equals sign.
  have hplace : skipTrivia (after.drop n) = v.assignment ++ rest := by
    obtain ⟨taken, htaken, -⟩ := hafter
    rw [skipTrivia_eq_of_isSuffix (List.drop_suffix n after) ⟨taken, htaken.symm⟩ hdrop, hhead]
  rw [VariableDefinition.declaration]
  cases hvalue : v.value with
  | none =>
      rw [VariableDefinition.assignment_of_none hvalue] at hplace
      refine ⟨_, one?_of_noValue hskip v.isVariable htype (valueAt?_of_stops hplace hrest), ?_⟩
      rw [drop_of_skipTrivia hskip]
      exact hplace
  | some p =>
      rw [VariableDefinition.assignment_of_some hvalue, List.cons_append] at hplace
      have hread := valueAt?_written hplace (v.isEquals p hvalue) (v.isValue p hvalue) hrest
      refine ⟨_, one?_of_value hskip v.isVariable htype hread, ?_⟩
      rw [Nat.add_assoc, drop_of_skipTrivia hskip, ← List.drop_drop, drop_of_skipTrivia hplace,
        List.drop_left, skipTrivia_of_stops hrest]

/-! ## Lists of variables -/

theorem list_of_last {declaration : Declaration} {n : Nat}
    (hone : one? d ts = some (declaration, n)) (hskip : skipTrivia (ts.drop n) = rest)
    (hrest : ∀ t ∈ rest.head?, t.kind = .semicolon) : list d ts = ([declaration], n) := by
  rw [list, hone]
  dsimp only
  split
  · rfl
  · rename_i t after hafter
    rw [hskip] at hafter
    rw [if_neg (by simp [hrest t (hafter ▸ rfl)])]

theorem list_of_comma {declaration : Declaration} {n : Nat}
    (hone : one? d ts = some (declaration, n)) (hskip : skipTrivia (ts.drop n) = t :: rest)
    (ht : t.kind = .comma) (hlist : (list d rest).1 ≠ []) :
    list d ts = (declaration :: (list d rest).1,
      n + triviaLength (ts.drop n) + 1 + (list d rest).2) := by
  rw [list, hone]
  dsimp only
  split
  · rename_i hnil
    rw [hskip] at hnil
    cases hnil
  · rename_i u after hafter
    rw [hskip] at hafter
    cases hafter
    rw [if_pos ht]
    split
    · rename_i hempty
      rw [hempty] at hlist
      exact absurd rfl hlist
    · rename_i heq
      rw [heq]

/-- The variables of a statement are all read. -/
theorem list_written (d : Dialect) {definitions : List VariableDefinition}
    (h : DeclareList definitions ts rest) :
    (list d ts).1 = definitions.map (VariableDefinition.declaration d) ∧
      skipTrivia (ts.drop (list d ts).2) = rest := by
  induction h with
  | one h hrest =>
      obtain ⟨n, hone, hskip⟩ := one?_written (d := d) _ h fun t ht => .inr (hrest t ht)
      rw [list_of_last hone hskip hrest]
      exact ⟨rfl, hskip⟩
  | @more v vs comma ts ts' rest h hcomma hs ih =>
      have hstops : Column.Stops (comma :: ts') := by
        rintro t ⟨⟩
        exact .inl hcomma
      obtain ⟨n, hone, hskip⟩ := one?_written (d := d) v h hstops
      have hne : (list d ts').1 ≠ [] := by
        rw [ih.1]
        cases hs <;> simp
      rw [list_of_comma hone hskip hcomma hne, ih.1]
      refine ⟨rfl, ?_⟩
      rw [Nat.add_assoc, Nat.add_assoc, ← List.drop_drop, ← Nat.add_assoc,
        drop_of_skipTrivia hskip]
      exact ih.2

end Declaration

/-! ## Statements in a row -/

section
variable {d : Dialect} {ts rest : List Token} {t : Token}

theorem declaredVariables_of_is (ht : t.is .DECLARE) :
    declaredVariables d (t :: ts) = (Declaration.list d ts).1.map Declaration.declared ++
      declaredVariables d (ts.drop (Declaration.list d ts).2) := by
  rw [declaredVariables, if_pos ht]

theorem declaredVariables_of_not (ht : t.is .DECLARE = false) :
    declaredVariables d (t :: ts) = declaredVariables d ts := by
  rw [declaredVariables, if_neg (by simp [ht])]

theorem declaredVariables_skipTrivia (ts : List Token) :
    declaredVariables d (skipTrivia ts) = declaredVariables d ts := by
  induction ts with
  | nil => rfl
  | cons t ts ih =>
      by_cases ht : t.isTrivia
      · rw [skipTrivia, List.dropWhile_cons_of_pos ht, ← skipTrivia, ih,
          declaredVariables_of_not (is_of_isTrivia ht _)]
      · rw [skipTrivia, List.dropWhile_cons_of_neg ht]

/-- The variables of a statement come before those of what follows it. -/
theorem declaredVariables_written {gap : List Token} {definitions : List VariableDefinition}
    (hgap : ∀ t ∈ gap, t.isTrivia) (ht : t.is .DECLARE) (h : DeclareList definitions ts rest) :
    declaredVariables d (gap ++ t :: ts) =
      definitions.map (fun v => (v.declaration d).declared) ++ declaredVariables d rest := by
  obtain ⟨hlist, hrest⟩ := Declaration.list_written d h
  rw [← declaredVariables_skipTrivia, skipTrivia_gap ts hgap (isTrivia_of_is ht),
    declaredVariables_of_is ht, hlist, ← declaredVariables_skipTrivia (ts.drop _), hrest,
    List.map_map]
  rfl

end

/-- Every variable of a `DECLARE` is found with its name, its type and its value, and the
variables of statements in a row are those of one statement after the other. -/
theorem declarations_recovered (d : Dialect) :
    (∀ {definitions : List VariableDefinition} {ts rest : List Token},
      DeclareList definitions ts rest →
        (Declaration.list d ts).1 = definitions.map (VariableDefinition.declaration d)) ∧
    ∀ {statements : List (List VariableDefinition)} {ts : List Token},
      DeclareStream statements ts →
        declaredVariables d ts =
          statements.flatten.map fun v => (v.declaration d).declared := by
  refine ⟨fun h => (Declaration.list_written d h).1, fun h => ?_⟩
  induction h with
  | nil hgap =>
      rw [← declaredVariables_skipTrivia, skipTrivia_of_trivia hgap, declaredVariables]
      rfl
  | last hgap hdeclare h =>
      rw [declaredVariables_written hgap hdeclare h, declaredVariables]
      simp
  | cons hgap hdeclare h hsemicolon hs ih =>
      rw [declaredVariables_written hgap hdeclare h,
        declaredVariables_of_not (by simp [Token.is, hsemicolon]), ih, List.flatten_cons,
        List.map_append]

theorem declarations_recovered_pair :
    let ts := tokenize ("DECLARE @A AS decimal(9) = f(1,2), @B int;\n".toList ++
      "DECLARE @C int = CASE WHEN 1 THEN 2 END".toList)
    let digits := [ascii .leftParen "(" 21, ascii .integer "9" 22, ascii .rightParen ")" 23]
    let call := [ascii .blank " " 26, ascii .identifier "f" 27, ascii .leftParen "(" 28,
      ascii .integer "1" 29, ascii .comma "," 30, ascii .integer "2" 31, ascii .rightParen ")" 32]
    let arm := [ascii .blank " " 64, ascii (.keyword .WHEN) "WHEN" 65, ascii .blank " " 69,
      ascii .integer "1" 70, ascii .blank " " 71, ascii (.keyword .THEN) "THEN" 72,
      ascii .blank " " 76, ascii .integer "2" 77, ascii .blank " " 78]
    let choice := ascii .blank " " 59 :: ascii (.keyword .CASE) "CASE" 60 ::
      (arm ++ [ascii (.keyword .END) "END" 79])
    let a : VariableDefinition := {
      name := ascii .variable "@A" 8
      asToken := some (ascii (.keyword .AS) "AS" 11)
      type := ⟨ascii .identifier "decimal" 14, digits, rfl, .inr (by decide)⟩
      value := some (ascii .eq "=" 25, call)
      isVariable := rfl
      isAs := by decide
      isEquals := by decide
      isValue := by
        rintro _ ⟨⟩
        exact .token rfl (.token rfl (.group rfl (.token (by decide) (by decide)
          (.token (by decide) (by decide) (.token (by decide) (by decide) .nil))) rfl .nil)) }
    let b : VariableDefinition := {
      name := ascii .variable "@B" 35
      asToken := none
      type := ⟨ascii .identifier "int" 38, [], rfl, .inl rfl⟩
      value := none
      isVariable := rfl
      isAs := by decide
      isEquals := by simp
      isValue := by simp }
    let c : VariableDefinition := {
      name := ascii .variable "@C" 51
      asToken := none
      type := ⟨ascii .identifier "int" 54, [], rfl, .inl rfl⟩
      value := some (ascii .eq "=" 58, choice)
      isVariable := rfl
      isAs := by decide
      isEquals := by decide
      isValue := by
        rintro _ ⟨⟩
        exact .token rfl (.case rfl (.token rfl (.token rfl (.token rfl (.token rfl (.token rfl
          (.token rfl (.token rfl (.token rfl (.token rfl .nil))))))))) rfl .nil) }
    DeclareStream [[a, b], [c]] ts ∧
      declaredVariables .postgres ts = [⟨['a'], "numeric(9)".toList⟩, ⟨['b'], "integer".toList⟩,
        ⟨['c'], "integer".toList⟩] ∧
      (Declaration.list .postgres (ts.drop 1)).1 =
        [⟨⟨['a'], "numeric(9)".toList⟩, some "f(1,2)".toList⟩,
          ⟨⟨['b'], "integer".toList⟩, none⟩] := by
  intro ts digits call arm choice a b c
  have hchecks : (ts = ascii (.keyword .DECLARE) "DECLARE" 0 :: ts.drop 1 ∧
        ts.drop 25 = [ascii .blank "\n" 42] ++ ascii (.keyword .DECLARE) "DECLARE" 43 ::
          ts.drop 27) ∧
      (ts.drop 1 = (ts.drop 1).take 10 ++ (a.assignment ++ ascii .comma "," 33 :: ts.drop 20) ∧
        significant ((ts.drop 1).take 10) = a.front) ∧
      (ts.drop 20 = (ts.drop 20).take 4 ++ (b.assignment ++ ascii .semicolon ";" 41 :: ts.drop 25) ∧
        significant ((ts.drop 20).take 4) = b.front) ∧
      (ts.drop 27 = (ts.drop 27).take 5 ++ (c.assignment ++ []) ∧
        significant ((ts.drop 27).take 5) = c.front) := by
    decide +kernel
  obtain ⟨⟨hfirst, hsecond⟩, ha, hb, hc⟩ := hchecks
  have hlist : DeclareList [a, b] (ts.drop 1) (ascii .semicolon ";" 41 :: ts.drop 25) :=
    .more ⟨_, ha⟩ rfl (.one ⟨_, hb⟩ (by decide))
  have hlast : DeclareStream [[c]] (ts.drop 25) := by
    rw [hsecond]
    exact .last (by decide) rfl (.one ⟨_, hc⟩ (by decide))
  have hstream : DeclareStream [[a, b], [c]] ts := by
    rw [hfirst]
    exact .cons (List.forall_mem_nil _) rfl hlist rfl hlast
  have hmeaning : [a, b, c].map (fun v => (v.declaration .postgres).declared) =
      [⟨['a'], "numeric(9)".toList⟩, ⟨['b'], "integer".toList⟩, ⟨['c'], "integer".toList⟩] := by
    decide +kernel
  have hvalue : (Expression.emit call).trim = "f(1,2)".toList := by
    rw [Expression.emit_eq_flatMap_tokenText (by decide)]
    decide
  obtain ⟨hdeclarations, hvariables⟩ := declarations_recovered .postgres
  refine ⟨hstream, (hvariables hstream).trans hmeaning, (hdeclarations hlist).trans ?_⟩
  change [⟨(a.declaration .postgres).declared, some (Expression.emit call).trim⟩,
    b.declaration .postgres] = _
  rw [hvalue]
  decide +kernel

end SqlMigration
