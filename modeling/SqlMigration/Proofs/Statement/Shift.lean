import SqlMigration.Proofs.Token.Cutting
import SqlMigration.Statement.Extent

/-! # Statements wherever they stand

The end of a statement is found from the kinds and texts of its tokens. Their places in the script
do not matter, so that a part of a script has the same statements when it is read on its own.
-/

namespace SqlMigration

variable (d : Nat)

namespace Token

@[simp] theorem shift_kind (t : Token) : (t.shift d).kind = t.kind := rfl

@[simp] theorem shift_text (t : Token) : (t.shift d).text = t.text := rfl

@[simp] theorem isTrivia_shift (t : Token) : (t.shift d).isTrivia = t.isTrivia := rfl

@[simp] theorem keyword?_shift (t : Token) : (t.shift d).keyword? = t.keyword? := rfl

end Token

/-! ## Trivia and nesting -/

@[simp] theorem skipTrivia_map_shift (ts : List Token) :
    skipTrivia (ts.map (Token.shift d)) = (skipTrivia ts).map (Token.shift d) :=
  List.dropWhile_map

@[simp] theorem triviaLength_map_shift (ts : List Token) :
    triviaLength (ts.map (Token.shift d)) = triviaLength ts := by
  rw [triviaLength, List.takeWhile_map, List.length_map]
  rfl

@[simp] theorem firstSignificant?_map_shift (ts : List Token) :
    firstSignificant? (ts.map (Token.shift d)) = (firstSignificant? ts).map (Token.shift d) := by
  rw [firstSignificant?, skipTrivia_map_shift, List.head?_map, firstSignificant?]

theorem any_firstSignificant?_map_shift {p : Token → Bool} (hp : ∀ t, p (t.shift d) = p t)
    (ts : List Token) :
    (firstSignificant? (ts.map (Token.shift d))).any p = (firstSignificant? ts).any p := by
  rw [firstSignificant?_map_shift, Option.any_map, funext hp]

@[simp] theorem firstKeyword?_map_shift (ts : List Token) :
    firstKeyword? (ts.map (Token.shift d)) = firstKeyword? ts := by
  rw [firstKeyword?, firstSignificant?_map_shift, firstKeyword?]
  cases firstSignificant? ts <;> rfl

@[simp] theorem significantLength_map_shift (ts : List Token) :
    significantLength (ts.map (Token.shift d)) = significantLength ts := by
  rw [significantLength, ← List.map_reverse, List.dropWhile_map, List.length_map]
  rfl

theorem topLevelFrom?_map_shift {p : Token → Bool} (hp : ∀ t, p (t.shift d) = p t) (depth : Nat)
    (ts : List Token) :
    topLevelFrom? p depth (ts.map (Token.shift d)) = topLevelFrom? p depth ts := by
  induction ts generalizing depth with
  | nil => rfl
  | cons t ts ih => simp only [List.map_cons, topLevelFrom?, Token.shift_kind, hp, ih]

@[simp] theorem opensTransaction_map_shift (ts : List Token) :
    opensTransaction (ts.map (Token.shift d)) = opensTransaction ts := by
  rw [opensTransaction, firstKeyword?_map_shift]
  rfl

theorem throughEndFrom?_map_shift (depth : Nat) (ts : List Token) :
    throughEndFrom? depth (ts.map (Token.shift d)) = throughEndFrom? depth ts := by
  induction ts generalizing depth with
  | nil => rfl
  | cons t ts ih =>
      simp only [List.map_cons, throughEndFrom?, Token.keyword?_shift, opensTransaction_map_shift,
        ih]

namespace Statement

/-! ## Extents -/

@[simp] theorem moduleExtent_map_shift (ts : List Token) :
    moduleExtent (ts.map (Token.shift d)) = moduleExtent ts := by
  rw [moduleExtent, List.takeWhile_map, significantLength_map_shift]
  rfl

@[simp] theorem withSemicolon_map_shift (ts : List Token) (n : Nat) :
    withSemicolon (ts.map (Token.shift d)) n = withSemicolon ts n := by
  simp only [withSemicolon, ← List.map_drop, triviaLength_map_shift]
  rw [any_firstSignificant?_map_shift d fun _ => rfl]

@[simp] theorem blockExtent_map_shift (ts : List Token) :
    blockExtent (ts.map (Token.shift d)) = blockExtent ts := by
  have hword (ts : List Token) := any_firstSignificant?_map_shift d
    (p := fun t => t.isWord "try" || t.isWord "catch") (fun _ => rfl) ts
  simp only [blockExtent, throughEnd?, throughEndFrom?_map_shift, ← List.map_drop, hword,
    triviaLength_map_shift, withSemicolon_map_shift, significantLength_map_shift]

@[simp] theorem Scan.pass_map_shift (first : Option Keyword) (st : Scan) (t : Token)
    (ts : List Token) :
    st.pass first (t.shift d) (ts.map (Token.shift d)) = st.pass first t ts := by
  have halter (k : Keyword) :
      isAlterClause first k (ts.map (Token.shift d)) = isAlterClause first k ts := by
    rw [isAlterClause, firstKeyword?_map_shift, isAlterClause]
  simp only [Scan.pass, Scan.keyword?, Token.shift_kind, halter]

theorem plainFrom_map_shift (first : Option Keyword) (st : Scan) (i stop : Nat)
    (ts : List Token) :
    plainFrom first st i stop (ts.map (Token.shift d)) = plainFrom first st i stop ts := by
  induction ts generalizing st i stop with
  | nil => rfl
  | cons t ts ih =>
      simp only [List.map_cons, plainFrom, Token.isTrivia_shift, Scan.pass_map_shift, ih]

@[simp] theorem plainExtent_map_shift (t : Token) (ts : List Token) :
    plainExtent (t.shift d) (ts.map (Token.shift d)) = plainExtent t ts := by
  simp only [plainExtent, Token.keyword?_shift, Token.shift_kind, plainFrom_map_shift]

@[simp] theorem opening_map_shift (t : Token) (ts : List Token) :
    opening (t.shift d) (ts.map (Token.shift d)) = opening t ts := by
  have hmodule : definesModule (ts.map (Token.shift d)) = definesModule ts := by
    rw [definesModule, firstKeyword?_map_shift]
    rfl
  simp only [opening, hmodule, Token.keyword?_shift, opensTransaction_map_shift]

/-- A statement has the same length wherever it stands. -/
theorem extent_map_shift (ts : List Token) : extent (ts.map (Token.shift d)) = extent ts := by
  have hstart (ts : List Token) :
      topLevel? (fun u => u.kind.startsStatement) (ts.map (Token.shift d)) =
        topLevel? (fun u => u.kind.startsStatement) ts :=
    topLevelFrom?_map_shift d (fun _ => rfl) 0 ts
  have hword (ts : List Token) := any_firstSignificant?_map_shift d
    (p := fun u => u.is .ELSE) (fun _ => rfl) ts
  fun_induction extent ts with
  | case1 => rw [List.map_nil, extent]
  | case2 t ts hopening => rw [List.map_cons, extent, opening_map_shift, hopening]
  | case3 t ts hopening =>
      rw [List.map_cons, extent, opening_map_shift, hopening]
      exact moduleExtent_map_shift d ts
  | case4 t ts hopening =>
      rw [List.map_cons, extent, opening_map_shift, hopening]
      exact blockExtent_map_shift d (t :: ts)
  | case5 t ts hopening hbody =>
      rw [List.map_cons, extent, opening_map_shift, hopening]
      simp only [hstart, hbody]
      rw [← List.map_cons, significantLength_map_shift]
  | case6 t ts hopening k hbody n rest helse m after otherwise hempty ih =>
      -- The branches start at positions in the list, which stay: `drop` and `map` change places.
      rw [List.map_cons, extent, opening_map_shift, hopening]
      simp only [hstart, hbody, ← List.map_drop, ih, hword, skipTrivia_map_shift, ← List.map_tail,
        List.isEmpty_map, triviaLength_map_shift]
      rw [if_pos helse, if_pos hempty]
  | case7 t ts hopening k hbody n rest helse m after otherwise hne ihbody ihelse =>
      rw [List.map_cons, extent, opening_map_shift, hopening]
      simp only [hstart, hbody, ← List.map_drop, ihbody, hword, skipTrivia_map_shift,
        ← List.map_tail, List.isEmpty_map, triviaLength_map_shift]
      rw [if_pos helse, if_neg hne]
      exact congrArg (1 + m + triviaLength after + max 1 ·) ihelse
  | case8 t ts hopening k hbody n rest helse ih =>
      rw [List.map_cons, extent, opening_map_shift, hopening]
      simp only [hstart, hbody, ← List.map_drop, ih, hword]
      rw [if_neg helse]
  | case9 t ts hopening =>
      rw [List.map_cons, extent, opening_map_shift, hopening]
      exact plainExtent_map_shift d t ts

theorem boundsFrom_map_shift (i : Nat) (ts : List Token) :
    boundsFrom i (ts.map (Token.shift d)) = boundsFrom i ts := by
  fun_induction boundsFrom i ts with
  | case1 => rw [List.map_nil, boundsFrom]
  | case2 i t ts htrivia ih =>
      rw [List.map_cons, boundsFrom, Token.isTrivia_shift, if_pos htrivia]
      exact ih
  | case3 i t ts htrivia n ih =>
      have hextent : extent (t.shift d :: ts.map (Token.shift d)) = extent (t :: ts) :=
        extent_map_shift d (t :: ts)
      rw [List.map_cons, boundsFrom, Token.isTrivia_shift, if_neg htrivia, hextent]
      simp only [← List.map_drop]
      exact congrArg (_ :: ·) ih

/-- Tokens that have been moved as a whole keep their statements. -/
theorem bounds_map_shift (ts : List Token) : bounds (ts.map (Token.shift d)) = bounds ts :=
  boundsFrom_map_shift d 0 ts

end Statement

end SqlMigration
