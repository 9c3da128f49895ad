import SqlMigration.Proofs.View.Cut

/-! # Aliases from the first select list

Once the names of the first select list are known, an arm is written as it would be without them,
except that the positions without a name of their own get theirs, right after their last content.
-/

namespace SqlMigration.View

/-- Trivia, or a qualifier that is left out. -/
def Term.Loose (x : Term) : Prop := (∀ t ∈ x.tokens, t.isTrivia) ∨ startsWithDbo x.tokens

/-- The terms of a position as the reader lays them out. -/
structure Terms.Placed (xs : List Term) : Prop where
  significant : ∀ x ∈ xs, x.isContent → x.head.isTrivia = false
  loose : hasContent xs → ∀ x ∈ trailing xs, x.Loose

namespace Terms.Placed

theorem nil : Placed [] := ⟨by simp, by simp [hasContent]⟩

theorem concat {xs : List Term} {x : Term} (h : Placed xs)
    (hcontent : x.isContent → x.head.isTrivia = false)
    (hloose : x.isContent = false → hasContent xs → x.Loose) : Placed (xs ++ [x]) := by
  constructor
  · intro y hy
    rcases List.mem_append.mp hy with hy | hy
    · exact h.significant y hy
    · rwa [List.mem_singleton.mp hy]
  · intro hxs y hy
    rw [trailing_concat] at hy
    rw [hasContent_concat] at hxs
    cases hx : x.isContent with
    | true => simp [hx] at hy
    | false =>
        simp only [hx, Bool.or_false] at hxs
        simp only [hx, Bool.false_eq_true, if_false] at hy
        rcases List.mem_append.mp hy with hy | hy
        · exact h.loose hxs y hy
        · rw [List.mem_singleton.mp hy]
          exact hloose hx hxs

end Terms.Placed

/-- After content, only trivia and qualifiers are no content. -/
theorem loose_termAt {xs : List Term} (t : Token) (ts : List Token) (hxs : Terms.hasContent xs) :
    (termAt xs t ts).isContent ∨ (termAt xs t ts).Loose := by
  fun_cases termAt xs t ts with
  | case1 htop => simp [hxs] at htop
  | case2 _ hall => simp [hxs] at hall
  | case7 _ _ _ _ hdbo =>
      right
      right
      obtain ⟨d, rest, rfl, -⟩ := eq_cons_of_startsWithDbo hdbo
      exact hdbo
  | case8 _ _ _ _ _ _ htarget => simp [hxs] at htarget
  | case3 | case4 | case5 | case6 | case9 | case10 | case11 | case12 => exact .inl rfl

theorem loose_termWithin (depth : Nat) {xs : List Term} (t : Token) (ts : List Token)
    (hxs : Terms.hasContent xs) :
    (termWithin depth xs t ts).isContent ∨ (termWithin depth xs t ts).Loose := by
  rw [termWithin]
  split
  · exact loose_termAt t ts hxs
  · exact .inl rfl

/-- Every position that is read is laid out so. -/
theorem placed_of_mem_cutFrom (depth : Nat) (l : Option OpenList) (ts : List Token)
    (hitems : ∀ x ∈ l.elim [] OpenList.items, Terms.Placed x.terms)
    (hterms : Terms.Placed (l.elim [] OpenList.terms)) {select : Token} {items : List Item}
    (h : .list select items ∈ cutFrom depth l ts) : ∀ x ∈ items, Terms.Placed x.terms := by
  have hgap {xs : List Term} {t : Token} (hxs : Terms.Placed xs) (ht : t.isTrivia) :
      Terms.Placed (xs ++ [⟨.gap, t, []⟩]) := by
    refine hxs.concat (by simp [Term.isContent]) fun _ _ => .inl ?_
    simpa [Term.tokens] using ht
  have hterm {depth : Nat} {xs : List Term} {t : Token} {ts : List Token}
      (hxs : Terms.Placed xs) (ht : t.isTrivia = false) :
      Terms.Placed (xs ++ [termWithin depth xs t ts]) := by
    refine hxs.concat (fun _ => ?_) fun hx hcontent => ?_
    · rwa [(starts_termWithin depth xs t ts).head_eq]
    · exact (loose_termWithin depth t ts hcontent).resolve_left (Bool.eq_false_iff.mp hx)
  have hopen : ∀ m ∈ l, Terms.Placed m.terms := by
    rintro m ⟨⟩
    exact hterms
  intro x hx
  obtain ⟨-, -, hplaced⟩ := forall_items_cutFrom (P := fun _ xs _ => Terms.Placed xs)
    (fun _ => .nil) hgap hterm depth l ts (fun x hx => ⟨0, [], hitems x hx⟩) hopen h x hx
  exact hplaced

def aliasText (added : Option Text) : Text :=
  added.elim [] fun name => " AS ".toList ++ Name.render name

namespace Item

def isNamed (x : Item) : Bool := (Terms.target? x.terms).isSome || (Terms.alias? x.terms).isSome

/-- The text through the last content, with the name that the position gives itself by an
assignment. -/
def before (x : Item) : Text :=
  Terms.text (Terms.body x.terms) ++
    aliasText (if x.hasContent then Terms.target? x.terms else none)

def after (x : Item) : Text :=
  Terms.text (Terms.trailing x.terms) ++ joinText x.comma.toList

/-- The alias that the `k`-th position with content gets. -/
def added (names : List (Option Text)) (k : Nat) (x : Item) : Option Text :=
  if x.hasContent && !x.isNamed then (names[k]?).join else none

/-- The positions of a list after `k` positions with content. -/
def textsWith (names : List (Option Text)) (k : Nat) : List Item → Text
  | [] => []
  | x :: xs =>
      x.before ++ aliasText (x.added names k) ++ x.after ++
        textsWith names (if x.hasContent then k + 1 else k) xs

end Item

namespace Part

def text : Part → Text
  | .outside x => x.text
  | .list select items => select.text ++ items.flatMap fun x => x.before ++ x.after

/-- The text of a part with the aliases from `names`. -/
def textWith (names : List (Option Text)) : Part → Text
  | .outside x => x.text
  | .list select items => select.text ++ Item.textsWith names 0 items

end Part

namespace Columns

variable (names : List (Option Text))

theorem write_position (k : Nat) (p : Position) (fs : List Fragment) :
    ((Columns.mk names false).write k (.position p :: fs)).1 =
      p.write (if p.hasContent then (Columns.mk names false).aliasFor? k p else none) ++
        ((Columns.mk names false).write (if p.hasContent then k + 1 else k) fs).1 := by
  cases h : p.hasContent <;> simp [write, h]

theorem write_comma (c : Columns) (k : Nat) (comma : Option Token) (fs : List Fragment) :
    (c.write k ((comma.map fun t => Fragment.text t.text).toList ++ fs)).1 =
      joinText comma.toList ++ (c.write k fs).1 := by
  cases comma <;> simp [write]

/-- A position writes its own alias or gets one, and never both. -/
theorem aliasText_aliasFor? (k : Nat) (x : Item) :
    aliasText (if x.hasContent then (Columns.mk names false).aliasFor? k (position x.terms)
      else none) =
      aliasText (if x.hasContent then Terms.target? x.terms else none) ++
        aliasText (x.added names k) := by
  cases hcontent : x.hasContent <;> cases htarget : Terms.target? x.terms <;>
    cases halias : Terms.alias? x.terms <;>
    simp [aliasText, aliasFor?, Position.isNamed, position, Item.added, Item.isNamed, hcontent,
      htarget, halias]

theorem write_item (k : Nat) (x : Item) (fs : List Fragment) :
    ((Columns.mk names false).write k (x.fragments ++ fs)).1 =
      x.before ++ aliasText (x.added names k) ++ x.after ++
        ((Columns.mk names false).write (if x.hasContent then k + 1 else k) fs).1 := by
  have halias := aliasText_aliasFor? names k x
  rw [Item.fragments, List.cons_append, write_position, write_comma, Item.before, Item.after,
    List.append_assoc _ _ (aliasText (x.added names k)), ← halias]
  simp only [Position.write, aliasText, List.append_assoc]
  rfl

theorem write_items (k : Nat) (items : List Item) (fs : List Fragment) :
    ((Columns.mk names false).write k (items.flatMap Item.fragments ++ fs)).1 =
      Item.textsWith names k items ++
        ((Columns.mk names false).write (k + items.countP Item.hasContent) fs).1 := by
  induction items generalizing k with
  | nil => rfl
  | cons x items ih =>
      rw [List.flatMap_cons, List.append_assoc, write_item, ih, Item.textsWith, List.countP_cons]
      cases x.hasContent <;> simp [Nat.add_assoc, Nat.add_comm 1]

theorem write_parts (k : Nat) (parts : List Part) :
    ((Columns.mk names false).write k (parts.flatMap Part.fragments)).1 =
      parts.flatMap (Part.textWith names) := by
  induction parts generalizing k with
  | nil => rfl
  | cons p parts ih =>
      cases p with
      | outside x => simp [Part.fragments, Part.textWith, write, ih]
      | list select items =>
          simp [Part.fragments, Part.textWith, write, write_items, ih]

end Columns

theorem Item.textsWith_nil (k : Nat) (items : List Item) :
    textsWith [] k items = items.flatMap fun x => x.before ++ x.after := by
  induction items generalizing k with
  | nil => rfl
  | cons x items ih => simp [textsWith, added, aliasText, ih]

theorem Part.textWith_nil (p : Part) : p.textWith [] = p.text := by
  cases p with
  | outside x => rfl
  | list select items => rw [textWith, Item.textsWith_nil, text]

/-- After the first select list an arm is converted as if no names were known, and then each
position without a name of its own gets its alias right after its last significant token. -/
theorem convert_eq_aliases_inserted (names : List (Option Text)) (ts : List Token) :
    (cut ts).flatMap Part.tokens = ts ∧
      (∀ select items, .list select items ∈ cut ts → ∀ x ∈ items, Terms.Placed x.terms) ∧
      ((Columns.mk [] false).convert ts).1 = (cut ts).flatMap Part.text ∧
      ((Columns.mk names false).convert ts).1 = (cut ts).flatMap (Part.textWith names) := by
  refine ⟨flatMap_tokens_cut ts, fun select items h => ?_, ?_, ?_⟩
  · exact placed_of_mem_cutFrom 0 none ts (by simp) .nil h
  · rw [Columns.convert, read_eq_cut, Columns.write_parts, funext Part.textWith_nil]
  · rw [Columns.convert, read_eq_cut, Columns.write_parts]

/-- A select list ends at `FROM`, at a semicolon and at the next `SELECT`. -/
example :
    let positions (s : String) :=
      ((cut (tokenize s.toList)).filterMap Part.items?).map fun items =>
        items.map fun x => joinText x.tokens
    positions "SELECT 1, 2 FROM t, u" = [[" 1,".toList, " 2 ".toList]] ∧
      positions "SELECT 1, 2; 3, 4" = [[" 1,".toList, " 2".toList]] ∧
      positions "SELECT 1 SELECT 2, 3" = [[" 1 ".toList], [" 2,".toList, " 3".toList]] := by
  decide +kernel

end SqlMigration.View
