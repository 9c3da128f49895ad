import SqlMigration.Proofs.View.Cut

/-! # The names of a view's columns

The names come from the first select list since the last reset, and from no other.
-/

namespace SqlMigration.View

/-- The name of a position's column. -/
def Item.columnName? (x : Item) : Option Text :=
  ((Terms.target? x.terms).or (Terms.alias? x.terms)).or (Terms.lastName? x.terms)

/-- What can be asked of the names of a view's columns. -/
inductive Call where
  | convert (ts : List Token)
  | reset

namespace Call

/-- The arms converted since the last reset, after one more call. -/
def noteArm (arms : List (List Token)) : Call → List (List Token)
  | .convert ts => arms ++ [ts]
  | .reset => []

/-- The arms converted since the last reset. -/
def arms (calls : List Call) : List (List Token) := calls.foldl noteArm []

end Call

namespace Columns

def step (c : Columns) : Call → Columns
  | .convert ts => (c.convert ts).2
  | .reset => {}

/-- The names after some calls. -/
def run (calls : List Call) : Columns := calls.foldl step {}

/-- The names that a first select list gives, if there is one. -/
def ofFirst : Option (List Item) → Columns
  | none => {}
  | some items => { names := (items.filter Item.hasContent).map Item.columnName?, first := false }

/-- The names that the first select list of the arms gives. -/
def ofArms (arms : List (List Token)) : Columns :=
  ofFirst ((arms.flatMap cut).findSome? Part.items?)

theorem snd_write_item_later (names : List (Option Text)) (k : Nat) (x : Item)
    (fs : List Fragment) :
    ∃ j, ((Columns.mk names false).write k (x.fragments ++ fs)).2 =
      ((Columns.mk names false).write j fs).2 := by
  refine ⟨if x.hasContent then k + 1 else k, ?_⟩
  have hposition : (position x.terms).hasContent = x.hasContent := rfl
  cases hcontent : x.hasContent <;> cases hcomma : x.comma <;>
    simp [Item.fragments, write, hposition, hcontent, hcomma]

theorem snd_write_item_first (names : List (Option Text)) (k : Nat) (x : Item)
    (fs : List Fragment) :
    ((Columns.mk names true).write k (x.fragments ++ fs)).2 =
      ((Columns.mk (names ++ ([x].filter Item.hasContent).map Item.columnName?) true).write k
        fs).2 := by
  have hposition : (position x.terms).hasContent = x.hasContent := rfl
  have hname : (position x.terms).name? = x.columnName? := rfl
  cases hcontent : x.hasContent <;> cases hcomma : x.comma <;>
    simp [Item.fragments, write, hposition, hname, hcontent, hcomma]

/-- Later select lists leave the names alone. -/
theorem snd_write_parts_later (names : List (Option Text)) (k : Nat) (parts : List Part) :
    ((Columns.mk names false).write k (parts.flatMap Part.fragments)).2 = ⟨names, false⟩ := by
  have hitems (items : List Item) (k : Nat) (fs : List Fragment)
      (h : ∀ j, ((Columns.mk names false).write j fs).2 = ⟨names, false⟩) :
      ((Columns.mk names false).write k (items.flatMap Item.fragments ++ fs)).2 =
        ⟨names, false⟩ := by
    induction items generalizing k with
    | nil => exact h k
    | cons x items ih =>
        rw [List.flatMap_cons, List.append_assoc]
        obtain ⟨j, hj⟩ := snd_write_item_later names k x (items.flatMap Item.fragments ++ fs)
        rw [hj, ih]
  induction parts generalizing k with
  | nil => rfl
  | cons p parts ih =>
      cases p with
      | outside x => simp [Part.fragments, write, ih]
      | list select items =>
          simp only [List.flatMap_cons, Part.fragments, List.cons_append, List.append_assoc, write]
          exact hitems items 0 _ fun j => by simp [write, ih]

theorem snd_write_items_first (names : List (Option Text)) (k : Nat) (items : List Item)
    (fs : List Fragment) :
    ((Columns.mk names true).write k (items.flatMap Item.fragments ++ fs)).2 =
      ((Columns.mk (names ++ (items.filter Item.hasContent).map Item.columnName?) true).write k
        fs).2 := by
  induction items generalizing names with
  | nil => simp
  | cons x items ih =>
      rw [List.flatMap_cons, List.append_assoc, snd_write_item_first, ih]
      cases h : x.hasContent <;> simp [h]

/-- The first select list gives the names. -/
theorem snd_write_parts_first (k : Nat) (parts : List Part) :
    (({} : Columns).write k (parts.flatMap Part.fragments)).2 =
      ofFirst (parts.findSome? Part.items?) := by
  induction parts generalizing k with
  | nil => rfl
  | cons p parts ih =>
      cases p with
      | outside x => exact ih k
      | list select items =>
          simp only [List.flatMap_cons, Part.fragments, List.cons_append, List.append_assoc, write,
            snd_write_items_first]
          exact snd_write_parts_later _ 0 parts

theorem step_ofArms (arms : List (List Token)) (ts : List Token) :
    (ofArms arms).step (.convert ts) = ofArms (arms ++ [ts]) := by
  rw [step, convert, read_eq_cut, ofArms, ofArms, List.flatMap_append, List.findSome?_append]
  cases (arms.flatMap cut).findSome? Part.items? with
  | none =>
      rw [Option.none_or, List.flatMap_singleton]
      exact snd_write_parts_first 0 (cut ts)
  | some items => exact snd_write_parts_later _ 0 (cut ts)

theorem foldl_step_ofArms (calls : List Call) (arms : List (List Token)) :
    calls.foldl step (ofArms arms) = ofArms (calls.foldl Call.noteArm arms) := by
  induction calls generalizing arms with
  | nil => rfl
  | cons call calls ih =>
      rw [List.foldl_cons, List.foldl_cons, ← ih]
      cases call with
      | convert ts => rw [step_ofArms, Call.noteArm]
      | reset => rfl

/-- At any time the names are those of the first select list since the last reset. -/
theorem run_eq_ofArms (calls : List Call) : run calls = ofArms (Call.arms calls) :=
  foldl_step_ofArms calls []

theorem names_of_first_ofArms {arms : List (List Token)} (h : (ofArms arms).first = true) :
    (ofArms arms).names = [] := by
  rw [ofArms] at h ⊢
  cases hfirst : (arms.flatMap cut).findSome? Part.items? with
  | none => rfl
  | some items => simp [hfirst, ofFirst] at h

theorem step_of_not_first {c : Columns} (h : c.first = false) (ts : List Token) :
    c.step (.convert ts) = c := by
  cases c
  subst h
  rw [step, convert, read_eq_cut, snd_write_parts_later]

theorem foldl_step_of_not_first {c : Columns} (h : c.first = false) (later : List (List Token)) :
    (later.map Call.convert).foldl step c = c := by
  induction later with
  | nil => rfl
  | cons ts later ih => rw [List.map_cons, List.foldl_cons, step_of_not_first h, ih]

/-- The first list ends at `FROM`, at a semicolon and at the next `SELECT`. -/
example :
    (run [.convert (tokenize "SELECT a, b FROM t, u".toList)]).names = [some ['a'], some ['b']] ∧
      (run [.convert (tokenize "SELECT a, b; c, d".toList)]).names = [some ['a'], some ['b']] ∧
      (run [.convert (tokenize "SELECT a SELECT b, c".toList)]).names = [some ['a']] := by
  simp only [run_eq_ofArms]
  decide +kernel

end Columns

end SqlMigration.View
