import SqlMigration.Command
import SqlMigration.Proofs.Json.Reading
import Mathlib.Data.List.Nodup

/-! # Alterations are kept in JSON

An alteration that is printed as JSON is read back as it was, whatever its names and defaults hold.
So reading and printing again changes nothing more, however the record was written at first.
-/

namespace SqlMigration

/-! ## Records -/

namespace Json

/-- Where no two fields have one name, a field is found by its name. -/
theorem lookup?_eq_some {fields : List (Text × Json)} {name : Text} {value : Json}
    (hnodup : (fields.map Prod.fst).Nodup) (hmem : (name, value) ∈ fields) :
    lookup? fields name = some value := by
  have hsome : (fields.reverse.find? fun field => field.1 == name).isSome := by
    rw [List.find?_isSome]
    exact ⟨(name, value), List.mem_reverse.mpr hmem, beq_self_eq_true name⟩
  obtain ⟨field, hfind⟩ := Option.isSome_iff_exists.mp hsome
  have hname : field.1 = name := by simpa using List.find?_some hfind
  have hfield : field = (name, value) :=
    List.inj_on_of_nodup_map hnodup (List.mem_reverse.mp (List.mem_of_find?_eq_some hfind)) hmem
      hname
  rw [lookup?, hfind, hfield, Option.map_some]

/-- Where no two fields have one name, none is given twice. -/
theorem repeats_eq_false {fields : List (Text × Json)} (hnodup : (fields.map Prod.fst).Nodup)
    (name : Text) : repeats fields name = false := by
  have hcount : (fields.filter fun field => field.1 == name).length =
      (fields.map Prod.fst).count name := by
    rw [List.count, List.countP_map, List.countP_eq_length_filter]
    rfl
  have hle := List.nodup_iff_count_le_one.mp hnodup name
  simpa [repeats, hcount] using hle

/-- A record whose names differ is read with all of its values, in their order. -/
theorem record?_ofFields (fields : List (String × Json)) (hnodup : (fields.map Prod.fst).Nodup) :
    (ofFields fields).record? ((fields.map Prod.fst).map String.toList) =
      some (fields.map fun field => some field.2) := by
  let named : List (Text × Json) := fields.map fun field => (field.1.toList, field.2)
  have hnames : named.map Prod.fst = (fields.map Prod.fst).map String.toList := by
    simp [named]
  have hnamed : (named.map Prod.fst).Nodup := by
    rw [hnames]
    exact hnodup.map fun a b => String.toList_inj.mp
  have honce : ((fields.map Prod.fst).map String.toList).any (repeats named) = false :=
    List.any_eq_false.mpr fun name _ => by simp [repeats_eq_false hnamed name]
  rw [ofFields, record?, if_neg (by simpa [named] using honce), List.map_map, List.map_map]
  congr 1
  refine List.map_congr_left fun field hfield => lookup?_eq_some hnamed ?_
  exact List.mem_map.mpr ⟨field, hfield, rfl⟩

theorem string?_string (t : Text) : string? (string t) = some t := rfl

theorem list?_map {α : Type} {f : α → Json} {item? : Json → Option α}
    (h : ∀ a, item? (f a) = some a) (as : List α) :
    list? item? (array (as.map f)) = some as := by
  rw [list?, array?, Option.bind_some]
  induction as with
  | nil => rfl
  | cons a as ih => simp [h, ih]

theorem readable_ofFields {depth : Nat} {fields : List (String × Json)}
    (h : fields.Forall fun field => Readable depth field.2) :
    Readable (depth + 1) (ofFields fields) := by
  refine Readable.object fun field hfield => ?_
  obtain ⟨named, hnamed, rfl⟩ := List.mem_map.mp hfield
  exact List.forall_iff_forall_mem.mp h named hnamed

end Json

open Json

/-! ## Columns -/

namespace ColumnType

theorem default?_toJson (value : Option Text) :
    default? (some ((value.map Json.string).getD .null)) = some value := by
  cases value <;> rfl

theorem ofJson?_toJson (c : ColumnType) : ofJson? c.toJson = some c := by
  have hrecord : c.toJson.record?
      (["data_type", "nullable", "primary_key", "identity", "default_value"].map String.toList) =
        some [some (.string c.dataType), some (.bool c.nullable), some (.bool c.primaryKey),
          some (.bool c.identity), some ((c.defaultValue.map Json.string).getD .null)] :=
    record?_ofFields c.fields (by simp [fields])
  simp only [ofJson?, hrecord, string?_string, bool?, default?_toJson, Option.bind_eq_bind,
    Option.bind_some]

theorem readable_toJson (c : ColumnType) : Readable 1 c.toJson := by
  have hdefault : Readable 0 ((c.defaultValue.map Json.string).getD .null) := by
    cases c.defaultValue with
    | none => exact readable_null 0
    | some value => exact readable_string 0 value
  exact readable_ofFields
    ⟨readable_string 0 _, readable_bool 0 _, readable_bool 0 _, readable_bool 0 _, hdefault⟩

end ColumnType

namespace Column

theorem ofJson?_toJson (c : Column) : ofJson? c.toJson = some c := by
  have hrecord : c.toJson.record? ["name".toList, "data_type".toList] =
      some [some (.string c.name), some c.type.toJson] :=
    record?_ofFields c.fields (by simp [fields])
  simp only [ofJson?, hrecord, string?_string, ColumnType.ofJson?_toJson, Option.bind_eq_bind,
    Option.bind_some]

theorem readable_toJson (c : Column) : Readable 2 c.toJson :=
  readable_ofFields ⟨readable_string 1 _, c.type.readable_toJson⟩

end Column

/-! ## Alterations -/

namespace Alteration

/-- The kind is split off a record that names it once. -/
theorem splitKind?_object {kind : Text} {fields : List (Text × Json)}
    (hkind : "kind".toList ∉ fields.map Prod.fst) :
    splitKind? (.object (("kind".toList, .string kind) :: fields)) =
      some (kind, .object fields) := by
  have hne : ∀ field ∈ fields, field.1 ≠ "kind".toList := fun field hfield h =>
    hkind (h ▸ List.mem_map_of_mem hfield)
  have hlookup : lookup? (("kind".toList, .string kind) :: fields) "kind".toList =
      some (.string kind) := by
    have hrest : fields.reverse.find? (fun field => field.1 == "kind".toList) = none := by
      rw [List.find?_eq_none]
      exact fun field hfield => by simpa using hne field (List.mem_reverse.mp hfield)
    rw [lookup?, List.reverse_cons, List.find?_append, hrest]
    rfl
  have hfilter : fields.filter (fun field => field.1 != "kind".toList) = fields :=
    List.filter_eq_self.mpr fun field hfield => bne_iff_ne.mpr (hne field hfield)
  have honce : repeats (("kind".toList, .string kind) :: fields) "kind".toList = false := by
    have hnone : fields.filter (fun field => field.1 == "kind".toList) = [] :=
      List.filter_eq_nil_iff.mpr fun field hfield => by simpa using hne field hfield
    rw [repeats, List.filter_cons_of_pos (by simp), hnone]
    rfl
  rw [splitKind?, honce, if_neg Bool.false_ne_true, hlookup, List.filter_cons_of_neg (by simp),
    hfilter]
  rfl

theorem splitKind?_toJson (a : Alteration) :
    splitKind? a.toJson = some (a.kindName.toList, .ofFields a.fields) := by
  refine splitKind?_object ?_
  cases a <;> simp [fields]

theorem nodup_fields (a : Alteration) : (a.fields.map Prod.fst).Nodup := by
  cases a <;> simp [fields]

theorem ofRecord?_fields (a : Alteration) : ofRecord? a.kindName (.ofFields a.fields) = some a := by
  cases a with
  | addPrimaryKey table constraint columns =>
      have hrecord : (Json.ofFields (fields (.addPrimaryKey table constraint columns))).record?
          (["table", "constraint", "columns"].map String.toList) =
            some [some (.string table), some (.string constraint),
              some (.array (columns.map Json.string))] :=
        record?_ofFields (fields (.addPrimaryKey table constraint columns)) (nodup_fields _)
      have hcolumns := list?_map string?_string columns
      simp only [ofRecord?, kindName, hrecord, string?_string, hcolumns, Option.bind_eq_bind,
        Option.bind_some]
  | dropConstraint table constraint =>
      have hrecord : (Json.ofFields (fields (.dropConstraint table constraint))).record?
          (["table", "constraint"].map String.toList) =
            some [some (.string table), some (.string constraint)] :=
        record?_ofFields (fields (.dropConstraint table constraint)) (nodup_fields _)
      simp only [ofRecord?, kindName, hrecord, string?_string, Option.bind_eq_bind,
        Option.bind_some]
  | addColumns table columns =>
      have hrecord : (Json.ofFields (fields (.addColumns table columns))).record?
          (["table", "columns"].map String.toList) =
            some [some (.string table), some (.array (columns.map Column.toJson))] :=
        record?_ofFields (fields (.addColumns table columns)) (nodup_fields _)
      have hcolumns := list?_map Column.ofJson?_toJson columns
      simp only [ofRecord?, kindName, hrecord, string?_string, hcolumns, Option.bind_eq_bind,
        Option.bind_some]
  | alterColumn table column =>
      have hrecord : (Json.ofFields (fields (.alterColumn table column))).record?
          (["table", "column"].map String.toList) =
            some [some (.string table), some column.toJson] :=
        record?_ofFields (fields (.alterColumn table column)) (nodup_fields _)
      simp only [ofRecord?, kindName, hrecord, string?_string, Column.ofJson?_toJson,
        Option.bind_eq_bind, Option.bind_some]

theorem ofJson?_toJson (a : Alteration) : ofJson? a.toJson = some a := by
  rw [ofJson?, splitKind?_toJson, Option.bind_eq_bind, Option.bind_some]
  dsimp only
  rw [String.ofList_toList]
  exact ofRecord?_fields a

theorem readable_toJson (a : Alteration) : Readable 4 a.toJson := by
  have hstring (t : Text) : Readable 3 (.string t) := readable_string 3 t
  refine readable_ofFields ((List.forall_cons _ _ _).mpr ⟨hstring _, ?_⟩)
  cases a with
  | addPrimaryKey table constraint columns =>
      have hcolumns : Readable 3 (.array (columns.map Json.string)) :=
        Readable.array (List.forall_mem_map.mpr fun column _ => readable_string 2 column)
      exact ⟨hstring table, hstring constraint, hcolumns⟩
  | dropConstraint table constraint => exact ⟨hstring table, hstring constraint⟩
  | addColumns table columns =>
      have hcolumns : Readable 3 (.array (columns.map Column.toJson)) :=
        Readable.array (List.forall_mem_map.mpr fun column _ => column.readable_toJson)
      exact ⟨hstring table, hcolumns⟩
  | alterColumn table column =>
      exact ⟨hstring table, column.readable_toJson.mono (by decide)⟩

/-! ## Texts -/

/-- The alteration that a JSON text holds. -/
def readText? (s : Text) : Option Alteration := (parse? s).bind ofJson?

/-- The alterations that a JSON text lists. -/
def readListing? (s : Text) : Option (List Alteration) := (parse? s).bind (list? ofJson?)

theorem readText?_pretty (a : Alteration) (level : Nat) :
    readText? (a.toJson.pretty level) = some a := by
  rw [readText?, parse?_pretty (a.readable_toJson.mono (by decide)), Option.bind_some,
    ofJson?_toJson]

theorem readListing?_pretty (as : List Alteration) (level : Nat) :
    readListing? ((Json.array (as.map toJson)).pretty level) = some as := by
  have hread : Readable 127 (.array (as.map toJson)) :=
    Readable.array (List.forall_mem_map.mpr fun a _ => a.readable_toJson.mono (by decide))
  rw [readListing?, parse?_pretty hread, Option.bind_some, list?_map ofJson?_toJson]

/-- An alteration is read back from its printed record, and the alterations of a script from the
listing that is printed for it. Whatever was read stays as it is when it is printed and read
again. -/
theorem readText?_printed :
    (∀ (a : Alteration) (level : Nat), readText? (a.toJson.pretty level) = some a) ∧
    (∀ (as : List Alteration) (level : Nat),
      readListing? ((Json.array (as.map toJson)).pretty level) = some as) ∧
    (∀ sql : Text, (Command.run .alter sql).map readListing? =
      (Command.readScript sql).map fun ts => some (Command.alterations ts)) ∧
    (∀ (s : Text) (level : Nat),
      (readText? s).bind (fun a => readText? (a.toJson.pretty level)) = readText? s) ∧
    ∀ json : Json, (ofJson? json).bind (fun a => ofJson? a.toJson) = ofJson? json := by
  refine ⟨readText?_pretty, readListing?_pretty, fun sql => ?_, fun s level => ?_, fun json => ?_⟩
  · rw [Command.run, Command.runAlter]
    cases Command.readScript sql with
    | error e => rfl
    | ok ts => exact congrArg Except.ok (readListing?_pretty _ 0)
  · simp only [readText?_pretty, Option.bind_fun_some]
  · simp only [ofJson?_toJson, Option.bind_fun_some]

-- Unknown fields are passed over, a default may be missing, and records may be given by position.
example :
    let type : Json := .ofFields [("identity", .bool false), ("data_type", .string "int".toList),
      ("nullable", .bool true), ("primary_key", .bool false)]
    ofJson? (.ofFields [("columns", .array [.array [.string "c".toList, type]]), ("note", .null),
        ("table", .string "t".toList), ("kind", .string "add_columns".toList)]) =
      some (.addColumns "t".toList [⟨"c".toList, ⟨"int".toList, true, false, false, none⟩⟩]) := by
  decide +kernel

-- A field that is given twice is refused, and so is a second kind.
example :
    let kind : String × Json := ("kind", .string "drop_constraint".toList)
    let fields : List (String × Json) :=
      [("table", .string "t".toList), ("constraint", .string "k".toList)]
    ofJson? (.ofFields (kind :: fields)) = some (.dropConstraint "t".toList "k".toList) ∧
      ofJson? (.ofFields (kind :: ("table", .string "u".toList) :: fields)) = none ∧
      ofJson? (.ofFields (kind :: kind :: fields)) = none := by
  decide +kernel

end Alteration

end SqlMigration
