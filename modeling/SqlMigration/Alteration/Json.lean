import SqlMigration.Alteration.Basic
import SqlMigration.Json.Basic

/-! # Alterations as JSON

An alteration is a record with its kind as one more field. Records are read by name or by
position, unknown fields are passed over, no field may be given twice, and only the default value of
a column may be missing.
-/

namespace SqlMigration

/-- A record with named fields. -/
def Json.ofFields (fields : List (String × Json)) : Json :=
  .object (fields.map fun (name, value) => (name.toList, value))

/-- Reads a list whose items can all be read. -/
def Json.list? {α : Type} (item? : Json → Option α) (json : Json) : Option (List α) :=
  json.array?.bind fun items => items.mapM item?

namespace ColumnType

def fields (c : ColumnType) : List (String × Json) :=
  [("data_type", .string c.dataType), ("nullable", .bool c.nullable),
    ("primary_key", .bool c.primaryKey), ("identity", .bool c.identity),
    ("default_value", (c.defaultValue.map Json.string).getD .null)]

def toJson (c : ColumnType) : Json := .ofFields c.fields

/-- Reads a default value, which may be missing or null. -/
def default? : Option Json → Option (Option Text)
  | none | some .null => some none
  | some (.string s) => some (some s)
  | _ => none

def ofJson? (json : Json) : Option ColumnType :=
  let names := ["data_type", "nullable", "primary_key", "identity", "default_value"]
  match json.record? (names.map String.toList) with
  | some [some dataType, some nullable, some primaryKey, some identity, value] => do
      some
        { dataType := ← dataType.string?
          nullable := ← nullable.bool?
          primaryKey := ← primaryKey.bool?
          identity := ← identity.bool?
          defaultValue := ← default? value }
  | _ => none

end ColumnType

namespace Column

def fields (c : Column) : List (String × Json) :=
  [("name", .string c.name), ("data_type", c.type.toJson)]

def toJson (c : Column) : Json := .ofFields c.fields

def ofJson? (json : Json) : Option Column :=
  match json.record? ["name".toList, "data_type".toList] with
  | some [some name, some type] => do
      some ⟨← name.string?, ← ColumnType.ofJson? type⟩
  | _ => none

end Column

namespace Alteration

/-- The name of the form of an alteration. -/
def kindName : Alteration → String
  | addPrimaryKey .. => "add_primary_key"
  | dropConstraint .. => "drop_constraint"
  | addColumns .. => "add_columns"
  | alterColumn .. => "alter_column"

/-- The fields of the record of an alteration, without its kind. -/
def fields : Alteration → List (String × Json)
  | addPrimaryKey table constraint columns =>
      [("table", .string table), ("constraint", .string constraint),
        ("columns", .array (columns.map Json.string))]
  | dropConstraint table constraint =>
      [("table", .string table), ("constraint", .string constraint)]
  | addColumns table columns =>
      [("table", .string table), ("columns", .array (columns.map Column.toJson))]
  | alterColumn table column => [("table", .string table), ("column", column.toJson)]

def toJson (a : Alteration) : Json :=
  .ofFields (("kind", .string a.kindName.toList) :: a.fields)

/-- The kind of a record, which is given once, and what is left of the record. -/
def splitKind? : Json → Option (Text × Json)
  | .object fields =>
      if Json.repeats fields "kind".toList then none
      else do
        let kind ← (Json.lookup? fields "kind".toList).bind Json.string?
        some (kind, .object (fields.filter fun field => field.1 != "kind".toList))
  | .array (.string kind :: items) => some (kind, .array items)
  | _ => none

/-- Reads the fields of an alteration of a given kind. -/
def ofRecord? (kind : String) (json : Json) : Option Alteration :=
  let record? (names : List String) := json.record? (names.map String.toList)
  match kind with
  | "add_primary_key" =>
      match record? ["table", "constraint", "columns"] with
      | some [some table, some constraint, some columns] => do
          some (.addPrimaryKey (← table.string?) (← constraint.string?)
            (← columns.list? Json.string?))
      | _ => none
  | "drop_constraint" =>
      match record? ["table", "constraint"] with
      | some [some table, some constraint] => do
          some (.dropConstraint (← table.string?) (← constraint.string?))
      | _ => none
  | "add_columns" =>
      match record? ["table", "columns"] with
      | some [some table, some columns] => do
          some (.addColumns (← table.string?) (← columns.list? Column.ofJson?))
      | _ => none
  | "alter_column" =>
      match record? ["table", "column"] with
      | some [some table, some column] => do
          some (.alterColumn (← table.string?) (← Column.ofJson? column))
      | _ => none
  | _ => none

def ofJson? (json : Json) : Option Alteration := do
  let (kind, rest) ← splitKind? json
  ofRecord? (String.ofList kind) rest

end Alteration

end SqlMigration
