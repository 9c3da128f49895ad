import SqlMigration.Alteration.Basic

/-! # Alterations as SQL -/

namespace SqlMigration.Alteration

/-- A text if a condition holds. -/
def textIf (b : Bool) (s : String) : Text := if b then s.toList else []

/-- The default value of a column. An empty one is left out. -/
def defaultClause : Option Text → Text
  | none | some [] => []
  | some value => " DEFAULT ".toList ++ value

/-- The definition of a column. -/
def columnClause (c : Column) : Text :=
  Name.render c.name ++ ' ' :: c.type.dataType ++
    textIf c.type.identity " generated by default as identity" ++
    textIf (!c.type.nullable) " not null" ++
    defaultClause c.type.defaultValue ++
    textIf c.type.primaryKey " primary key"

/-- The columns of a key, with commas between them. -/
def keyList (columns : List Text) : Text := [','].intercalate columns

/-- The statement that makes the change. -/
def toSql : Alteration → Text
  | addPrimaryKey table constraint columns =>
      "ALTER TABLE ".toList ++ Name.render table ++ " ADD CONSTRAINT ".toList ++
        Name.render constraint ++ " PRIMARY KEY (".toList ++ keyList columns ++ ");".toList
  | dropConstraint table constraint =>
      "ALTER TABLE ".toList ++ Name.render table ++ " DROP CONSTRAINT ".toList ++
        Name.render constraint ++ [';']
  | addColumns table columns =>
      "ALTER TABLE ".toList ++ Name.render table ++
        [','].intercalate (columns.map fun c => " ADD ".toList ++ columnClause c) ++ [';']
  | alterColumn table column =>
      let name := Name.render column.name
      let change := if column.type.nullable then "drop" else "set"
      "ALTER TABLE ".toList ++ Name.render table ++ " alter column ".toList ++ name ++
        " type ".toList ++ column.type.dataType ++ ", alter column ".toList ++ name ++
        ' ' :: change.toList ++ " not null;".toList

end SqlMigration.Alteration
