import SqlMigration.Text.Basic

/-! # Target dialects -/

namespace SqlMigration

/-- How a target database spells data types and default values. -/
structure Dialect where
  name : String
  /-- The target type for a type name and the arguments in its parentheses. -/
  mapType : Text → List Text → Text
  /-- The target spelling of a default value. -/
  mapDefault : Text → Text := id

end SqlMigration
