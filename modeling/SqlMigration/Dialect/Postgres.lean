import SqlMigration.Dialect.Basic

/-! # PostgreSQL -/

namespace SqlMigration.Dialect

/-- The shape of a PostgreSQL type. -/
inductive TypeShape where
  /-- Always the same text, whatever the arguments. -/
  | fixed (text : String)
  /-- A decimal number with precision and scale. -/
  | decimal
  /-- Characters of a fixed length. -/
  | character
  /-- Characters up to a length, or of any length. -/
  | varying

/-- The shapes of the type names that are known. -/
def typeShapes : List (String × TypeShape) :=
  [ ("bigint", .fixed "bigint"),
    ("int", .fixed "integer"), ("integer", .fixed "integer"),
    ("smallint", .fixed "smallint"), ("tinyint", .fixed "smallint"),
    ("bit", .fixed "boolean"),
    ("real", .fixed "real"), ("float", .fixed "double precision"),
    ("money", .fixed "money"), ("smallmoney", .fixed "money"),
    ("decimal", .decimal), ("numeric", .decimal),
    ("char", .character), ("nchar", .character),
    ("varchar", .varying), ("nvarchar", .varying),
    ("text", .fixed "text"), ("ntext", .fixed "text"), ("xml", .fixed "text"),
    ("sql_variant", .fixed "text"),
    ("binary", .fixed "bytea"), ("varbinary", .fixed "bytea"), ("image", .fixed "bytea"),
    ("timestamp", .fixed "bytea"), ("rowversion", .fixed "bytea"),
    ("date", .fixed "date"), ("time", .fixed "time"),
    ("datetime", .fixed "timestamp"), ("datetime2", .fixed "timestamp"),
    ("smalldatetime", .fixed "timestamp"),
    ("datetimeoffset", .fixed "timestamptz"),
    ("uniqueidentifier", .fixed "uuid") ]

/-- The value that stands beside a spelling. -/
def spelled? {α : Type} (table : List (String × α)) (s : Text) : Option α :=
  (table.find? fun entry => entry.1.toList == s).map Prod.snd

/-- The length of a type in parentheses, if one was given. -/
def lengthArgument : List Text → Text
  | [] => []
  | n :: _ => '(' :: n.trim ++ [')']

/-- Whether the length says that there is no limit. -/
def isUnlimited (n : Text) : Bool := n.trim.eqIgnoringCase "max".toList || n.trim == "-1".toList

/-- The text of a type of a given shape. -/
def TypeShape.render : TypeShape → List Text → Text
  | .fixed text, _ => text.toList
  | .decimal, [] => "numeric".toList
  | .decimal, [p] => "numeric(".toList ++ p.trim ++ [')']
  | .decimal, p :: s :: _ => "numeric(".toList ++ p.trim ++ ", ".toList ++ s.trim ++ [')']
  | .character, args => "char".toList ++ lengthArgument args
  | .varying, args =>
      if args.head?.any isUnlimited then "text".toList
      else "varchar".toList ++ lengthArgument args

/-- The PostgreSQL type for a type name. A name that is not known becomes `text`. -/
def postgresType (name : Text) (args : List Text) : Text :=
  let word := (name.trim.trimWhere ['[', ']', '"'].contains).asciiLower
  ((spelled? typeShapes word).getD (.fixed "text")).render args

/-- The PostgreSQL spelling of the functions that serve as default values. -/
def defaultSpellings : List (String × String) :=
  [ ("getdate()", "now()"), ("sysdatetime()", "now()"), ("current_timestamp", "now()"),
    ("getutcdate()", "(now() at time zone 'utc')"),
    ("sysutcdatetime()", "(now() at time zone 'utc')"),
    ("newid()", "gen_random_uuid()"), ("newsequentialid()", "gen_random_uuid()") ]

/-- A default value for PostgreSQL. What is not known is only trimmed. -/
def postgresDefault (value : Text) : Text :=
  ((spelled? defaultSpellings value.trim.asciiLower).map String.toList).getD value.trim

/-- The PostgreSQL dialect. -/
def postgres : Dialect where
  name := "postgresql"
  mapType := postgresType
  mapDefault := postgresDefault

end SqlMigration.Dialect
