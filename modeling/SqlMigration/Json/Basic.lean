import SqlMigration.Text.Basic

/-! # JSON values -/

namespace SqlMigration

/-- A JSON value. A number keeps its spelling, and an object the order of its fields. -/
inductive Json where
  | null
  | bool (b : Bool)
  | number (spelling : Text)
  | string (s : Text)
  | array (items : List Json)
  | object (fields : List (Text × Json))
  deriving Repr

namespace Json

/-- The value of the last field of that name. -/
def lookup? (fields : List (Text × Json)) (name : Text) : Option Json :=
  (fields.reverse.find? fun field => field.1 == name).map Prod.snd

/-- Whether several fields have that name. -/
def repeats (fields : List (Text × Json)) (name : Text) : Bool :=
  1 < (fields.filter fun field => field.1 == name).length

/-- The fields of a record in a given order. An object gives them by name, each at most once, and
may lack some; an array gives them by position and has to hold all of them and nothing else. -/
def record? (names : List Text) : Json → Option (List (Option Json))
  | object fields =>
      if names.any (repeats fields) then none else some (names.map (lookup? fields))
  | array items => if items.length = names.length then some (items.map some) else none
  | _ => none

def string? : Json → Option Text
  | string s => some s
  | _ => none

def bool? : Json → Option Bool
  | bool b => some b
  | _ => none

def array? : Json → Option (List Json)
  | array items => some items
  | _ => none

end Json

end SqlMigration
