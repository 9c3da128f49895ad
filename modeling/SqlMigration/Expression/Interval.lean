import SqlMigration.Decimal.Shortest
import SqlMigration.Text.Parens

/-! # Date arithmetic

`DATEADD(part, amount, date)` becomes the date plus or minus an interval. A literal amount is
written into the interval, any other amount is made one at run time.
-/

namespace SqlMigration.Expression

/-- The unit of an interval, and how many of it one date part is. -/
structure DatePart where
  unit : Text
  factor : Nat

/-- The names of the date parts, with the units that stand for them. -/
def unitNames : List (List String × String) :=
  [ (["year", "yy", "yyyy"], "year"),
    (["month", "mm", "m"], "month"),
    (["week", "wk", "ww"], "week"),
    (["day", "dd", "d", "dayofyear", "dy", "y", "weekday", "dw", "w"], "day"),
    (["hour", "hh"], "hour"),
    (["minute", "mi", "n"], "minute"),
    (["second", "ss", "s"], "second"),
    (["millisecond", "ms"], "millisecond"),
    (["microsecond", "mcs"], "microsecond") ]

/-- The names of a quarter, which has no unit of its own. -/
def quarterNames : List String := ["quarter", "qq", "q"]

/-- Whether one of the names spells the text. -/
def named (names : List String) (s : Text) : Bool := names.any fun name => name.toList == s

/-- The date part that a text names. A name that is not known is taken for a unit. -/
def DatePart.ofText (s : Text) : DatePart :=
  let name := (s.trim.trimWhere ['\'', '"'].contains).asciiLower
  if named quarterNames name then ⟨"month".toList, 3⟩
  else
    match unitNames.find? fun entry => named entry.1 name with
    | some (_, unit) => ⟨unit.toList, 1⟩
    | none => ⟨name, 1⟩

/-- The names of the current time, and the names of the same time in UTC. -/
def nowNames : List String := ["", "getdate()", "getdate", "current_timestamp"]

def utcNames : List String := ["getutcdate()", "getutcdate"]

/-- The date that is counted from. -/
def dateText (s : Text) : Text :=
  let word := Text.asciiLower (s.trim.filter fun c => !Text.isBlank c)
  if named nowNames word then "NOW()".toList
  else if named utcNames word then "TIMEZONE('UTC', NOW())".toList
  else s.trim

/-- Takes a minus sign off the front of an amount. -/
def splitMinus : Text → Bool × Text
  | '-' :: s => (true, Text.trim s)
  | s => (false, s)

/-- The interval of so many date parts, for an amount without its sign. -/
def intervalText (part : DatePart) (amount : Text) : Text :=
  match Binary64.ofText? amount with
  | some x =>
      "INTERVAL '".toList ++ (x.scaleBy part.factor).toText ++ ' ' :: part.unit ++ ['\'']
  | none =>
      let product : Text :=
        if part.factor = 1 then '(' :: amount ++ [')']
        else "((".toList ++ amount ++ ") * ".toList ++ Nat.toDigits 10 part.factor ++ [')']
      '(' :: product ++ "::text || ' ".toList ++ part.unit ++ "')::interval".toList

/-- Date arithmetic from the arguments of a call. Missing ones count as empty. -/
def dateAddText (args : List Text) : Text :=
  let part := DatePart.ofText (args[0]?.getD [])
  let (negative, amount) := splitMinus (Text.stripParens (args[1]?.getD []))
  dateText (args[2]?.getD []) ++ (if negative then " - " else " + ").toList ++
    intervalText part amount

end SqlMigration.Expression
