import SqlMigration.Alteration.Json
import SqlMigration.Batch
import SqlMigration.Json.Printer
import SqlMigration.View.Script

/-! # Commands

What the command line offers: from the text of a script to the text that is printed.
-/

namespace SqlMigration

/-- What can be done with a script. -/
inductive Command where
  /-- Convert a script that creates views. -/
  | view
  /-- Convert a plain script or the body of a procedure. -/
  | batch
  /-- Show the pieces a script is cut into. -/
  | split
  /-- List the alterations of tables that are understood. -/
  | alter
  deriving DecidableEq, Repr

namespace Command

/-- Why a command has no output. -/
inductive Error where
  /-- The script cannot be read. -/
  | lex (e : LexError)
  /-- The conversion went too deep. -/
  | tooDeep
  deriving DecidableEq, Repr

/-- The wording of an error. -/
def Error.message : Error → Text
  | lex e => "Input is not valid T-SQL: ".toList ++ e.message
  | tooDeep => "Input is nested too deeply".toList

def Error.ofBatch : Batch.Error → Error
  | .lex e => .lex e
  | .tooDeep => .tooDeep

/-- Reads a script with the lexer of this library. -/
def readScript (sql : Text) : Except Error (List Token) :=
  (StatementLexer.tsql.lex sql).mapError Error.lex

def runView (sql : Text) : Except Error Text :=
  (View.convertScript .tsql sql).mapError Error.lex

/-- The section of variables comes before the statements. -/
def runBatch (sql : Text) : Except Error Text :=
  ((Batch.convertScript {} [] sql).map fun (text, declared) =>
    Batch.declareSection declared ++ text).mapError Error.ofBatch

/-- A piece after a line with its number. -/
def numberedPiece (piece : List Token) (number : Nat) : Text :=
  "-- ---- statement ".toList ++ Nat.toDigits 10 number ++ " ----\n".toList ++
    joinText piece ++ ['\n']

def runSplit (sql : Text) : Except Error Text :=
  (readScript sql).map fun ts =>
    ((Statement.pieces .tsql ts).zipIdx 1).flatMap fun (piece, number) =>
      numberedPiece piece number

/-- The alteration that a piece consists of, if it is one. -/
def alterationOf? (piece : List Token) : Option Alteration :=
  let body := skipTrivia piece
  if firstKeyword? body = some .ALTER then Alteration.ofStatement? .postgres body else none

/-- The alterations of a script that are understood. -/
def alterations (ts : List Token) : List Alteration :=
  (Statement.pieces .tsql ts).filterMap alterationOf?

def runAlter (sql : Text) : Except Error Text :=
  (readScript sql).map fun ts =>
    (Json.array ((alterations ts).map Alteration.toJson)).pretty 0

/-- The output of a command for a script. -/
def run : Command → Text → Except Error Text
  | .view => runView
  | .batch => runBatch
  | .split => runSplit
  | .alter => runAlter

/-- The command with that name. -/
def ofName? : String → Option Command
  | "view" => some .view
  | "batch" => some .batch
  | "split" => some .split
  | "alter" => some .alter
  | _ => none

end Command

end SqlMigration
