import SqlMigration.Command

/-! # Command line

A command and, if given, the file that holds the script. Without a file the script is read from
standard input.
-/

namespace SqlMigration

/-- What was asked for on the command line. -/
structure Options where
  command : Option Command := none
  /-- The file with the script. -/
  input : Option String := none
  deriving DecidableEq, Repr

namespace Options

/-- Reads the arguments from left to right. A later file replaces an earlier one, and there is one
command. -/
def read (options : Options) : List String → Except String Options
  | [] => .ok options
  | "-i" :: path :: rest => read { options with input := some path } rest
  | "--input" :: path :: rest => read { options with input := some path } rest
  | "-v" :: rest => read options rest
  | "--verbose" :: rest => read options rest
  | argument :: rest =>
    match options.command, Command.ofName? argument with
    | none, some command => read { options with command := some command } rest
    | _, _ => .error s!"unexpected argument '{argument}' found"

end Options

/-- The lines of a stream, one after the other. -/
partial def readStream (stream : IO.FS.Stream) (text : String) : IO String := do
  let line ← stream.getLine
  if line.isEmpty then return text else readStream stream (text ++ line)

/-- The script, from the file or from standard input. -/
def readInput : Option String → IO String
  | some path => do
    try IO.FS.readFile path
    catch e => throw (IO.userError s!"Failed to read '{path}': {e}")
  | none => do
    try readStream (← IO.getStdin) ""
    catch e => throw (IO.userError s!"Failed to read '-': {e}")

/-- Runs the command on the script and prints what it gives. -/
def runCommand (command : Command) (input : Option String) : IO UInt32 := do
  let script ← readInput input
  match command.run script.toList with
  | .ok text =>
    IO.println (String.ofList text)
    return 0
  | .error e =>
    IO.eprintln ("Error: " ++ String.ofList e.message)
    return 1

end SqlMigration

open SqlMigration in
def main (args : List String) : IO UInt32 := do
  match Options.read {} args with
  | .error message =>
    IO.eprintln s!"error: {message}"
    return 2
  | .ok options =>
    match options.command with
    | none =>
      IO.eprintln "error: a command is required: view, batch, split or alter"
      return 2
    | some command =>
      try runCommand command options.input
      catch e =>
        IO.eprintln s!"Error: {e}"
        return 1
