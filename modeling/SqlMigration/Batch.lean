import SqlMigration.Alteration.Sql
import SqlMigration.Declaration
import SqlMigration.DynamicSql
import SqlMigration.Expression.Concat
import SqlMigration.Query
import SqlMigration.Statement.Block
import SqlMigration.Statement.Piece

/-! # Batches

A batch is a plain script or the body of a procedure. Its statements are converted one by one, and
the variables they declare are collected on the way.

The statements inside a conditional, a block or a string of dynamic SQL are converted by the same
means. Dynamic SQL is read anew, and for an arbitrary lexer nothing says that it gets shorter, so
the depth is bounded and the conversion may come out as nothing.
-/

namespace SqlMigration.Batch

/-- A conversion that collects variables and may run out of depth. -/
abbrev ConvertM := StateT (List Variable) Option

/-- What a conversion is told: how to read text, and for which target. -/
structure Setting where
  lexer : StatementLexer := .tsql
  dialect : Dialect := .postgres

/-- The words around the parts of a conditional. -/
structure ConditionalForm where
  keyword : String
  opening : String
  closing : String

def ifForm : ConditionalForm := ⟨"IF", "THEN", "END IF;"⟩

def whileForm : ConditionalForm := ⟨"WHILE", "LOOP", "END LOOP;"⟩

/-- An alteration that is understood as a whole, or else a copy of the statement. -/
def alter (s : Setting) (body : List Token) : Text :=
  match Alteration.ofStatement? s.dialect body with
  | some alteration => alteration.toSql
  | none => Expression.emit body

/-- The text of a value, where strings that are added up are joined. -/
def valueText (ts : List Token) : Text := (Expression.concat? ts).getD (Expression.emit ts)

/-- Drops blank space and semicolons from the end. -/
def trimValue (ts : List Token) : List Token :=
  (ts.reverse.dropWhile fun t => t.kind = .blank || t.kind = .semicolon).reverse

/-- `SET` with a variable and an equals sign. -/
def setPattern : Pattern :=
  { steps := [.keyword .SET, (Step.kind .variable).raw, .kind .eq], dialect := .postgres }

/-- An assignment to a variable. Other uses of `SET` are copied. -/
def set (body : List Token) : Text :=
  match setPattern.run? body with
  | some (⟨[name], _⟩, n) =>
      Name.ofVariable name ++ " := ".toList ++ (valueText (trimValue (body.drop n))).trim ++
        [';']
  | _ => Expression.emit body

/-- The assignments of the first values of declared variables, one a line. -/
def assignments (declarations : List Declaration) : Text :=
  ['\n'].intercalate <| declarations.filterMap fun d =>
    d.value.map fun value => d.declared.name ++ " := ".toList ++ value ++ [';']

/-- Collects the variables of a `DECLARE`, and leaves their first values as assignments. -/
def declare (s : Setting) (body : List Token) : ConvertM Text := do
  let (declarations, n) := Declaration.list s.dialect body.tail
  if declarations.isEmpty then return joinText body
  modify (· ++ declarations.map Declaration.declared)
  let rest := body.drop (n + 1)
  return assignments declarations ++ (if isTerminator rest then [] else Expression.emit rest)

/-- A string of statements between quotes that need no escapes. -/
def dollarQuoted (s : Text) : Text := "$exec$".toList ++ s ++ "$exec$".toList

/-- Runs the statements in a variable or in a string. Those in a string are converted by `convert`,
or kept as they are if they cannot be read. -/
def exec (s : Setting) (convert : List Token → ConvertM Text) (body : List Token) :
    ConvertM Text := do
  match DynamicSql.variableArgument? body, DynamicSql.stringArgument? body with
  | some name, _ => return "EXECUTE ".toList ++ Name.ofVariable name ++ [';']
  | none, some sql =>
      let converted ←
        match s.lexer.lex sql with
        | .ok ts => convert ts
        | .error _ => pure sql
      return "EXECUTE ".toList ++ dollarQuoted converted.trim ++ [';']
  | none, none => return Expression.emit body

/-- The statements of one branch of a conditional, without a block around them. -/
def branch (convert : List Token → ConvertM Text) (ts : List Token) : ConvertM Text := do
  if firstKeyword? ts = some .BEGIN then
    match Statement.blockInside? ts with
    | some (inner, _) => return (← convert inner).trim
    | none => return (Expression.emit ts).trim
  else return (← convert ts).trim

/-- A conditional, with its `ELSE` if it has one. -/
def conditional (convert : List Token → ConvertM Text) (form : ConditionalForm)
    (body : List Token) : ConvertM Text := do
  let n := Statement.conditionalLength body
  let statement := body.take n
  let m := Statement.conditionLength statement
  let condition := (Expression.emit (statement.take m).tail).trim
  let opening := form.keyword.toList ++ ' ' :: condition ++ ' ' :: form.opening.toList ++ ['\n']
  let first ← branch convert (statement.drop m)
  let rest := body.drop n
  let second ←
    if firstKeyword? rest = some .ELSE then do
      let text ← branch convert (skipTrivia rest).tail
      pure ("\nELSE\n".toList ++ text)
    else if isTerminator rest then pure []
    else convert rest
  return opening ++ first ++ second ++ '\n' :: form.closing.toList

/-- A block, and whatever follows it in the same statement. A block that never ends is copied. -/
def block (convert : List Token → ConvertM Text) (body : List Token) : ConvertM Text := do
  match Statement.blockInside? body with
  | none => return Expression.emit body
  | some (inner, n) =>
      let text ← convert inner
      let rest := body.drop n
      let after ← if isTerminator rest then pure [] else convert rest
      return "BEGIN".toList ++ text.trimEnd ++ "\nEND;".toList ++ after

/-- Converts one piece of a batch, where `convert` is used for the statements inside it. -/
def statement (s : Setting) (convert : List Token → ConvertM Text) (piece : List Token) :
    ConvertM Text := do
  let lead := joinText (piece.take (triviaLength piece))
  match skipTrivia piece with
  | [] => return lead
  | t :: ts =>
      let body := t :: ts
      let text ←
        match t.keyword? with
        | some .ALTER => pure (alter s body)
        | some .EXEC | some .EXECUTE => exec s convert body
        | some .DECLARE => declare s body
        | some .SET => pure (set body)
        | some .IF => conditional convert ifForm body
        | some .WHILE => conditional convert whileForm body
        | some .BEGIN => if opensTransaction ts then pure (Query.emit body) else block convert body
        | some .GO => pure []
        | _ => pure (Query.emit body)
      return lead ++ text

/-- Converts a list of tokens, going at most `depth` levels deep. Each piece counts as a level, and
so does what stands inside a piece. -/
def convertWithin (s : Setting) : Nat → List Token → ConvertM Text
  | 0, _ => failure
  | _ + 1, [] => pure []
  | depth + 1, t :: ts => do
      let n := Statement.pieceLength s.lexer (t :: ts) - 1
      let text ← statement s (convertWithin s depth) (t :: ts.take n)
      let rest ← convertWithin s depth (ts.drop n)
      return text ++ rest

/-- A depth that no conversion exceeds if reading a text loses nothing and makes no empty tokens:
every level then has fewer characters than the one before it. -/
def depthBound (ts : List Token) : Nat := (joinText ts).length + 1

/-- Converts a list of tokens. -/
def convert (s : Setting) (ts : List Token) : ConvertM Text := convertWithin s (depthBound ts) ts

/-- The section that declares the collected variables, or nothing if there are none. -/
def declareSection : List Variable → Text
  | [] => []
  | declared =>
      "DECLARE\n".toList ++ declared.flatMap fun v =>
        "    ".toList ++ v.name ++ ' ' :: v.typeText ++ ";\n".toList

/-- Why a batch has no conversion. -/
inductive Error where
  /-- The text cannot be read. -/
  | lex (e : LexError)
  /-- The conversion went too deep. -/
  | tooDeep
  deriving DecidableEq, Repr

/-- Reads and converts a script, after scripts that declared the given variables. The conversion
goes at most as many levels deep as `depth` allows. -/
def convertScript (s : Setting) (declared : List Variable) (sql : Text)
    (depth : List Token → Nat := depthBound) : Except Error (Text × List Variable) :=
  match s.lexer.lex sql with
  | .error e => .error (.lex e)
  | .ok ts =>
      match (convertWithin s (depth ts) ts).run declared with
      | some result => .ok result
      | none => .error .tooDeep

/-- What the next of several scripts gives its caller, and the variables that are collected after
it. A script that fails adds none. -/
def convertNext (s : Setting) (declared : List Variable) (sql : Text)
    (depth : List Token → Nat := depthBound) : Except Error Text × List Variable :=
  match convertScript s declared sql depth with
  | .ok (text, after) => (.ok text, after)
  | .error e => (.error e, declared)

/-- Converts scripts one after the other, and goes on after those that fail. -/
def convertAll (s : Setting) (declared : List Variable) (scripts : List Text)
    (depth : List Token → Nat := depthBound) : List (Except Error Text) × List Variable :=
  match scripts with
  | [] => ([], declared)
  | sql :: rest =>
      let (result, after) := convertNext s declared sql depth
      let (results, final) := convertAll s after rest depth
      (result :: results, final)

end SqlMigration.Batch
