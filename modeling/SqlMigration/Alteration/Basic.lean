import SqlMigration.Pattern

/-! # Alterations of tables

The forms of `ALTER TABLE` that are understood, and how they are recognised at the head of a
statement.
-/

namespace SqlMigration

/-- A change of a table. Names are in normal form when they were read from a statement. -/
inductive Alteration where
  | addPrimaryKey (table constraint : Text) (columns : List Text)
  | dropConstraint (table constraint : Text)
  | addColumns (table : Text) (columns : List Column)
  | alterColumn (table : Text) (column : Column)
  deriving DecidableEq, Repr

namespace Alteration

/-- The steps that every alteration starts with. -/
def opening : List Step := [.keyword .ALTER, .keyword .TABLE, .identifier]

/-- The steps of `ADD CONSTRAINT name PRIMARY KEY`. -/
def keySteps : List Step :=
  [.keyword .ADD, .keyword .CONSTRAINT, .identifier, .keyword .PRIMARY, .keyword .KEY]

/-- The steps of `DROP CONSTRAINT name`. -/
def dropSteps : List Step := [.keyword .DROP, .keyword .CONSTRAINT, .identifier]

/-- The steps of `ADD column`. -/
def addSteps : List Step := [.keyword .ADD, .column]

/-- The steps of each further column that is added. -/
def moreSteps : List Step := [.kind .comma, .column]

/-- The steps of `ALTER COLUMN column`. -/
def alterSteps : List Step := [.keyword .ALTER, .keyword .COLUMN, .column]

/-- The pattern of an alteration that goes on with the given steps. -/
def pattern (d : Dialect) (steps : List Step) (tail : List Step := []) : Pattern :=
  { steps := opening ++ steps, tail, dialect := d }

/-- The key columns up to the closing parenthesis, and the number of tokens through it. The words
for a direction are not columns. -/
def keyColumns : List Token → List Text × Nat
  | [] => ([], 0)
  | t :: ts =>
      if t.kind = .rightParen then ([], 1)
      else
        let (columns, n) := keyColumns ts
        if t.kind.isIdentifier && !(t.isWord "asc" || t.isWord "desc") then
          (Name.normalize t.text :: columns, n + 1)
        else (columns, n + 1)

/-- Whether the token says how a key is stored. -/
def isStorageWord (t : Token) : Bool := t.isWord "clustered" || t.isWord "nonclustered"

/-- `ADD CONSTRAINT name PRIMARY KEY (columns)`, and the position after it. -/
def addPrimaryKey? (d : Dialect) (ts : List Token) : Option (Alteration × Nat) :=
  match (pattern d keySteps).run? ts with
  | some (⟨[table, constraint], _⟩, n) =>
      let rest := ts.drop n
      let gap := (rest.takeWhile fun t => t.isTrivia || isStorageWord t).length
      match rest.drop gap with
      | [] => none
      | t :: inner =>
          if t.kind = .leftParen then
            let (columns, m) := keyColumns inner
            some (.addPrimaryKey table constraint columns, n + gap + 1 + m)
          else none
  | _ => none

/-- `DROP CONSTRAINT name`, and the position after it. -/
def dropConstraint? (d : Dialect) (ts : List Token) : Option (Alteration × Nat) :=
  match (pattern d dropSteps).run? ts with
  | some (⟨[table, constraint], _⟩, n) => some (.dropConstraint table constraint, n)
  | _ => none

/-- `ADD column, ...`, and the position after it. -/
def addColumns? (d : Dialect) (ts : List Token) : Option (Alteration × Nat) :=
  match (pattern d addSteps moreSteps).run? ts with
  | some (⟨[table], columns⟩, n) => some (.addColumns table columns, n)
  | _ => none

/-- `ALTER COLUMN column`, and the position after it. -/
def alterColumn? (d : Dialect) (ts : List Token) : Option (Alteration × Nat) :=
  match (pattern d alterSteps).run? ts with
  | some (⟨[table], [column]⟩, n) => some (.alterColumn table column, n)
  | _ => none

/-- The alteration at the head of a statement, and the position of the first token that it did not
take in. A primary key comes before columns, since `ADD` opens both. -/
def atHead? (d : Dialect) (ts : List Token) : Option (Alteration × Nat) :=
  (addPrimaryKey? d ts).or <|
    (dropConstraint? d ts).or <| (addColumns? d ts).or <| alterColumn? d ts

/-- The alteration that makes up the whole statement, up to semicolons at its end. -/
def ofStatement? (d : Dialect) (ts : List Token) : Option Alteration :=
  match atHead? d ts with
  | some (alteration, n) => if isTerminator (ts.drop n) then some alteration else none
  | none => none

end Alteration

end SqlMigration
