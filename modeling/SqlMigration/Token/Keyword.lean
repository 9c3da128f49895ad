import SqlMigration.Text.Basic

/-! # Keywords

The reserved words that shape statements. Names of data types are not among them: they are read
as identifiers.
-/

namespace SqlMigration

/-- A reserved word. -/
inductive Keyword where
  | SELECT | FROM | WHERE | GROUP | ORDER | BY | HAVING | OPTION | DISTINCT | TOP | ALL
  | JOIN | INNER | LEFT | RIGHT | FULL | OUTER | CROSS | ON
  | UNION | INTERSECT | EXCEPT
  | INSERT | INTO | VALUES | UPDATE | SET | DELETE | MERGE
  | CREATE | ALTER | DROP | TRUNCATE | TABLE | VIEW | PROCEDURE | PROC | FUNCTION | INDEX
  | TRIGGER | COLUMN | ADD
  | CONSTRAINT | PRIMARY | KEY | FOREIGN | REFERENCES | UNIQUE | DEFAULT | IDENTITY | CHECK
  | NULL | NOT | AND | OR | IS | IN | EXISTS | LIKE | BETWEEN
  | AS | CASE | WHEN | THEN | ELSE | END | CONVERT
  | IF | WHILE | BEGIN | RETURN
  | DECLARE | CURSOR | FOR | OPEN | FETCH | CLOSE | DEALLOCATE
  | EXEC | EXECUTE | PRINT
  | TRANSACTION | TRAN | COMMIT | ROLLBACK
  | WITH | GO | USE
  deriving DecidableEq, Repr

namespace Keyword

/-- The keyword in capitals. -/
def spelling : Keyword → Text
  | .SELECT => "SELECT".toList
  | .FROM => "FROM".toList
  | .WHERE => "WHERE".toList
  | .GROUP => "GROUP".toList
  | .ORDER => "ORDER".toList
  | .BY => "BY".toList
  | .HAVING => "HAVING".toList
  | .OPTION => "OPTION".toList
  | .DISTINCT => "DISTINCT".toList
  | .TOP => "TOP".toList
  | .ALL => "ALL".toList
  | .JOIN => "JOIN".toList
  | .INNER => "INNER".toList
  | .LEFT => "LEFT".toList
  | .RIGHT => "RIGHT".toList
  | .FULL => "FULL".toList
  | .OUTER => "OUTER".toList
  | .CROSS => "CROSS".toList
  | .ON => "ON".toList
  | .UNION => "UNION".toList
  | .INTERSECT => "INTERSECT".toList
  | .EXCEPT => "EXCEPT".toList
  | .INSERT => "INSERT".toList
  | .INTO => "INTO".toList
  | .VALUES => "VALUES".toList
  | .UPDATE => "UPDATE".toList
  | .SET => "SET".toList
  | .DELETE => "DELETE".toList
  | .MERGE => "MERGE".toList
  | .CREATE => "CREATE".toList
  | .ALTER => "ALTER".toList
  | .DROP => "DROP".toList
  | .TRUNCATE => "TRUNCATE".toList
  | .TABLE => "TABLE".toList
  | .VIEW => "VIEW".toList
  | .PROCEDURE => "PROCEDURE".toList
  | .PROC => "PROC".toList
  | .FUNCTION => "FUNCTION".toList
  | .INDEX => "INDEX".toList
  | .TRIGGER => "TRIGGER".toList
  | .COLUMN => "COLUMN".toList
  | .ADD => "ADD".toList
  | .CONSTRAINT => "CONSTRAINT".toList
  | .PRIMARY => "PRIMARY".toList
  | .KEY => "KEY".toList
  | .FOREIGN => "FOREIGN".toList
  | .REFERENCES => "REFERENCES".toList
  | .UNIQUE => "UNIQUE".toList
  | .DEFAULT => "DEFAULT".toList
  | .IDENTITY => "IDENTITY".toList
  | .CHECK => "CHECK".toList
  | .NULL => "NULL".toList
  | .NOT => "NOT".toList
  | .AND => "AND".toList
  | .OR => "OR".toList
  | .IS => "IS".toList
  | .IN => "IN".toList
  | .EXISTS => "EXISTS".toList
  | .LIKE => "LIKE".toList
  | .BETWEEN => "BETWEEN".toList
  | .AS => "AS".toList
  | .CASE => "CASE".toList
  | .WHEN => "WHEN".toList
  | .THEN => "THEN".toList
  | .ELSE => "ELSE".toList
  | .END => "END".toList
  | .CONVERT => "CONVERT".toList
  | .IF => "IF".toList
  | .WHILE => "WHILE".toList
  | .BEGIN => "BEGIN".toList
  | .RETURN => "RETURN".toList
  | .DECLARE => "DECLARE".toList
  | .CURSOR => "CURSOR".toList
  | .FOR => "FOR".toList
  | .OPEN => "OPEN".toList
  | .FETCH => "FETCH".toList
  | .CLOSE => "CLOSE".toList
  | .DEALLOCATE => "DEALLOCATE".toList
  | .EXEC => "EXEC".toList
  | .EXECUTE => "EXECUTE".toList
  | .PRINT => "PRINT".toList
  | .TRANSACTION => "TRANSACTION".toList
  | .TRAN => "TRAN".toList
  | .COMMIT => "COMMIT".toList
  | .ROLLBACK => "ROLLBACK".toList
  | .WITH => "WITH".toList
  | .GO => "GO".toList
  | .USE => "USE".toList

/-- Every keyword, in the order of the type. -/
def all : List Keyword :=
  [ .SELECT, .FROM, .WHERE, .GROUP, .ORDER, .BY, .HAVING, .OPTION, .DISTINCT, .TOP, .ALL, .JOIN,
    .INNER, .LEFT, .RIGHT, .FULL, .OUTER, .CROSS, .ON, .UNION, .INTERSECT, .EXCEPT, .INSERT,
    .INTO, .VALUES, .UPDATE, .SET, .DELETE, .MERGE, .CREATE, .ALTER, .DROP, .TRUNCATE, .TABLE,
    .VIEW, .PROCEDURE, .PROC, .FUNCTION, .INDEX, .TRIGGER, .COLUMN, .ADD, .CONSTRAINT, .PRIMARY,
    .KEY, .FOREIGN, .REFERENCES, .UNIQUE, .DEFAULT, .IDENTITY, .CHECK, .NULL, .NOT, .AND, .OR,
    .IS, .IN, .EXISTS, .LIKE, .BETWEEN, .AS, .CASE, .WHEN, .THEN, .ELSE, .END, .CONVERT, .IF,
    .WHILE, .BEGIN, .RETURN, .DECLARE, .CURSOR, .FOR, .OPEN, .FETCH, .CLOSE, .DEALLOCATE, .EXEC,
    .EXECUTE, .PRINT, .TRANSACTION, .TRAN, .COMMIT, .ROLLBACK, .WITH, .GO, .USE ]

/-- The keywords by spelling. -/
def spellings : List (Text × Keyword) := all.map fun k => (k.spelling, k)

/-- The keyword spelled by a word, in any case of its letters. -/
def ofText? (s : Text) : Option Keyword :=
  let word := s.asciiUpper
  (spellings.find? fun entry => entry.1 == word).map Prod.snd

/-- Whether the keyword can open a statement of a batch. -/
def startsStatement : Keyword → Bool
  | .SELECT | .INSERT | .UPDATE | .DELETE | .MERGE | .CREATE | .ALTER | .DROP | .TRUNCATE
  | .DECLARE | .SET | .IF | .WHILE | .BEGIN | .RETURN | .EXEC | .EXECUTE | .PRINT | .COMMIT
  | .ROLLBACK | .OPEN | .FETCH | .CLOSE | .DEALLOCATE | .GO | .USE => true
  | _ => false

/-- Whether the keyword ends the select list of a query. -/
def endsSelectList : Keyword → Bool
  | .FROM | .WHERE | .GROUP | .ORDER | .OPTION | .INTO | .UNION | .EXCEPT | .INTERSECT => true
  | _ => false

end Keyword

end SqlMigration
