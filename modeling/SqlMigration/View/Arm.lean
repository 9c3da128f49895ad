import SqlMigration.Expression.Basic
import SqlMigration.Token.Nesting

/-! # The arms of a view

A view takes the names of its columns from its first select list. The columns of a later list are
matched to these by position, so one without a name of its own gets the name from the first list.

An arm is read into fragments, without regard to the names; these are filled in when the fragments
are written.
-/

namespace SqlMigration.View

/-- One position of a select list. -/
structure Position where
  /-- The text through the last significant token. -/
  body : Text := []
  /-- The text after that. -/
  trailing : Text := []
  /-- Whether there is a significant token. -/
  hasContent : Bool := false
  /-- The last name outside parentheses. -/
  lastName : Option Text := none
  /-- The name after `AS`, or right after a value. -/
  aliasName : Option Text := none
  /-- The name before an equals sign, which is written after the value. -/
  assigned : Option Text := none
  /-- The kind of the last significant token. -/
  previous : Option Kind := none
  deriving DecidableEq, Repr

namespace Position

/-- Adds text that is not content. -/
def space (p : Position) (s : Text) : Position := { p with trailing := p.trailing ++ s }

/-- Adds text that ends with a token of kind `k`. -/
def put (p : Position) (s : Text) (k : Kind) : Position :=
  { p with
    body := p.body ++ p.trailing ++ s
    trailing := []
    hasContent := true
    previous := some k }

/-- Whether a name that comes next is an alias, because a value has just ended. -/
def takesAlias (p : Position) : Bool :=
  p.previous.any fun k =>
    k.isIdentifier || k.isString || k.isNumber || k = .rightParen || k = .keyword .END

/-- Whether the position says what its column is called. -/
def isNamed (p : Position) : Bool := p.assigned.isSome || p.aliasName.isSome

/-- The name of the column in the first select list. -/
def name? (p : Position) : Option Text := (p.assigned.or p.aliasName).or p.lastName

/-- The position with its alias, if it gets one. -/
def write (p : Position) (added : Option Text) : Text :=
  p.body ++ (added.elim [] fun name => " AS ".toList ++ Name.render name) ++ p.trailing

/-- Takes in `TOP` and its count. -/
def top (p : Position) (t : Token) (ts : List Token) : Position × Nat :=
  match skipTrivia ts with
  | [] => (p.space t.text, ts.length)
  | u :: rest =>
      let n := triviaLength ts + 1 + if u.kind = .leftParen then groupEnd (u :: rest) else 0
      (p.space (t.text ++ joinText (ts.take n)), n)

/-- Takes in `AS` and the alias after it. -/
def as (p : Position) (t : Token) (ts : List Token) : Position × Nat :=
  let p := p.put t.text t.kind
  match skipTrivia ts with
  | [] => (p, 0)
  | u :: _ =>
      if u.kind.isIdentifier || u.kind.isString then
        let name := Name.normalize u.text
        let n := triviaLength ts
        let p := p.put (joinText (ts.take n) ++ Name.render name) u.asName.kind
        ({ p with lastName := some name, aliasName := some name }, n + 1)
      else (p, 0)

/-- Takes in a name: one that is assigned to, an alias, or a column. -/
def identifier (p : Position) (t : Token) (ts : List Token) : Position × Nat :=
  let name := Name.normalize t.text
  let after := (skipTrivia ts).tail
  if !p.hasContent && (firstSignificant? ts).any fun u => u.kind = .eq then
    ({ p with assigned := some name }, triviaLength ts + 1 + triviaLength after)
  else
    let p := if p.takesAlias then { p with aliasName := some name } else p
    ({ p.put (Name.render t.text) t.kind with lastName := some name }, 0)

/-- Takes in a significant token outside parentheses, and gives the number of tokens after it that
were taken in with it. -/
def token (p : Position) (t : Token) (ts : List Token) : Position × Nat :=
  if t.is .TOP && !p.hasContent then p.top t ts
  else if (t.is .DISTINCT || t.is .ALL) && !p.hasContent then (p.space t.text, 0)
  else if t.is .AS then p.as t ts
  else if t.is .CONVERT || t.isWord "dateadd" then
    let (text, n) := Expression.emitHead t ts
    (p.put text .rightParen, n)
  else if startsWithDbo (t :: ts) then (p, 1)
  else if t.kind.isIdentifier then p.identifier t ts
  else if t.kind = .star then ({ p.put t.text .star with lastName := none }, 0)
  else if t.kind = .variable then (p.put (Name.ofVariable t.text) .variable, 0)
  else (p.put t.text t.kind, 0)

end Position

/-- A part of an arm. -/
inductive Fragment where
  /-- Text as it is written. -/
  | text (s : Text)
  /-- The start of a select list. -/
  | listStart
  /-- A position of the list that has started. -/
  | position (p : Position)
  /-- The end of a select list. -/
  | listEnd
  deriving DecidableEq, Repr

/-- The fragments that end a list, if one has started. -/
def closing : Option Position → List Fragment
  | none => []
  | some p => [.position p, .listEnd]

/-- Whether the token ends a select list. -/
def endsList (t : Token) : Bool :=
  match t.kind with
  | .semicolon => true
  | .keyword k => k.endsSelectList
  | _ => false

/-- The text of a token inside parentheses or outside a select list, the number of tokens after it
that this covers, and the kind of the last of them. -/
def plainText (t : Token) (ts : List Token) : Text × Nat × Kind :=
  if t.kind.isIdentifier && !startsWithDbo (t :: ts) then (Name.render t.text, 0, t.kind)
  else
    let (text, n) := Expression.emitHead t ts
    (text, n, ((t :: ts)[n]?.map Token.kind).getD t.kind)

/-- Reads the fragments of an arm, when `depth` parentheses are open and `p` is the position being
read, if a list has started. -/
def readFrom (depth : Nat) (p : Option Position) : List Token → List Fragment
  | [] => closing p
  | t :: ts =>
      if t.isTrivia then
        match p with
        | some p => readFrom depth (some (p.space t.text)) ts
        | none => .text t.text :: readFrom depth none ts
      else if depth = 0 && t.is .SELECT then
        closing p ++ .text t.text :: .listStart :: readFrom 0 (some {}) ts
      else if depth = 0 && p.isSome && t.kind = .comma then
        (p.map Fragment.position).toList ++ .text t.text :: readFrom 0 (some {}) ts
      else
        let isParen := t.kind = .leftParen || t.kind = .rightParen
        let depth' :=
          match t.kind with
          | .leftParen => depth + 1
          | .rightParen => depth - 1
          | _ => depth
        let (text, n, kind) := plainText t ts
        match p with
        | none => .text text :: readFrom depth' none (ts.drop n)
        | some p =>
            if depth = 0 && endsList t then
              closing (some p) ++ .text text :: readFrom depth' none (ts.drop n)
            else if depth = 0 && !isParen then
              let (p, n) := p.token t ts
              readFrom depth' (some p) (ts.drop n)
            else readFrom depth' (some (p.put text kind)) (ts.drop n)
  termination_by ts => ts.length
  decreasing_by all_goals simp only [List.length_drop, List.length_cons]; omega

/-- The fragments of an arm. -/
def read (ts : List Token) : List Fragment := readFrom 0 none ts

/-- The names of a view's columns, as far as they are known. -/
structure Columns where
  /-- The names from the first select list; a position without one has none. -/
  names : List (Option Text) := []
  /-- Whether the first select list is still to come. -/
  first : Bool := true
  deriving DecidableEq, Repr

namespace Columns

/-- The alias that is written after a position, the `index`-th of its list. -/
def aliasFor? (c : Columns) (index : Nat) (p : Position) : Option Text :=
  if p.assigned.isSome then p.assigned
  else if c.first || p.isNamed then none
  else (c.names[index]?).join

/-- Writes fragments, where `index` positions of the present list have been written. -/
def write (c : Columns) (index : Nat) : List Fragment → Text × Columns
  | [] => ([], c)
  | .text s :: rest =>
      let (out, c) := c.write index rest
      (s ++ out, c)
  | .listStart :: rest => c.write 0 rest
  | .listEnd :: rest => { c with first := false }.write index rest
  | .position p :: rest =>
      if p.hasContent then
        let text := p.write (c.aliasFor? index p)
        let (out, c) :=
          if c.first then { c with names := c.names ++ [p.name?] }.write index rest
          else c.write (index + 1) rest
        (text ++ out, c)
      else
        let (out, c) := c.write index rest
        (p.write none ++ out, c)

/-- The text of an arm, and the names known after it. -/
def convert (c : Columns) (ts : List Token) : Text × Columns := c.write 0 (read ts)

end Columns

end SqlMigration.View
