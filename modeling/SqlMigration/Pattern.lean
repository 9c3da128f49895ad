import SqlMigration.Column

/-! # Patterns of tokens

A pattern is a list of steps and a tail that may repeat. Each step accepts one significant token
and may capture it. Matching is greedy and never goes back.
-/

namespace SqlMigration

/-- What a step keeps of the token it accepts. -/
inductive Capture where
  | nothing
  /-- The text as written. -/
  | raw
  /-- The normalised name, without a `dbo` qualifier that is attached to it. -/
  | identifier
  /-- The whole column definition that starts with this name. -/
  | column
  deriving DecidableEq, Repr

/-- One step: the kinds it accepts, and what it captures. -/
structure Step where
  kinds : List Kind
  capture : Capture := .nothing
  deriving DecidableEq, Repr

namespace Step

def kind (k : Kind) : Step := ⟨[k], .nothing⟩

def keyword (k : Keyword) : Step := kind (.keyword k)

def identifier : Step := ⟨Kind.identifiers, .identifier⟩

def column : Step := ⟨Kind.identifiers, .column⟩

/-- The same step, capturing the text as written. -/
def raw (s : Step) : Step := { s with capture := .raw }

end Step

/-- What the steps of a pattern have captured, in their order. -/
structure Captures where
  values : List Text := []
  columns : List Column := []
  deriving DecidableEq, Repr

instance : Append Captures where
  append a b := ⟨a.values ++ b.values, a.columns ++ b.columns⟩

/-- What comes of a match at a position of a list of tokens. -/
structure Outcome where
  matched : Bool := false
  /-- Nothing is captured unless all steps fit. -/
  captures : Captures := {}
  /-- The position after the match, or the position that did not fit. -/
  stop : Nat
  deriving DecidableEq, Repr

/-- The outcome where `n` more tokens stand in front of the list. -/
def Outcome.shift (n : Nat) (o : Outcome) : Outcome := { o with stop := n + o.stop }

structure Pattern where
  steps : List Step
  /-- Steps that may repeat after the others. -/
  tail : List Step := []
  /-- Whether a comment between two steps keeps them apart. -/
  keepComments : Bool := false
  /-- The dialect of the types and defaults of captured columns. -/
  dialect : Dialect

namespace Pattern

/-- Whether the token is passed over between two steps. -/
def skips (p : Pattern) (t : Token) : Bool :=
  t.kind = .blank || (!p.keepComments && t.kind.isComment)

/-- The name that starts with `t`, and how many of the tokens after `t` belong to it. -/
def nameAt (t : Token) (ts : List Token) : Text × Nat :=
  match ts with
  | _ :: u :: _ =>
      if startsWithDbo (t :: ts) && u.kind.isIdentifier then (Name.normalize u.text, 2)
      else (Name.normalize t.text, 0)
  | _ => (Name.normalize t.text, 0)

/-- The captures of one step and the position after it, or the position that did not fit. -/
def matchStep (p : Pattern) (s : Step) (ts : List Token) : Except Nat (Captures × Nat) :=
  let gap := (ts.takeWhile p.skips).length
  match ts.drop gap with
  | [] => .error gap
  | t :: rest =>
      if s.kinds.contains t.kind then
        match s.capture with
        | .nothing => .ok ({}, gap + 1)
        | .raw => .ok ({ values := [t.text] }, gap + 1)
        | .identifier =>
            let (name, n) := nameAt t rest
            .ok ({ values := [name] }, gap + 1 + n)
        | .column =>
            let (column, n) := Column.define p.dialect t rest
            .ok ({ columns := [column] }, gap + 1 + n)
      else .error gap

/-- The captures of several steps and the position after them, or the position that did not
fit. -/
def matchSteps (p : Pattern) : List Step → List Token → Except Nat (Captures × Nat)
  | [], _ => .ok ({}, 0)
  | s :: steps, ts =>
      match p.matchStep s ts with
      | .error at_ => .error at_
      | .ok (c, n) =>
          match p.matchSteps steps (ts.drop n) with
          | .error at_ => .error (n + at_)
          | .ok (c', m) => .ok (c ++ c', n + m)

/-- The captures of as many repetitions of the tail as fit, and the position after them. -/
def matchTail (p : Pattern) : List Token → Captures × Nat
  | [] => ({}, 0)
  | t :: ts =>
      match p.matchSteps p.tail (t :: ts) with
      | .ok (c, n + 1) =>
          let (c', m) := p.matchTail (ts.drop n)
          (c ++ c', n + 1 + m)
      | _ => ({}, 0)
  termination_by ts => ts.length
  decreasing_by simp only [List.length_drop, List.length_cons]; omega

/-- Matches the head of a list of tokens. The result is what was captured and the position after
the match, or the position of the token that did not fit. The empty list matches nothing. -/
def run (p : Pattern) (ts : List Token) : Except Nat (Captures × Nat) :=
  if ts.isEmpty then .error 0
  else
    match p.matchSteps p.steps ts with
    | .error at_ => .error at_
    | .ok (c, n) =>
        let (c', m) := p.matchTail (ts.drop n)
        .ok (c ++ c', n + m)

/-- Matches at a position of a list of tokens. -/
def runAt (p : Pattern) (ts : List Token) (start : Nat) : Outcome :=
  match p.run (ts.drop start) with
  | .error at_ => { stop := start + at_ }
  | .ok (c, n) => { matched := true, captures := c, stop := start + n }

/-- The captures of a match at the head of the list and the position after it. -/
def run? (p : Pattern) (ts : List Token) : Option (Captures × Nat) := (p.run ts).toOption

end Pattern

end SqlMigration
