import SqlMigration.Alteration.Basic
import SqlMigration.Proofs.Token.Nesting

/-! # The grammar of alterations

The alterations that can be written for another dialect, as a grammar over significant tokens:

    ALTER TABLE name ADD col {, col}
    ALTER TABLE name ALTER COLUMN col
    ALTER TABLE name DROP CONSTRAINT name
    ALTER TABLE name ADD CONSTRAINT name PRIMARY KEY {CLUSTERED | NONCLUSTERED} (key {, key})

with semicolons after it. A `col` is a name, a type with or without arguments, and clauses; a
`key` is a name with or without a direction. The scan of a column is more lenient than that. What
it takes in beyond the grammar are the *strays* of a statement.
-/

namespace SqlMigration

/-! ## Sentences -/

namespace Grammar

/-- One `P` or several, with a comma between any two. -/
inductive CommaList (P : List Token → Prop) : List Token → Prop where
  | one {us : List Token} (h : P us) : CommaList P us
  | more {us vs : List Token} {t : Token} (h : P us) (ht : t.kind = .comma)
      (hs : CommaList P vs) : CommaList P (us ++ t :: vs)

/-- A group in parentheses: the first token opens it and the last one closes it. -/
def IsGroup (us : List Token) : Prop :=
  (us.head?.any fun t => t.kind = .leftParen) ∧ closingParen? us = some (us.length - 1)

/-- A name with or without its `dbo` qualifier. -/
inductive IsName : List Token → Prop where
  | plain {t : Token} (ht : t.kind.isIdentifier) : IsName [t]
  | qualified {q dot t : Token} (hq : q.isWord "dbo") (hdot : dot.kind = .dot)
      (ht : t.kind.isIdentifier) : IsName [q, dot, t]

/-- Whether one token of this kind is a value. -/
def isAtom (k : Kind) : Bool :=
  k.isNumber || k.isString || k.isIdentifier || k = .binary || k = .variable || k = .keyword .NULL

/-- What can stand after `DEFAULT`. -/
inductive IsValue : List Token → Prop where
  | atom {t : Token} (ht : isAtom t.kind) : IsValue [t]
  | negative {t n : Token} (ht : t.kind = .minus) (hn : n.kind.isNumber) : IsValue [t, n]
  | group {us : List Token} (h : IsGroup us) : IsValue us
  | call {t : Token} {us : List Token} (ht : t.kind.isIdentifier) (h : IsGroup us) :
      IsValue (t :: us)

inductive IsClause : List Token → Prop where
  | notNull {t u : Token} (ht : t.is .NOT) (hu : u.is .NULL) : IsClause [t, u]
  | null {t : Token} (ht : t.is .NULL) : IsClause [t]
  | identity {t : Token} (ht : t.is .IDENTITY) : IsClause [t]
  | identityFrom {t : Token} {us : List Token} (ht : t.is .IDENTITY) (h : IsGroup us) :
      IsClause (t :: us)
  | primaryKey {t u : Token} (ht : t.is .PRIMARY) (hu : u.is .KEY) : IsClause [t, u]
  | default {t : Token} {us : List Token} (ht : t.is .DEFAULT) (h : IsValue us) :
      IsClause (t :: us)
  | namedDefault {c name t : Token} {us : List Token} (hc : c.is .CONSTRAINT)
      (hname : name.kind.isIdentifier) (ht : t.is .DEFAULT) (h : IsValue us) :
      IsClause (c :: name :: t :: us)

inductive IsClauses : List Token → Prop where
  | nil : IsClauses []
  | append {us vs : List Token} (h : IsClause us) (hs : IsClauses vs) : IsClauses (us ++ vs)

inductive IsColumn : List Token → Prop where
  | intro {name type : Token} {args clauses : List Token} (hname : name.kind.isIdentifier)
      (htype : type.kind.isIdentifier) (hargs : args = [] ∨ IsGroup args)
      (hclauses : IsClauses clauses) : IsColumn (name :: type :: (args ++ clauses))

/-- Whether the token is the word for a direction. -/
def isDirection (t : Token) : Bool := t.isWord "asc" || t.isWord "desc"

inductive IsKey : List Token → Prop where
  | plain {t : Token} (ht : t.kind.isIdentifier) (hword : isDirection t = false) : IsKey [t]
  | directed {t u : Token} (ht : t.kind.isIdentifier) (hword : isDirection t = false)
      (hu : isDirection u) : IsKey [t, u]

/-- What stands before the keys of a primary key. -/
inductive IsKeyHead : List Token → Prop where
  | intro {t u p k : Token} {name storage : List Token} (ht : t.is .ADD) (hu : u.is .CONSTRAINT)
      (hname : IsName name) (hp : p.is .PRIMARY) (hk : k.is .KEY)
      (hstorage : ∀ w ∈ storage, Alteration.isStorageWord w) :
      IsKeyHead (t :: u :: (name ++ p :: k :: storage))

/-- What follows the name of the table. -/
inductive IsAction : List Token → Prop where
  | addColumns {t : Token} {us : List Token} (ht : t.is .ADD) (hs : CommaList IsColumn us) :
      IsAction (t :: us)
  | alterColumn {t u : Token} {us : List Token} (ht : t.is .ALTER) (hu : u.is .COLUMN)
      (h : IsColumn us) : IsAction (t :: u :: us)
  | dropConstraint {t u : Token} {name : List Token} (ht : t.is .DROP) (hu : u.is .CONSTRAINT)
      (hname : IsName name) : IsAction (t :: u :: name)
  | addPrimaryKey {head keys : List Token} {left right : Token} (hhead : IsKeyHead head)
      (hleft : left.kind = .leftParen) (hkeys : CommaList IsKey keys)
      (hright : right.kind = .rightParen) : IsAction (head ++ left :: (keys ++ [right]))

inductive IsOpening : List Token → Prop where
  | intro {t u : Token} {name : List Token} (ht : t.is .ALTER) (hu : u.is .TABLE)
      (hname : IsName name) : IsOpening (t :: u :: name)

/-- A whole alteration of a table. -/
inductive IsAlteration : List Token → Prop where
  | intro {opening action semicolons : List Token} (hopening : IsOpening opening)
      (haction : IsAction action) (hsemicolons : ∀ s ∈ semicolons, s.kind = .semicolon) :
      IsAlteration (opening ++ (action ++ semicolons))

end Grammar

/-! ## Strays -/

namespace Column

/-- Whether the group that opens here, if one does, is closed. -/
def closes (ts : List Token) : Bool :=
  if ts.head?.any fun t => t.kind = .leftParen then (closingParen? ts).isSome else true

/-- Whether a value of the grammar is read at the head of the list. -/
def readsValue : List Token → Bool
  | [] => false
  | t :: ts =>
      if t.kind = .leftParen then closes (t :: ts)
      else
        match skipTrivia ts with
        | [] => Grammar.isAtom t.kind
        | u :: rest =>
            if t.kind.isIdentifier && u.kind = .leftParen then closes (u :: rest)
            else (t.kind = .minus && u.kind.isNumber) || Grammar.isAtom t.kind

/-- Whether the option that starts with `t` is a clause of the grammar, or the name of one. -/
def readsClause (t : Token) (ts : List Token) : Bool :=
  match t.kind with
  | .keyword .NOT => comesNext .NULL ts
  | .keyword .NULL => true
  | .keyword .IDENTITY => closes (skipTrivia ts)
  | .keyword .PRIMARY => comesNext .KEY ts
  | .keyword .CONSTRAINT =>
      match skipTrivia ts with
      | [] => false
      | u :: rest => u.kind.isIdentifier && comesNext .DEFAULT rest
  | .keyword .DEFAULT => readsValue (skipTrivia ts)
  | _ => false

/-- The tokens among the options of a column that belong to no clause. -/
def optionStrays (d : Dialect) (ts : List Token) : List Token :=
  match _h : skipTrivia ts with
  | [] => []
  | t :: rest =>
      match option? d {} t rest with
      | none => []
      | some (_, n) =>
          (if readsClause t rest then [] else t :: significant (rest.take n)) ++
            optionStrays d (rest.drop n)
  termination_by ts.length
  decreasing_by
    have := length_lt_of_skipTrivia_eq_cons _h
    simp only [List.length_drop]
    omega

/-- The strays of the column whose name is `t`. The name itself is one if no type follows, and so
is a type whose arguments do not end. -/
def strays (d : Dialect) (t : Token) (ts : List Token) : List Token :=
  match skipTrivia ts with
  | [] => [t]
  | u :: us =>
      if u.kind.isIdentifier then
        let n := (dataType d u us).2
        (if closes (skipTrivia us) then [] else [u]) ++ optionStrays d (us.drop n)
      else t :: optionStrays d ts

end Column

namespace Alteration

/-- The strays of the columns from here on, with commas between them. -/
def columnStrays (d : Dialect) (ts : List Token) : List Token :=
  match _h : skipTrivia ts with
  | [] => []
  | t :: rest =>
      let n := (Column.define d t rest).2
      Column.strays d t rest ++
        match _hnext : skipTrivia (rest.drop n) with
        | [] => []
        | u :: more => if u.kind = .comma then columnStrays d more else []
  termination_by ts.length
  decreasing_by
    have := Column.length_lt_of_skipTrivia_eq_cons _h
    have := Column.length_lt_of_skipTrivia_eq_cons _hnext
    simp only [List.length_drop] at this
    omega

/-- Whether the significant tokens are keys with commas between them. -/
def readsKeys : List Token → Bool
  | [] => false
  | t :: ts =>
      t.kind.isIdentifier && !Grammar.isDirection t &&
        match ts with
        | [] => true
        | u :: us =>
            if u.kind = .comma then readsKeys us
            else
              Grammar.isDirection u &&
                match us with
                | [] => true
                | v :: vs => v.kind = .comma && readsKeys vs

/-- Whether a key list goes on with the token. -/
def inKeys (t : Token) : Bool := t.kind ≠ .rightParen

/-- All tokens from the start of a key list on, if that is not one of the grammar. -/
def keyStrays (ts : List Token) : List Token :=
  let keys := significant ts.tail
  if !keys.all inKeys && readsKeys (keys.takeWhile inKeys) then [] else significant ts

/-- Whether the token stands before the keys of a primary key. -/
def beforeKeys (t : Token) : Bool := t.kind ≠ .leftParen

/-- Whether the token stands before the keyword that opens the columns. -/
def beforeColumns (t : Token) : Bool := !(t.is .ADD || t.is .COLUMN)

/-- What the scan of an alteration takes in beyond the grammar. -/
def strays (d : Dialect) (ts : List Token) : List Token :=
  if (addPrimaryKey? d ts).isSome then keyStrays (ts.dropWhile beforeKeys)
  else if (dropConstraint? d ts).isSome then []
  else columnStrays d (ts.dropWhile beforeColumns).tail

end Alteration

end SqlMigration
