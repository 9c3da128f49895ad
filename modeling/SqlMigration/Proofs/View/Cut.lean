import SqlMigration.Proofs.View.Term

/-! # The select lists of an arm

An arm is cut into select lists and the terms outside them. The fragments that are read from the
arm are those of its parts.
-/

namespace SqlMigration.View

/-- The term that a significant token starts after the terms `xs`, when `depth` parentheses are
open. -/
def termWithin (depth : Nat) (xs : List Term) (t : Token) (ts : List Token) : Term :=
  if depth = 0 && t.kind ≠ .leftParen && t.kind ≠ .rightParen then termAt xs t ts
  else plainTermAt t ts

/-- A position of a select list, with the comma after it. -/
structure Item where
  terms : List Term
  comma : Option Token := none
  deriving DecidableEq, Repr

namespace Item

def tokens (x : Item) : List Token := x.terms.flatMap Term.tokens ++ x.comma.toList

def hasContent (x : Item) : Bool := Terms.hasContent x.terms

def fragments (x : Item) : List Fragment :=
  .position (position x.terms) :: (x.comma.map fun t => Fragment.text t.text).toList

end Item

inductive Part where
  /-- A term outside select lists. -/
  | outside (x : Term)
  /-- `SELECT` and the positions after it. -/
  | list (select : Token) (items : List Item)
  deriving DecidableEq, Repr

namespace Part

def tokens : Part → List Token
  | .outside x => x.tokens
  | .list select items => select :: items.flatMap Item.tokens

def items? : Part → Option (List Item)
  | .outside _ => none
  | .list _ items => some items

def fragments : Part → List Fragment
  | .outside x => [.text x.text]
  | .list select items =>
      .text select.text :: .listStart :: (items.flatMap Item.fragments ++ [.listEnd])

end Part

/-- A select list that is being read. -/
structure OpenList where
  select : Token
  /-- The positions before the present one. -/
  items : List Item := []
  /-- The terms of the present position. -/
  terms : List Term := []

namespace OpenList

def add (l : OpenList) (x : Term) : OpenList := { l with terms := l.terms ++ [x] }

def next (l : OpenList) (comma : Token) : OpenList :=
  { l with items := l.items ++ [⟨l.terms, some comma⟩], terms := [] }

def close (l : OpenList) : Part := .list l.select (l.items ++ [⟨l.terms, none⟩])

/-- The term that a significant token starts, when `depth` parentheses are open. -/
def termAt (l : OpenList) (depth : Nat) (t : Token) (ts : List Token) : Term :=
  termWithin depth l.terms t ts

def tokens (l : OpenList) : List Token :=
  l.select :: (l.items.flatMap Item.tokens ++ l.terms.flatMap Term.tokens)

/-- The fragments before the present position. -/
def fragments (l : OpenList) : List Fragment :=
  .text l.select.text :: .listStart :: l.items.flatMap Item.fragments

end OpenList

/-- The parts of an arm, when `depth` parentheses are open and `l` is the list being read. -/
def cutFrom (depth : Nat) : Option OpenList → List Token → List Part
  | none, [] => []
  | some l, [] => [l.close]
  | none, t :: ts =>
      if depth = 0 && t.is .SELECT then cutFrom 0 (some { select := t }) ts
      else
        let x := plainTermAt t ts
        .outside x :: cutFrom (t.depthAfter depth) none (ts.drop x.rest.length)
  | some l, t :: ts =>
      if t.isTrivia then cutFrom depth (some (l.add ⟨.gap, t, []⟩)) ts
      else if depth = 0 && t.is .SELECT then
        l.close :: cutFrom 0 (some { select := t }) ts
      else if depth = 0 && t.kind = .comma then cutFrom 0 (some (l.next t)) ts
      else if depth = 0 && endsList t then
        let x := plainTermAt t ts
        l.close :: .outside x :: cutFrom (t.depthAfter depth) none (ts.drop x.rest.length)
      else
        let x := l.termAt depth t ts
        cutFrom (t.depthAfter depth) (some (l.add x)) (ts.drop x.rest.length)
  termination_by _ ts => ts.length
  decreasing_by all_goals simp only [List.length_drop, List.length_cons]; omega

/-- The parts of an arm. -/
def cut (ts : List Token) : List Part := cutFrom 0 none ts

/-- The last term of a part, if the part does not end with `SELECT` or a comma. -/
def Part.lastTerm? : Part → Option Term
  | .outside x => some x
  | .list _ items => items.getLast?.bind fun x => x.terms.getLast?

/-- The last term of an arm that has these parts. -/
def lastTerm? (parts : List Part) : Option Term := parts.getLast?.bind Part.lastTerm?

theorem isIdentifier_of_isTrivia {t : Token} (h : t.isTrivia) : t.kind.isIdentifier = false := by
  cases hk : t.kind <;>
    simp_all [Token.isTrivia, Kind.isTrivia, Kind.isComment, Kind.isIdentifier, Kind.identifiers]

theorem plainTermAt_of_isTrivia {t : Token} (h : t.isTrivia) (ts : List Token) :
    plainTermAt t ts = ⟨.value, t, []⟩ := by
  have hdbo : startsWithDbo (t :: ts) = false := by
    cases ts <;> simp [startsWithDbo, Token.isWord, isIdentifier_of_isTrivia h]
  simp [plainTermAt, plainLength, hdbo, is_of_isTrivia h]

theorem plainText_of_isTrivia {t : Token} (h : t.isTrivia) : (plainText t []).1 = t.text := by
  rw [plainText_nil (isIdentifier_of_isTrivia h), if_neg]
  intro hkind
  simp [Token.isTrivia, hkind, Kind.isTrivia, Kind.isComment] at h

section Reading

variable {depth : Nat} {t : Token} (ts : List Token)

theorem readFrom_none (h : ¬(depth = 0 && t.is .SELECT)) :
    readFrom depth none (t :: ts) =
      .text (plainTermAt t ts).text ::
        readFrom (t.depthAfter depth) none (ts.drop (plainTermAt t ts).rest.length) := by
  rw [readFrom]
  split
  · rename_i htrivia
    rw [plainTermAt_of_isTrivia htrivia, depthAfter_of_isTrivia htrivia]
    simp [Term.text, plainText_of_isTrivia htrivia]
  · simp only [plainText_eq]
    simp
    rfl

theorem readFrom_select (p : Option Position) (h : t.is .SELECT) :
    readFrom 0 p (t :: ts) =
      closing p ++ .text t.text :: .listStart :: readFrom 0 (some {}) ts := by
  have htrivia : t.isTrivia = false := by
    cases ht : t.isTrivia with
    | false => rfl
    | true => simp [is_of_isTrivia ht] at h
  cases p <;> rw [readFrom] <;> simp [htrivia, h]

theorem readFrom_some_trivia (p : Position) (h : t.isTrivia) :
    readFrom depth (some p) (t :: ts) = readFrom depth (some (p.space t.text)) ts := by
  rw [readFrom, if_pos h]

theorem readFrom_comma (p : Position) (h : t.kind = .comma) :
    readFrom 0 (some p) (t :: ts) =
      .position p :: .text t.text :: readFrom 0 (some {}) ts := by
  rw [readFrom]
  simp [Token.isTrivia, Token.is, Kind.isTrivia, Kind.isComment, h]

theorem readFrom_endsList (p : Position) (htrivia : t.isTrivia = false)
    (hselect : t.is .SELECT = false) (hcomma : t.kind ≠ .comma) (h : endsList t) :
    readFrom 0 (some p) (t :: ts) =
      closing (some p) ++ .text (plainTermAt t ts).text ::
        readFrom (t.depthAfter 0) none (ts.drop (plainTermAt t ts).rest.length) := by
  rw [readFrom]
  simp [htrivia, hselect, hcomma, h, plainText_eq]
  rfl

theorem readFrom_term (l : OpenList) (htrivia : t.isTrivia = false)
    (hselect : ¬(depth = 0 && t.is .SELECT)) (hcomma : ¬(depth = 0 && t.kind = .comma))
    (hends : ¬(depth = 0 && endsList t)) :
    readFrom depth (some (position l.terms)) (t :: ts) =
      readFrom (t.depthAfter depth) (some (position (l.add (l.termAt depth t ts)).terms))
        (ts.drop (l.termAt depth t ts).rest.length) := by
  rw [readFrom]
  simp [htrivia, hselect, hcomma, hends, plainText_eq, token_position]
  split
  · rename_i hfree
    have hterm : l.termAt depth t ts = termAt l.terms t ts := by
      simp [OpenList.termAt, termWithin, hfree]
    rw [hterm]
    rfl
  · rename_i hfree
    have hterm : l.termAt depth t ts = plainTermAt t ts :=
      if_neg (by simpa [and_assoc] using hfree)
    rw [hterm, OpenList.add, position_concat]
    rfl

end Reading

/-- What is read from an arm is what its parts say. -/
theorem readFrom_eq_cutFrom (depth : Nat) (l : Option OpenList) (ts : List Token) :
    l.elim [] OpenList.fragments ++ readFrom depth (l.map fun l => position l.terms) ts =
      (cutFrom depth l ts).flatMap Part.fragments := by
  fun_induction cutFrom depth l ts with
  | case1 depth => simp [readFrom, closing]
  | case2 depth l =>
      simp [readFrom, closing, OpenList.close, Part.fragments, OpenList.fragments, Item.fragments]
  | case3 depth t ts hselect ih =>
      obtain ⟨rfl, hselect⟩ : depth = 0 ∧ t.is .SELECT := by simpa using hselect
      rw [← ih, Option.map_none, readFrom_select ts none hselect]
      rfl
  | case4 depth t ts hselect x ih =>
      rw [List.flatMap_cons, ← ih, Option.map_none, readFrom_none ts hselect]
      rfl
  | case5 depth l t ts htrivia ih =>
      rw [← ih, Option.map_some, readFrom_some_trivia ts _ htrivia, Option.map_some, OpenList.add,
        position_concat, Position.add_gap]
      rfl
  | case6 depth l t ts htrivia hselect ih =>
      obtain ⟨rfl, hselect⟩ : depth = 0 ∧ t.is .SELECT := by simpa using hselect
      rw [List.flatMap_cons, ← ih, Option.map_some, readFrom_select ts _ hselect]
      simp [closing, OpenList.close, Part.fragments, OpenList.fragments, Item.fragments]
      rfl
  | case7 depth l t ts htrivia hselect hcomma ih =>
      obtain ⟨rfl, hkind⟩ : depth = 0 ∧ t.kind = .comma := by simpa using hcomma
      rw [← ih, Option.map_some, readFrom_comma ts _ hkind]
      simp [OpenList.next, OpenList.fragments, Item.fragments]
      rfl
  | case8 depth l t ts htrivia hselect hcomma hends x ih =>
      obtain ⟨rfl, hlast⟩ : depth = 0 ∧ endsList t := by simpa using hends
      rw [List.flatMap_cons, List.flatMap_cons, ← ih, Option.map_some,
        readFrom_endsList ts _ (Bool.eq_false_iff.mpr htrivia) (by simpa using hselect)
          (by simpa using hcomma) hlast]
      simp [closing, OpenList.close, Part.fragments, OpenList.fragments, Item.fragments, x]
  | case9 depth l t ts htrivia hselect hcomma hends x ih =>
      rw [← ih, Option.map_some,
        readFrom_term ts l (Bool.eq_false_iff.mpr htrivia) hselect hcomma hends]
      rfl

theorem read_eq_cut (ts : List Token) : read ts = (cut ts).flatMap Part.fragments :=
  readFrom_eq_cutFrom 0 none ts

/-- Whether a term is made of `t` and the tokens right after it. -/
structure Term.Starts (x : Term) (t : Token) (ts : List Token) : Prop where
  head_eq : x.head = t
  rest_prefix : x.rest <+: ts

theorem Term.Starts.tokens_append_drop {x : Term} {t : Token} {ts : List Token}
    (h : x.Starts t ts) : x.tokens ++ ts.drop x.rest.length = t :: ts := by
  rw [Term.tokens, h.head_eq, List.cons_append, List.prefix_iff_eq_append.mp h.rest_prefix]

theorem starts_plainTermAt (t : Token) (ts : List Token) : (plainTermAt t ts).Starts t ts :=
  ⟨rfl, List.take_prefix _ _⟩

theorem starts_termAt (xs : List Term) (t : Token) (ts : List Token) :
    (termAt xs t ts).Starts t ts := by
  fun_cases termAt xs t ts <;> exact ⟨rfl, by simp [List.take_prefix]⟩

theorem starts_termWithin (depth : Nat) (xs : List Term) (t : Token) (ts : List Token) :
    (termWithin depth xs t ts).Starts t ts := by
  rw [termWithin]
  split
  · exact starts_termAt xs t ts
  · exact starts_plainTermAt t ts

theorem OpenList.starts_termAt (l : OpenList) (depth : Nat) (t : Token) (ts : List Token) :
    (l.termAt depth t ts).Starts t ts :=
  starts_termWithin depth l.terms t ts

/-- The parts of an arm hold all its tokens, in order. -/
theorem flatMap_tokens_cutFrom (depth : Nat) (l : Option OpenList) (ts : List Token) :
    (cutFrom depth l ts).flatMap Part.tokens = l.elim [] OpenList.tokens ++ ts := by
  fun_induction cutFrom depth l ts with
  | case1 depth => rfl
  | case2 depth l => simp [OpenList.close, Part.tokens, OpenList.tokens, Item.tokens]
  | case3 depth t ts hselect ih => simp [ih, OpenList.tokens]
  | case4 depth t ts hselect x ih =>
      rw [List.flatMap_cons, ih]
      exact (starts_plainTermAt t ts).tokens_append_drop
  | case5 depth l t ts htrivia ih =>
      rw [ih]
      simp [OpenList.add, OpenList.tokens, Term.tokens]
  | case6 depth l t ts htrivia hselect ih =>
      simp [ih, OpenList.close, Part.tokens, OpenList.tokens, Item.tokens]
  | case7 depth l t ts htrivia hselect hcomma ih =>
      rw [ih]
      simp [OpenList.next, OpenList.tokens, Item.tokens]
  | case8 depth l t ts htrivia hselect hcomma hends x ih =>
      have htokens := (starts_plainTermAt t ts).tokens_append_drop
      rw [List.flatMap_cons, List.flatMap_cons, ih, Option.elim_none, List.nil_append]
      simp only [Part.tokens, x, htokens]
      simp [OpenList.close, OpenList.tokens, Item.tokens]
  | case9 depth l t ts htrivia hselect hcomma hends x ih =>
      have htokens := (l.starts_termAt depth t ts).tokens_append_drop
      rw [ih]
      simp [OpenList.add, OpenList.tokens, x, htokens]

theorem flatMap_tokens_cut (ts : List Token) : (cut ts).flatMap Part.tokens = ts :=
  flatMap_tokens_cutFrom 0 none ts

/-! ## The last term -/

theorem cutFrom_ne_nil (depth : Nat) {l : Option OpenList} {ts : List Token}
    (h : l.isSome ∨ ts ≠ []) : cutFrom depth l ts ≠ [] := by
  intro hnil
  have htokens := flatMap_tokens_cutFrom depth l ts
  rw [hnil, List.flatMap_nil] at htokens
  obtain ⟨hlist, rfl⟩ := List.append_eq_nil_iff.mp htokens.symm
  cases l with
  | none => simp at h
  | some l => cases hlist

theorem lastTerm?_append (ps : List Part) {qs : List Part} (hqs : qs ≠ []) :
    lastTerm? (ps ++ qs) = lastTerm? qs := by
  simp [lastTerm?, List.getLast?_append, List.getLast?_eq_some_getLast hqs]

theorem lastTerm?_close (l : OpenList) : lastTerm? [l.close] = l.terms.getLast? := by
  simp [lastTerm?, OpenList.close, Part.lastTerm?]

/-! ## Positions, term by term -/

section

variable {P : Nat → List Term → List Token → Prop} {select : Token} {items : List Item}

theorem OpenList.forall_items_close {l : OpenList} {p : List Term → Prop}
    (hitems : ∀ x ∈ l.items, p x.terms) (hterms : p l.terms)
    (h : .list select items = l.close) : ∀ x ∈ items, p x.terms := by
  obtain ⟨-, rfl⟩ : select = l.select ∧ items = l.items ++ [⟨l.terms, none⟩] := by
    simpa [OpenList.close] using h
  intro x hx
  rcases List.mem_append.mp hx with hx | hx
  · exact hitems x hx
  · rwa [List.mem_singleton.mp hx]

/-- What holds before the first term of a position, and is kept when a term is read, holds of
every position of an arm. Here `P depth xs ts` is about the terms `xs` read so far, with `depth`
parentheses open and `ts` behind them. -/
theorem forall_items_cutFrom (hnil : ∀ ts, P 0 [] ts)
    (hgap : ∀ {depth xs t ts}, P depth xs (t :: ts) → t.isTrivia →
      P depth (xs ++ [⟨.gap, t, []⟩]) ts)
    (hterm : ∀ {depth xs t ts}, P depth xs (t :: ts) → t.isTrivia = false →
      P (t.depthAfter depth) (xs ++ [termWithin depth xs t ts])
        (ts.drop (termWithin depth xs t ts).rest.length))
    (depth : Nat) (l : Option OpenList) (ts : List Token)
    (hitems : ∀ x ∈ l.elim [] OpenList.items, ∃ d rest, P d x.terms rest)
    (hterms : ∀ m ∈ l, P depth m.terms ts) (h : .list select items ∈ cutFrom depth l ts) :
    ∀ x ∈ items, ∃ d rest, P d x.terms rest := by
  have hnew (t : Token) (ts : List Token) :
      ∀ m ∈ some { select := t : OpenList }, P 0 m.terms ts := by
    rintro m ⟨⟩
    exact hnil ts
  fun_induction cutFrom depth l ts with
  | case1 depth => cases h
  | case2 depth l =>
      exact OpenList.forall_items_close (p := fun xs => ∃ d rest, P d xs rest) hitems
        ⟨_, _, hterms l rfl⟩ (List.mem_singleton.mp h)
  | case3 depth t ts hselect ih => exact ih (by simp) (hnew t ts) h
  | case4 depth t ts hselect x ih =>
      rcases List.mem_cons.mp h with h | h
      · cases h
      · exact ih (by simp) (by simp) h
  | case5 depth l t ts htrivia ih =>
      refine ih hitems ?_ h
      rintro m ⟨⟩
      exact hgap (hterms l rfl) htrivia
  | case6 depth l t ts htrivia hselect ih =>
      rcases List.mem_cons.mp h with h | h
      · exact OpenList.forall_items_close (p := fun xs => ∃ d rest, P d xs rest) hitems
          ⟨_, _, hterms l rfl⟩ h
      · exact ih (by simp) (hnew t ts) h
  | case7 depth l t ts htrivia hselect hcomma ih =>
      refine ih ?_ ?_ h
      · intro x hx
        rcases List.mem_append.mp hx with hx | hx
        · exact hitems x hx
        · rw [List.mem_singleton.mp hx]
          exact ⟨_, _, hterms l rfl⟩
      · rintro m ⟨⟩
        exact hnil ts
  | case8 depth l t ts htrivia hselect hcomma hends x ih =>
      rcases List.mem_cons.mp h with h | h
      · exact OpenList.forall_items_close (p := fun xs => ∃ d rest, P d xs rest) hitems
          ⟨_, _, hterms l rfl⟩ h
      · rcases List.mem_cons.mp h with h | h
        · cases h
        · exact ih (by simp) (by simp) h
  | case9 depth l t ts htrivia hselect hcomma hends x ih =>
      refine ih hitems ?_ h
      rintro m ⟨⟩
      exact hterm (hterms l rfl) (Bool.eq_false_iff.mpr htrivia)

end

end SqlMigration.View
