import SqlMigration.Proofs.Expression.Call
import SqlMigration.Proofs.Token.Lossless
import SqlMigration.View.Arm

/-! # The terms of a select list

A position of a select list is a row of terms, groups of tokens that are written together. What a
position records while it is read follows from its terms.
-/

namespace SqlMigration.View

/-- What a term is for its position. -/
inductive Role where
  /-- Blank space or a comment. -/
  | gap
  /-- `DISTINCT`, `ALL`, or `TOP` with its count. -/
  | clause
  /-- `dbo` and its dot, which are left out. -/
  | qualifier
  /-- A name and the equals sign after it, which are left out. -/
  | target (name : Text)
  /-- `AS` and a name. -/
  | label (name : Text)
  /-- A name right after a value. -/
  | bareAlias (name : Text)
  | name (name : Text)
  | star
  /-- `CONVERT` or `DATEADD` with its arguments. -/
  | call
  | value
  deriving DecidableEq, Repr

structure Term where
  role : Role
  head : Token
  rest : List Token := []
  deriving DecidableEq, Repr

namespace Term

def tokens (x : Term) : List Token := x.head :: x.rest

def last (x : Term) : Token := x.rest.getLastD x.head

/-- Whether the term counts as content of its position. -/
def isContent (x : Term) : Bool :=
  match x.role with
  | .gap | .clause | .qualifier | .target _ => false
  | _ => true

/-- The kind of the last token that is written. -/
def kind (x : Term) : Kind :=
  match x.role with
  | .call => .rightParen
  | .label _ => x.last.asName.kind
  | _ => x.last.kind

def text (x : Term) : Text :=
  match x.role with
  | .gap => joinText x.tokens
  | .clause => if (skipTrivia x.rest).isEmpty then x.head.text else joinText x.tokens
  | .qualifier | .target _ => []
  | .label name => x.head.text ++ joinText x.rest.dropLast ++ Name.render name
  | .bareAlias _ | .name _ => Name.render x.head.text
  | .call => (Expression.emitHead x.head x.rest).1
  | .star | .value => (plainText x.head x.rest).1

def target? (x : Term) : Option Text :=
  match x.role with
  | .target name => some name
  | _ => none

def alias? (x : Term) : Option Text :=
  match x.role with
  | .label name | .bareAlias name => some name
  | _ => none

/-- What the term says about the last name of the position: nothing, that there is none, or the
name. -/
def name? (x : Term) : Option (Option Text) :=
  match x.role with
  | .label name | .bareAlias name | .name name => some (some name)
  | .star => some none
  | _ => none

end Term

/-- Whether a token of this kind can end a value. -/
def endsValue (k : Kind) : Bool :=
  k.isIdentifier || k.isString || k.isNumber || k = .rightParen || k = .keyword .END

namespace Terms

def text (xs : List Term) : Text := xs.flatMap Term.text

def hasContent (xs : List Term) : Bool := xs.any Term.isContent

/-- The terms through the last one that is content. -/
def body (xs : List Term) : List Term := (xs.reverse.dropWhile fun x => !x.isContent).reverse

/-- The terms after the last one that is content. -/
def trailing (xs : List Term) : List Term := (xs.reverse.takeWhile fun x => !x.isContent).reverse

def target? (xs : List Term) : Option Text := xs.reverse.findSome? Term.target?

def alias? (xs : List Term) : Option Text := xs.reverse.findSome? Term.alias?

/-- The last name with no star after it. -/
def lastName? (xs : List Term) : Option Text := (xs.reverse.findSome? Term.name?).join

def lastKind? (xs : List Term) : Option Kind := (xs.reverse.find? Term.isContent).map Term.kind

/-- Whether a name that comes next is an alias. -/
def endInValue (xs : List Term) : Bool := (lastKind? xs).any endsValue

end Terms

/-- The number of tokens of the count after `TOP`, with the gap before it. -/
def countLength (ts : List Token) : Nat :=
  match skipTrivia ts with
  | [] => ts.length
  | u :: rest => triviaLength ts + 1 + if u.kind = .leftParen then groupEnd (u :: rest) else 0

/-- The term that a token starts outside parentheses, after the terms `xs` of its position. -/
def termAt (xs : List Term) (t : Token) (ts : List Token) : Term :=
  if t.is .TOP && !Terms.hasContent xs then ⟨.clause, t, ts.take (countLength ts)⟩
  else if (t.is .DISTINCT || t.is .ALL) && !Terms.hasContent xs then ⟨.clause, t, []⟩
  else if t.is .AS then
    match firstSignificant? ts with
    | some u =>
        if u.kind.isIdentifier || u.kind.isString then
          ⟨.label (Name.normalize u.text), t, ts.take (triviaLength ts + 1)⟩
        else ⟨.value, t, []⟩
    | none => ⟨.value, t, []⟩
  else if t.is .CONVERT || t.isWord "dateadd" then
    ⟨.call, t, ts.take (Expression.callLength ts)⟩
  else if startsWithDbo (t :: ts) then ⟨.qualifier, t, ts.take 1⟩
  else if t.kind.isIdentifier then
    if !Terms.hasContent xs && (firstSignificant? ts).any fun u => u.kind = .eq then
      ⟨.target (Name.normalize t.text), t,
        ts.take (triviaLength ts + 1 + triviaLength (skipTrivia ts).tail)⟩
    else if Terms.endInValue xs then ⟨.bareAlias (Name.normalize t.text), t, []⟩
    else ⟨.name (Name.normalize t.text), t, []⟩
  else if t.kind = .star then ⟨.star, t, []⟩
  else ⟨.value, t, []⟩

/-- The number of tokens that go with `t` inside parentheses or outside a select list. -/
def plainLength (t : Token) (ts : List Token) : Nat :=
  if startsWithDbo (t :: ts) then 1
  else if t.is .CONVERT then Expression.callLength ts
  else 0

/-- The term that a token starts inside parentheses or outside a select list. -/
def plainTermAt (t : Token) (ts : List Token) : Term := ⟨.value, t, ts.take (plainLength t ts)⟩

/-- What is recorded of a position that has these terms. -/
def position (xs : List Term) : Position where
  body := Terms.text (Terms.body xs)
  trailing := Terms.text (Terms.trailing xs)
  hasContent := Terms.hasContent xs
  lastName := Terms.lastName? xs
  aliasName := Terms.alias? xs
  assigned := Terms.target? xs
  previous := Terms.lastKind? xs

/-- A position after one more term. -/
def Position.add (p : Position) (x : Term) : Position :=
  { (if x.isContent then p.put x.text x.kind else p.space x.text) with
    lastName := x.name?.getD p.lastName
    aliasName := x.alias?.or p.aliasName
    assigned := x.target?.or p.assigned }

namespace Terms

@[simp] theorem text_append (xs ys : List Term) : text (xs ++ ys) = text xs ++ text ys := by
  simp [text]

@[simp] theorem text_nil : text [] = [] := rfl

@[simp] theorem text_singleton (x : Term) : text [x] = x.text := by
  simp [text]

theorem body_append_trailing (xs : List Term) : body xs ++ trailing xs = xs := by
  rw [body, trailing, ← List.reverse_append, List.takeWhile_append_dropWhile, List.reverse_reverse]

theorem text_body_append_text_trailing (xs : List Term) :
    text (body xs) ++ text (trailing xs) = text xs := by
  rw [← text_append, body_append_trailing]

theorem body_concat (xs : List Term) (x : Term) :
    body (xs ++ [x]) = if x.isContent then xs ++ [x] else body xs := by
  cases h : x.isContent <;> simp [body, h]

theorem trailing_concat (xs : List Term) (x : Term) :
    trailing (xs ++ [x]) = if x.isContent then [] else trailing xs ++ [x] := by
  cases h : x.isContent <;> simp [trailing, h]

theorem target?_concat (xs : List Term) (x : Term) :
    target? (xs ++ [x]) = x.target?.or (target? xs) := by
  cases h : x.target? <;> simp [target?, h]

theorem alias?_concat (xs : List Term) (x : Term) :
    alias? (xs ++ [x]) = x.alias?.or (alias? xs) := by
  cases h : x.alias? <;> simp [alias?, h]

theorem lastName?_concat (xs : List Term) (x : Term) :
    lastName? (xs ++ [x]) = x.name?.getD (lastName? xs) := by
  cases h : x.name? <;> simp [lastName?, h]

theorem lastKind?_concat (xs : List Term) (x : Term) :
    lastKind? (xs ++ [x]) = if x.isContent then some x.kind else lastKind? xs := by
  cases h : x.isContent <;> simp [lastKind?, h]

theorem hasContent_concat (xs : List Term) (x : Term) :
    hasContent (xs ++ [x]) = (hasContent xs || x.isContent) := by
  simp [hasContent]

end Terms

/-- What is recorded of a position grows term by term. -/
theorem position_concat (xs : List Term) (x : Term) :
    position (xs ++ [x]) = (position xs).add x := by
  simp only [position, Position.add, Terms.body_concat, Terms.trailing_concat,
    Terms.hasContent_concat, Terms.lastName?_concat, Terms.alias?_concat, Terms.target?_concat,
    Terms.lastKind?_concat]
  cases x.isContent with
  | true => simp [Position.put, Terms.text_body_append_text_trailing]
  | false => simp [Position.space]

theorem not_isWord_of_isWord_dbo {t : Token} (h : t.isWord "dbo") : t.isWord "dateadd" = false := by
  simp only [Token.isWord, Bool.and_eq_true, Text.eqIgnoringCase, beq_iff_eq] at h
  simp only [Token.isWord, Text.eqIgnoringCase, h.2]
  simp only [Bool.and_eq_false_iff]
  right
  decide

theorem is_eq_false_of_isIdentifier {t : Token} (h : t.kind.isIdentifier) (k : Keyword) :
    t.is k = false := by
  cases hk : t.kind <;> simp_all [Token.is, Kind.isIdentifier, Kind.identifiers]

theorem isIdentifier_of_isWord {t : Token} {w : String} (h : t.isWord w) : t.kind.isIdentifier :=
  (Bool.and_eq_true_iff.mp h).1

theorem isWord_of_startsWithDbo {t : Token} {ts : List Token} (h : startsWithDbo (t :: ts)) :
    t.isWord "dbo" := by
  cases ts with
  | nil => cases h
  | cons u ts => exact (Bool.and_eq_true_iff.mp h).1

theorem last_take {t : Token} {ts : List Token} {n : Nat} (h : n ≤ ts.length) :
    (t :: ts)[n]? = some ((ts.take n).getLastD t) := by
  cases n with
  | zero => rfl
  | succ n =>
      have hn : n < ts.length := h
      rw [List.getElem?_cons_succ, List.getElem?_eq_getElem hn, List.getLastD_eq_getLast?,
        List.getLast?_take]
      simp [hn]

theorem plainLength_eq_headLength {t : Token} {ts : List Token}
    (h : (t.kind.isIdentifier && !startsWithDbo (t :: ts)) = false) :
    plainLength t ts = Expression.headLength t ts := by
  rw [plainLength, Expression.headLength]
  cases hdbo : startsWithDbo (t :: ts) with
  | true =>
      have hword := isWord_of_startsWithDbo hdbo
      simp [is_eq_false_of_isIdentifier (isIdentifier_of_isWord hword),
        not_isWord_of_isWord_dbo hword]
  | false =>
      have hident : t.kind.isIdentifier = false := by simpa [hdbo] using h
      have hword : t.isWord "dateadd" = false := by simp [Token.isWord, hident]
      simp [hword]

theorem startsWithDbo_take_plainLength (t : Token) (ts : List Token) :
    startsWithDbo (t :: ts.take (plainLength t ts)) = startsWithDbo (t :: ts) := by
  cases hdbo : startsWithDbo (t :: ts) with
  | true =>
      obtain ⟨d, rest, rfl, -⟩ := eq_cons_of_startsWithDbo hdbo
      rw [plainLength, if_pos hdbo]
      exact hdbo
  | false =>
      cases ts with
      | nil => rw [List.take_nil, hdbo]
      | cons u ts =>
          cases plainLength t (u :: ts) with
          | zero => rfl
          | succ n => exact hdbo

/-- The text of a token inside parentheses or outside a select list is that of its term. -/
theorem plainText_eq (t : Token) (ts : List Token) :
    plainText t ts =
      ((plainTermAt t ts).text, (plainTermAt t ts).rest.length, (plainTermAt t ts).kind) := by
  simp only [plainTermAt, Term.text, Term.kind, Term.last, plainText,
    startsWithDbo_take_plainLength]
  cases hname : t.kind.isIdentifier && !startsWithDbo (t :: ts) with
  | true =>
      obtain ⟨hident, hdbo⟩ : t.kind.isIdentifier ∧ startsWithDbo (t :: ts) = false := by
        simpa using hname
      simp [plainLength, hdbo, is_eq_false_of_isIdentifier hident]
  | false =>
      have hle := Expression.headLength_le t ts
      simp only [plainLength_eq_headLength hname, Expression.emitHead_take,
        Expression.snd_emitHead, last_take hle, Option.map_some, Option.getD_some,
        List.length_take, Nat.min_eq_left hle, Bool.false_eq_true, if_false]

namespace Position

variable (p : Position) (t : Token) (ts : List Token)

theorem add_gap : p.add ⟨.gap, t, []⟩ = p.space t.text := by
  simp [add, Term.isContent, Term.text, Term.tokens, joinText, Term.name?, Term.alias?,
    Term.target?, space]

theorem add_clause : p.add ⟨.clause, t, ts⟩ = p.space (Term.text ⟨.clause, t, ts⟩) := rfl

theorem add_qualifier : p.add ⟨.qualifier, t, ts⟩ = p := by
  simp [add, Term.isContent, Term.text, Term.name?, Term.alias?, Term.target?, space]

theorem add_target (name : Text) :
    p.add ⟨.target name, t, ts⟩ = { p with assigned := some name } := by
  simp [add, Term.isContent, Term.text, Term.name?, Term.alias?, Term.target?, space]

theorem add_value : p.add ⟨.value, t, ts⟩ = p.put (plainText t ts).1 (ts.getLastD t).kind := rfl

theorem add_call : p.add ⟨.call, t, ts⟩ = p.put (Expression.emitHead t ts).1 .rightParen := rfl

theorem add_star :
    p.add ⟨.star, t, ts⟩ =
      { p.put (plainText t ts).1 (ts.getLastD t).kind with lastName := none } := rfl

theorem top_eq :
    p.top t ts =
      (p.add ⟨.clause, t, ts.take (countLength ts)⟩, (ts.take (countLength ts)).length) := by
  rw [top, countLength]
  split
  · rename_i hskip
    simp [add_clause, Term.text, hskip]
  · rename_i u rest hskip
    obtain ⟨gap, rfl, hgap, hlen, hu⟩ := eq_append_of_skipTrivia hskip
    have hcount : (if u.kind = .leftParen then groupEnd (u :: rest) else 0) ≤ rest.length := by
      split
      · rename_i hleft
        exact groupEnd_cons_le hleft rest
      · exact Nat.zero_le _
    simp only [hlen, take_gap, add_clause, Term.text, Term.tokens, skipTrivia_gap _ hgap hu]
    simp [Nat.min_eq_left hcount]
    omega

theorem as_eq :
    p.as t ts =
      match firstSignificant? ts with
      | some u =>
          if u.kind.isIdentifier || u.kind.isString then
            (p.add ⟨.label (Name.normalize u.text), t, ts.take (triviaLength ts + 1)⟩,
              (ts.take (triviaLength ts + 1)).length)
          else (p.put t.text t.kind, 0)
      | none => (p.put t.text t.kind, 0) := by
  rw [as, firstSignificant?]
  cases hskip : skipTrivia ts with
  | nil => rfl
  | cons u rest =>
      obtain ⟨gap, rfl, hgap, hlen, hu⟩ := eq_append_of_skipTrivia hskip
      have htake : (gap ++ u :: rest).take (gap.length + 1) = gap ++ [u] := take_gap gap u rest 0
      simp only [hlen, List.head?_cons, htake]
      split
      · simp [add, Term.isContent, Term.text, Term.name?, Term.alias?, Term.target?, Term.kind,
          Term.last, put]
      · rfl

end Position

theorem plainText_nil {t : Token} (h : t.kind.isIdentifier = false) :
    (plainText t []).1 = if t.kind = .variable then Name.ofVariable t.text else t.text := by
  have hword : t.isWord "dateadd" = false := by simp [Token.isWord, h]
  have hemit : (Expression.emitHead t []).1 = Expression.tokenText t := by
    rw [Expression.emitHead, Expression.callArguments?_nil]
    cases hconvert : t.is .CONVERT with
    | true =>
        have hkind : t.kind = .keyword .CONVERT := kind_of_is hconvert
        simp [Expression.tokenText, hkind]
    | false => simp [hword, startsWithDbo]
  simp only [plainText, h, Bool.false_and, Bool.false_eq_true, if_false, hemit,
    Expression.tokenText]
  cases hkind : t.kind <;> simp_all [Kind.isIdentifier, Kind.identifiers]

theorem isIdentifier_of_is {t : Token} {k : Keyword} (h : t.is k) :
    t.kind.isIdentifier = false := by
  cases hident : t.kind.isIdentifier with
  | false => rfl
  | true => simp [is_eq_false_of_isIdentifier hident] at h

theorem ne_variable_of_is {t : Token} {k : Keyword} (h : t.is k) : t.kind ≠ .variable := by
  intro hkind
  simp [Token.is, hkind] at h

/-- Outside parentheses a position takes in the term that its next token starts. -/
theorem token_position (xs : List Term) (t : Token) (ts : List Token) :
    (position xs).token t ts =
      (position (xs ++ [termAt xs t ts]), (termAt xs t ts).rest.length) := by
  have hcontent : (position xs).hasContent = Terms.hasContent xs := rfl
  rw [position_concat, Position.token, hcontent]
  fun_cases termAt xs t ts with
  | case1 htop => rw [if_pos htop, Position.top_eq]
  | case2 htop hall =>
      rw [if_neg htop, if_pos hall]
      rfl
  | case3 htop hall has u hu hname =>
      simp only [if_neg htop, if_neg hall, if_pos has, Position.as_eq, hu, if_pos hname]
  | case4 htop hall has u hu hname =>
      simp only [if_neg htop, if_neg hall, if_pos has, Position.as_eq, hu, if_neg hname,
        Position.add_value, plainText_nil (isIdentifier_of_is has), if_neg (ne_variable_of_is has)]
      rfl
  | case5 htop hall has hnone =>
      simp only [if_neg htop, if_neg hall, if_pos has, Position.as_eq, hnone,
        Position.add_value, plainText_nil (isIdentifier_of_is has), if_neg (ne_variable_of_is has)]
      rfl
  | case6 htop hall has hcall =>
      have hlen : Expression.headLength t ts = Expression.callLength ts := if_pos hcall
      have htake := Expression.emitHead_take t ts
      rw [hlen] at htake
      simp only [if_neg htop, if_neg hall, if_neg has, if_pos hcall, Position.add_call, htake,
        Expression.snd_emitHead, hlen, List.length_take,
        Nat.min_eq_left (Expression.callLength_le ts)]
  | case7 htop hall has hcall hdbo =>
      simp only [if_neg htop, if_neg hall, if_neg has, if_neg hcall, if_pos hdbo,
        Position.add_qualifier]
      obtain ⟨d, rest, rfl, -⟩ := eq_cons_of_startsWithDbo hdbo
      rfl
  | case8 htop hall has hcall hdbo hident htarget =>
      have hle : triviaLength ts + 1 + triviaLength (skipTrivia ts).tail ≤ ts.length := by
        have hgap := triviaLength_add_length_skipTrivia ts
        have hafter := triviaLength_add_length_skipTrivia (skipTrivia ts).tail
        have hlt := triviaLength_lt_of_firstSignificant? (Bool.and_eq_true_iff.mp htarget).2
        rw [List.length_tail] at hafter
        omega
      simp only [if_neg htop, if_neg hall, if_neg has, if_neg hcall, if_neg hdbo, if_pos hident,
        Position.identifier, hcontent, if_pos htarget, Position.add_target, List.length_take,
        Nat.min_eq_left hle]
  | case9 htop hall has hcall hdbo hident htarget hvalue =>
      have halias : (position xs).takesAlias = true := hvalue
      simp only [if_neg htop, if_neg hall, if_neg has, if_neg hcall, if_neg hdbo, if_pos hident,
        Position.identifier, hcontent, if_neg htarget, if_pos halias]
      rfl
  | case10 htop hall has hcall hdbo hident htarget hvalue =>
      have halias : ¬(position xs).takesAlias = true := hvalue
      simp only [if_neg htop, if_neg hall, if_neg has, if_neg hcall, if_neg hdbo, if_pos hident,
        Position.identifier, hcontent, if_neg htarget, if_neg halias]
      rfl
  | case11 htop hall has hcall hdbo hident hstar =>
      have htext := plainText_nil (Bool.eq_false_iff.mpr hident)
      rw [if_neg (by simp [hstar])] at htext
      simp only [if_neg htop, if_neg hall, if_neg has, if_neg hcall, if_neg hdbo,
        Position.add_star, htext, List.getLastD_nil, hstar]
      rfl
  | case12 htop hall has hcall hdbo hident hstar =>
      simp only [if_neg htop, if_neg hall, if_neg has, if_neg hcall, if_neg hdbo, if_neg hident,
        if_neg hstar, Position.add_value, plainText_nil (Bool.eq_false_iff.mpr hident)]
      split
      · rename_i hvariable
        rw [← hvariable]
        rfl
      · rfl

end SqlMigration.View
