import SqlMigration.Proofs.Batch.Following
import SqlMigration.Proofs.Query.Comments

/-! # Limits in front of a union

A `TOP` becomes a limit at the end of its query, and each arm of a union is a piece of its own. So
the limit of an arm is written in front of the `UNION` after the arm, where no limit may stand. The
tokens of a script tell which of its limits these are: those whose query is followed by `UNION`, with
nothing that is written between the two.
-/

namespace SqlMigration

open Text

namespace Text

theorem endsSolid_ne_nil {s : Text} (h : endsSolid s) : s ≠ [] := by
  rintro rfl
  cases h

/-- Trimming a text does not reach what stands between solid characters. -/
theorem exists_trim_eq {mid : Text} (hhead : ∀ c ∈ mid.head?, isBlank c = false)
    (hmid : endsSolid mid) (before after : Text) :
    ∃ before', trim (before ++ (mid ++ after)) = before' ++ (mid ++ trimEnd after) := by
  obtain ⟨c, m, rfl⟩ := List.exists_cons_of_ne_nil (endsSolid_ne_nil hmid)
  have hstart : (before ++ (c :: m ++ after)).dropWhile isBlank =
      before.dropWhile isBlank ++ (c :: m ++ after) := by
    rw [List.dropWhile_append]
    split
    · rename_i hblank
      rw [List.isEmpty_iff.mp hblank, List.nil_append, List.cons_append,
        List.dropWhile_cons_of_neg (by simp [hhead c rfl])]
    · rfl
  refine ⟨before.dropWhile isBlank, ?_⟩
  show trimEnd ((before ++ (c :: m ++ after)).dropWhile isBlank) = _
  rw [hstart, ← List.append_assoc, ← List.append_assoc]
  exact trimEnd_append_of_endsSolid (endsSolid_append _ hmid) after

end Text

namespace Query

theorem endsSolid_limit {script : Text} {ts : List Token} {top : Top}
    (hmem : ∀ t ∈ ts, t ∈ tokenize script) (h : top? ts = some top) : endsSolid top.limit := by
  obtain ⟨i, last, hlimit, -⟩ := exists_of_top? h
  rcases exists_of_limitAt? hlimit with ⟨t, hget, hnumber, hvalue, -⟩ | ⟨n, hvalue, -⟩
  · have hspelled := Token.spelled_of_mem_read (hmem t (List.mem_of_getElem? hget))
    rw [hvalue]
    refine hspelled.endsSolid_text ?_ ?_ ?_
    · cases htrivia : t.isTrivia with
      | false => rfl
      | true =>
          rcases kind_of_isTrivia htrivia with hkind | hkind | hkind <;>
            rw [hkind] at hnumber <;> cases hnumber
    · intro hkind
      rw [hkind] at hnumber
      cases hnumber
    · intro hkind
      rw [hkind] at hnumber
      cases hnumber
  · rw [hvalue]
    exact endsSolid_concat _ (by decide)

theorem endsSolid_limitClause {value : Text} (h : endsSolid value) :
    endsSolid (limitClause value) := endsSolid_append _ h

/-- What stands after the limit of a query is a semicolon or blank space. -/
theorem afterLimit_cases (sql : Text) :
    (isClosed sql ∧ ∃ r, afterLimit sql = ';' :: r) ∨
      (isClosed sql = false ∧ ∀ c ∈ afterLimit sql, isBlank c) := by
  unfold afterLimit
  cases hclosed : isClosed sql with
  | true => exact .inl ⟨rfl, _, rfl⟩
  | false =>
      obtain ⟨b, hb, hblank⟩ := exists_trimEnd_append sql
      have hdrop := congrArg (List.drop (trimEnd sql).length) hb
      rw [List.drop_left] at hdrop
      refine .inr ⟨rfl, ?_⟩
      rw [if_neg Bool.false_ne_true, List.nil_append, hdrop]
      exact hblank

end Query

namespace Batch

/-! ## Lists inside a statement -/

/-- The words around the parts of a statement that starts with `t`, if it is a conditional. -/
def conditionalForm? (t : Token) : Option ConditionalForm :=
  match t.keyword? with
  | some .IF => some ifForm
  | some .WHILE => some whileForm
  | _ => none

/-- In `Part s t ts inner tail m` the statement `t :: ts` converts the list `inner`. If the text of
the list ends with `a`, then that of the statement ends with `tail a`, where `m` follows `a`. The
statements in a string are left out: they are a script of their own. -/
inductive Part (s : Setting) (t : Token) (ts : List Token) :
    List Token → (Text → Text) → Next → Prop where
  | first {form : ConditionalForm} {inner : List Token} (hform : conditionalForm? t = some form)
      (hinner : branchList? (firstBranch (t :: ts)) = some inner) :
      Part s t ts inner
        (fun a => a.trimEnd ++
          (secondText (textOf s) (afterBranch (t :: ts)) ++ '\n' :: form.closing.toList))
        (if firstKeyword? (afterBranch (t :: ts)) = some .ELSE ∨
          isTerminator (afterBranch (t :: ts)) then .other else .unclear)
  | second {form : ConditionalForm} {inner : List Token} (hform : conditionalForm? t = some form)
      (helse : firstKeyword? (afterBranch (t :: ts)) = some .ELSE)
      (hinner : branchList? (skipTrivia (afterBranch (t :: ts))).tail = some inner) :
      Part s t ts inner (fun a => a.trimEnd ++ '\n' :: form.closing.toList) .other
  | conditionalRest {form : ConditionalForm} (hform : conditionalForm? t = some form)
      (helse : firstKeyword? (afterBranch (t :: ts)) ≠ some .ELSE)
      (hrest : isTerminator (afterBranch (t :: ts)) = false) :
      Part s t ts (afterBranch (t :: ts)) (fun a => a ++ '\n' :: form.closing.toList) .other
  | block {inner : List Token} {n : Nat} (ht : t.is .BEGIN) (hplain : opensTransaction ts = false)
      (hinner : Statement.blockInside? (t :: ts) = some (inner, n)) :
      Part s t ts inner
        (fun a => a.trimEnd ++ ("\nEND;".toList ++
          if isTerminator ((t :: ts).drop n) then [] else textOf s ((t :: ts).drop n))) .other
  | blockRest {inner : List Token} {n : Nat} (ht : t.is .BEGIN)
      (hplain : opensTransaction ts = false)
      (hinner : Statement.blockInside? (t :: ts) = some (inner, n))
      (hrest : isTerminator ((t :: ts).drop n) = false) :
      Part s t ts ((t :: ts).drop n) id .unclear

theorem infix_of_branchList? {ts inner : List Token} (h : branchList? ts = some inner) :
    inner <:+: ts := by
  unfold branchList? at h
  split at h
  · obtain ⟨⟨inner, n⟩, hblock, rfl⟩ := Option.map_eq_some_iff.mp h
    cases ts with
    | nil => cases hblock
    | cons t ts =>
        exact (Statement.infix_of_blockInside? hblock).1.trans (List.suffix_cons t ts).isInfix
  · cases h
    exact List.infix_rfl

section
variable {s : Setting} {t : Token} {ts inner : List Token} {tail : Text → Text} {m : Next}

theorem Part.isInfix (h : Part s t ts inner tail m) : inner <:+: t :: ts := by
  cases h with
  | first hform hinner =>
      exact (infix_of_branchList? hinner).trans
        ((List.drop_suffix _ _).isInfix.trans (List.take_prefix _ _).isInfix)
  | second hform helse hinner =>
      refine (infix_of_branchList? hinner).trans ?_
      exact ((List.tail_suffix _).trans
        ((List.dropWhile_suffix _).trans (List.drop_suffix _ _))).isInfix
  | conditionalRest => exact (List.drop_suffix _ _).isInfix
  | block ht hplain hinner =>
      exact (Statement.infix_of_blockInside? hinner).1.trans (List.suffix_cons t ts).isInfix
  | blockRest => exact (List.drop_suffix _ _).isInfix

theorem statementText_of_form {form : ConditionalForm} (h : conditionalForm? t = some form) :
    statementText s t ts = conditionalText (textOf s) form (t :: ts) := by
  unfold conditionalForm? at h
  split at h
  · rename_i hk
    cases h
    simp only [statementText, hk]
  · rename_i hk
    cases h
    simp only [statementText, hk]
  · cases h

theorem statementText_of_begin (ht : t.is .BEGIN) (hplain : opensTransaction ts = false) :
    statementText s t ts = blockText (textOf s) (t :: ts) := by
  have hk : t.keyword? = some .BEGIN := by simp [Token.keyword?, kind_of_is ht]
  simp only [statementText, hk, hplain]
  rfl

/-- A limit in the text of a list inside a statement is a limit in the text of the statement. -/
theorem Part.exists_before (h : Part s t ts inner tail m) {value before after : Text}
    (hvalue : endsSolid value)
    (htext : textOf s inner = before ++ (Query.limitClause value ++ after)) :
    ∃ before', statementText s t ts = before' ++ (Query.limitClause value ++ tail after) := by
  have hclause := Query.endsSolid_limitClause hvalue
  have hhead : ∀ c ∈ (Query.limitClause value).head?, isBlank c = false := by
    rintro c ⟨⟩
    decide
  obtain ⟨r, hr⟩ := exists_trim_eq hhead hclause before after
  have hend : trimEnd (before ++ (Query.limitClause value ++ after)) =
      before ++ (Query.limitClause value ++ trimEnd after) := by
    rw [← List.append_assoc, trimEnd_append_of_endsSolid (endsSolid_append before hclause),
      List.append_assoc]
  generalize Query.limitClause value = clause at htext hr hend
  cases h with
  | first hform hinner =>
      rename_i form
      have hbranch : branchText (textOf s) (firstBranch (t :: ts)) =
          r ++ (clause ++ trimEnd after) := by
        rw [branchText, hinner, Option.elim_some, htext, hr]
      refine ⟨conditionalHead form (t :: ts) ++ r, ?_⟩
      rw [statementText_of_form hform, conditionalText, hbranch]
      simp only [List.append_assoc]
  | second hform helse hinner =>
      rename_i form
      have hsecond : secondText (textOf s) (afterBranch (t :: ts)) =
          "\nELSE\n".toList ++ (r ++ (clause ++ trimEnd after)) := by
        rw [secondText, if_pos helse, branchText, hinner, Option.elim_some, htext, hr]
      refine ⟨conditionalHead form (t :: ts) ++ branchText (textOf s) (firstBranch (t :: ts)) ++
        ("\nELSE\n".toList ++ r), ?_⟩
      rw [statementText_of_form hform, conditionalText, hsecond]
      simp only [List.append_assoc]
  | conditionalRest hform helse hrest =>
      rename_i form
      have hsecond : secondText (textOf s) (afterBranch (t :: ts)) =
          before ++ (clause ++ after) := by
        rw [secondText, if_neg helse, hrest, if_neg Bool.false_ne_true, htext]
      refine ⟨conditionalHead form (t :: ts) ++ branchText (textOf s) (firstBranch (t :: ts)) ++
        before, ?_⟩
      rw [statementText_of_form hform, conditionalText, hsecond]
      simp only [List.append_assoc]
  | block ht hplain hinner =>
      refine ⟨"BEGIN".toList ++ before, ?_⟩
      rw [statementText_of_begin ht hplain, blockText, hinner, Option.elim_some]
      dsimp only
      rw [htext, hend]
      simp only [List.append_assoc]
  | blockRest ht hplain hinner hrest =>
      rename_i inner n
      refine ⟨"BEGIN".toList ++ trimEnd (textOf s inner) ++ "\nEND;".toList ++ before, ?_⟩
      rw [statementText_of_begin ht hplain, blockText, hinner, Option.elim_some]
      dsimp only
      rw [hrest, if_neg Bool.false_ne_true, htext]
      simp only [List.append_assoc, id_eq]

end

/-! ## What follows a list inside a statement -/

namespace Agrees

variable {text x : Text} {n : Next}

theorem append (h : Agrees text n) (hn : n ≠ .nothing) (r : Text) : Agrees (text ++ r) n := by
  cases n with
  | nothing => exact absurd rfl hn
  | union | other => exact Opens.append h r
  | unclear => trivial

theorem trimEnd_append (h : Agrees text n) (hx : Opens .UNION false x) :
    Agrees (trimEnd text ++ '\n' :: x) (n.or .other) := by
  cases n with
  | nothing => exact Silent.opens_trimEnd h hx
  | union | other => exact (Opens.trimEnd h).append _
  | unclear => trivial

theorem append_line (h : Agrees text n) (hx : Opens .UNION false x) :
    Agrees (text ++ '\n' :: x) (n.or .other) := by
  cases n with
  | nothing => exact Silent.opens_append h hx
  | union | other => exact Opens.append h _
  | unclear => trivial

theorem trimEnd_append_unclear (h : Agrees text n) (r : Text) :
    Agrees (trimEnd text ++ r) (n.or .unclear) := by
  cases n with
  | nothing | unclear => trivial
  | union | other => exact (Opens.trimEnd h).append _

theorem or_unclear (h : Agrees text n) : Agrees text (n.or .unclear) := by
  cases n with
  | nothing | unclear => trivial
  | union | other => exact h

end Agrees

section
variable {s : Setting} {t : Token} {ts inner : List Token} {tail : Text → Text} {m : Next}

theorem opens_closing {form : ConditionalForm} (h : conditionalForm? t = some form) :
    Opens .UNION false form.closing.toList := by
  have hform : "END".toList <+: form.closing.toList := by
    unfold conditionalForm? at h
    split at h <;> cases h <;> decide
  exact opens_of_isFirm (by decide) hform

theorem Part.agrees (h : Part s t ts inner tail m) {after : Text} {n : Next}
    (hafter : Agrees after n) : Agrees (tail after) (n.or m) := by
  cases h with
  | first hform hinner =>
      have hclosing := opens_closing hform
      dsimp only
      by_cases helse : firstKeyword? (afterBranch (t :: ts)) = some .ELSE
      · have hword : "ELSE".toList <+: "ELSE\n".toList := by decide
        have hline : "\nELSE\n".toList = '\n' :: "ELSE\n".toList := by decide
        rw [if_pos (.inl helse), secondText, if_pos helse, hline, List.append_assoc,
          List.cons_append]
        exact hafter.trimEnd_append ((opens_of_isFirm (by decide) hword).append _)
      · by_cases hrest : isTerminator (afterBranch (t :: ts))
        · rw [if_pos (.inr hrest), secondText, if_neg helse, if_pos hrest]
          exact hafter.trimEnd_append hclosing
        · rw [if_neg (by simp [helse, hrest])]
          exact hafter.trimEnd_append_unclear _
  | second hform helse hinner => exact hafter.trimEnd_append (opens_closing hform)
  | conditionalRest hform helse hrest => exact hafter.append_line (opens_closing hform)
  | block ht hplain hinner =>
      have hword : "END".toList <+: "END;".toList := by decide
      have hline : "\nEND;".toList = '\n' :: "END;".toList := by decide
      rw [hline, List.cons_append]
      exact hafter.trimEnd_append ((opens_of_isFirm (by decide) hword).append _)
  | blockRest => exact hafter.or_unclear

theorem Part.or_ne_nothing (h : Part s t ts inner tail m) (n : Next) : n.or m ≠ .nothing := by
  have hm : m ≠ .nothing := by
    cases h with
    | first => split <;> exact Next.noConfusion
    | second | conditionalRest | block | blockRest => exact Next.noConfusion
  cases n with
  | nothing => exact hm
  | union | other | unclear => exact Next.noConfusion

end

/-! ## Limits -/

/-- In `Writes s ts value after n` a `TOP` of the list sets the limit `value`, and `after` is what
the list's text has after the limit. By the tokens, `after` comes out as `n`. -/
inductive Writes (s : Setting) : List Token → Text → Text → Next → Prop where
  /-- A piece is the query. -/
  | here {ts piece us : List Token} {u : Token} {before after : List (List Token)}
      {top : Query.Top} (hpieces : Statement.pieces s.lexer ts = before ++ piece :: after)
      (hpiece : skipTrivia piece = u :: us) (hquery : emitsQuery u us)
      (htop : Query.top? (u :: us) = some top) :
      Writes s ts top.limit
        (Query.afterLimit (Query.body (Query.kept (u :: us))) ++ piecesText s after)
        (if Query.isClosed (Query.body (Query.kept (u :: us))) then .other else next s after)
  /-- The query is inside a piece. -/
  | within {ts piece us inner : List Token} {u : Token} {before after : List (List Token)}
      {tail : Text → Text} {value text : Text} {n m : Next}
      (hpieces : Statement.pieces s.lexer ts = before ++ piece :: after)
      (hpiece : skipTrivia piece = u :: us) (hpart : Part s u us inner tail m)
      (h : Writes s inner value text n) :
      Writes s ts value (tail text ++ piecesText s after) (n.or m)

/-- A text has the limit in it, with a text after it that opens as is said. -/
structure Placed (text value after : Text) (n : Next) : Prop where
  solid : endsSolid value
  split : ∃ before, text = before ++ (Query.limitClause value ++ after)
  agrees : Agrees after n

theorem Placed.append_left {text value after : Text} {n : Next} (h : Placed text value after n)
    (r : Text) : Placed (r ++ text) value after n := by
  obtain ⟨hsolid, ⟨before, hsplit⟩, hagrees⟩ := h
  exact ⟨hsolid, ⟨r ++ before, by rw [hsplit, List.append_assoc]⟩, hagrees⟩

theorem Placed.within {s : Setting} {t : Token} {ts inner : List Token} {tail : Text → Text}
    {value after : Text} {n m : Next} (hpart : Part s t ts inner tail m)
    (h : Placed (textOf s inner) value after n) (r : Text) :
    Placed (statementText s t ts ++ r) value (tail after ++ r) (n.or m) := by
  obtain ⟨hsolid, ⟨before, hsplit⟩, hagrees⟩ := h
  obtain ⟨before', hbefore⟩ := hpart.exists_before hsolid hsplit
  refine ⟨hsolid, ⟨before', ?_⟩, (hpart.agrees hagrees).append (hpart.or_ne_nothing n) r⟩
  rw [hbefore, List.append_assoc, List.append_assoc]

/-! ## Plain queries -/

/-- Whether a piece is emitted as a query and has neither calls nor an `INTO` in it. -/
def isPlainQuery (piece : List Token) : Bool :=
  let body := skipTrivia piece
  (body.head?.any fun u => emitsQuery u body.tail) && (Query.into? (Query.kept body)).isNone &&
    (Query.kept body).all Expression.isPlainToken

/-- The text of a plain query without its limit. -/
def plainBody (piece : List Token) : Text :=
  (Query.kept (skipTrivia piece)).flatMap Expression.tokenText

/-- The text of a plain query. -/
def plainQueryText (piece : List Token) : Text :=
  leadOf piece ++ (Query.top? (skipTrivia piece)).elim (plainBody piece) fun top =>
    Query.withLimit top.limit (plainBody piece)

theorem exists_of_isPlainQuery {piece : List Token} (h : isPlainQuery piece) :
    ∃ u us, skipTrivia piece = u :: us ∧ emitsQuery u us ∧
      Query.body (Query.kept (u :: us)) = plainBody piece := by
  simp only [isPlainQuery, Bool.and_eq_true, Option.isNone_iff_eq_none] at h
  obtain ⟨⟨hquery, hinto⟩, hplain⟩ := h
  obtain ⟨u, hu, hquery⟩ := (Option.any_eq_true _ _).mp hquery
  obtain ⟨us, hus⟩ := List.head?_eq_some_iff.mp hu
  rw [hus] at hquery
  refine ⟨u, us, hus, hquery, ?_⟩
  rw [← hus, Query.body, hinto]
  exact Expression.emit_of_isPlainToken hplain

theorem pieceText_of_isPlainQuery (s : Setting) {piece : List Token} (h : isPlainQuery piece) :
    pieceText s piece = plainQueryText piece := by
  obtain ⟨u, us, hpiece, hquery, hbody⟩ := exists_of_isPlainQuery h
  rw [pieceText_cons hpiece, statementText_of_emitsQuery s hquery, Query.emit, hbody,
    plainQueryText, hpiece]
  cases Query.top? (u :: us) <;> rfl

theorem piecesText_of_isPlainQuery {s : Setting} {ps : List (List Token)}
    (h : ps.all isPlainQuery) : piecesText s ps = ps.flatMap plainQueryText := by
  induction ps with
  | nil => rfl
  | cons piece ps ih =>
      obtain ⟨hpiece, hps⟩ := Bool.and_eq_true_iff.mp h
      rw [List.flatMap_cons, ← ih hps, ← pieceText_of_isPlainQuery s hpiece]
      rfl

theorem exists_writes (s : Setting) {ts : List Token} {value : Text} {n : Next}
    (before : List (List Token)) (piece : List Token) (after : List (List Token))
    (hpieces : Statement.pieces s.lexer ts = before ++ piece :: after)
    (hplain : isPlainQuery piece)
    (hlimit : (Query.top? (skipTrivia piece)).map Query.Top.limit = some value)
    (hopen : Query.isClosed (plainBody piece) = false) (hnext : next s after = n) :
    ∃ text, Writes s ts value text n := by
  obtain ⟨u, us, hpiece, hquery, hbody⟩ := exists_of_isPlainQuery hplain
  rw [hpiece] at hlimit
  obtain ⟨top, htop, rfl⟩ := Option.map_eq_some_iff.mp hlimit
  have hwrites := Writes.here hpieces hpiece hquery htop
  rw [hbody, hopen, if_neg Bool.false_ne_true, hnext] at hwrites
  exact ⟨_, hwrites⟩

section
variable {script : Text} {s : Setting}

theorem placed_query {u : Token} {us : List Token} {after : List (List Token)} {top : Query.Top}
    (hts : u :: (us ++ after.flatten) <:+: tokenize script) (hquery : emitsQuery u us)
    (htop : Query.top? (u :: us) = some top) :
    Placed (statementText s u us ++ piecesText s after) top.limit
      (Query.afterLimit (Query.body (Query.kept (u :: us))) ++ piecesText s after)
      (if Query.isClosed (Query.body (Query.kept (u :: us))) then .other else next s after) := by
  have hsolid : endsSolid top.limit :=
    Query.endsSolid_limit (fun v hv => hts.subset (List.mem_append_left _ hv)) htop
  have hafter : after.flatten <:+: tokenize script :=
    (List.suffix_append (u :: us) _).isInfix.trans hts
  have hemit : statementText s u us =
      Query.withLimit top.limit (Query.body (Query.kept (u :: us))) := by
    rw [statementText_of_emitsQuery s hquery, Query.emit, htop]
  generalize Query.body (Query.kept (u :: us)) = sql at hemit
  refine ⟨hsolid, ⟨Query.beforeLimit sql ++ [' '], ?_⟩, ?_⟩
  · rw [hemit, Query.withLimit_eq]
    simp only [List.append_assoc, List.cons_append, List.nil_append]
  · rcases Query.afterLimit_cases sql with ⟨hclosed, r, hr⟩ | ⟨hclosed, hblank⟩
    · rw [hr, hclosed]
      have hlast : ∀ d ∈ [';'].getLast?, isBlank d = false := by
        rintro d ⟨⟩
        decide
      exact (opens_of_clashes (by decide) (by decide) hlast r).append _
    · rw [hclosed, if_neg Bool.false_ne_true]
      exact (agrees_next hafter).blank_append hblank

variable (hlexer : s.lexer.Lossless)
include hlexer

theorem textOf_of_isInfix {ts : List Token} (hts : ts <:+: tokenize script) :
    textOf s ts = piecesText s (Statement.pieces s.lexer ts) :=
  textOf_eq_piecesText hlexer fun _ ht =>
    Token.text_ne_nil_of_mem_read .unicode (hts.subset ht)

/-- The text of a list of tokens from a statement in it on. -/
theorem exists_textOf_eq {ts piece us : List Token} {u : Token} {before after : List (List Token)}
    (hts : ts <:+: tokenize script)
    (hpieces : Statement.pieces s.lexer ts = before ++ piece :: after)
    (hpiece : skipTrivia piece = u :: us) :
    u :: (us ++ after.flatten) <:+: tokenize script ∧
      ∃ r, textOf s ts = r ++ (statementText s u us ++ piecesText s after) := by
  obtain ⟨gap, hgap, -, -, -⟩ := exists_gap_of_piece hpiece
  have hflat : (Statement.pieces s.lexer ts).flatten = ts :=
    (Statement.run_pieces s.lexer ts 0).flatten
  constructor
  · rw [← hflat, hpieces, List.flatten_append, List.flatten_cons, hgap, List.append_assoc] at hts
    exact ((List.suffix_append gap _).trans (List.suffix_append _ _)).isInfix.trans hts
  · refine ⟨piecesText s before ++ leadOf piece, ?_⟩
    rw [textOf_of_isInfix hlexer hts, hpieces]
    simp only [piecesText, List.flatMap_append, List.flatMap_cons, pieceText_cons hpiece,
      List.append_assoc]

/-- The text of a list of tokens has each of its limits where it is said to be. -/
theorem placed_of_writes {ts : List Token} {value after : Text} {n : Next}
    (h : Writes s ts value after n) (hts : ts <:+: tokenize script) :
    Placed (textOf s ts) value after n := by
  induction h with
  | here hpieces hpiece hquery htop =>
      obtain ⟨hstatement, r, htext⟩ := exists_textOf_eq hlexer hts hpieces hpiece
      rw [htext]
      exact (placed_query hstatement hquery htop).append_left r
  | within hpieces hpiece hpart h ih =>
      obtain ⟨hstatement, r, htext⟩ := exists_textOf_eq hlexer hts hpieces hpiece
      have hinner := hpart.isInfix.trans ((List.prefix_append _ _).isInfix.trans hstatement)
      rw [htext]
      exact (Placed.within hpart (ih hinner) _).append_left r

end

/-- A script that can be read has a conversion with all limits in it. The text after a limit opens
with `UNION` if and only if this follows the query in the script, unless the script does not tell
what the text opens with. -/
theorem union_after_limit_iff (d : Dialect) (declared : List Variable) {script : Text}
    {ts : List Token} (hlex : StatementLexer.tsql.lex script = .ok ts) :
    ∃ out vars, convertScript ⟨.tsql, d⟩ declared script = .ok (out, vars) ∧
      ∀ value after n, Writes ⟨.tsql, d⟩ ts value after n →
        (∃ before, out = before ++ (Query.limitClause value ++ after)) ∧
        (n ≠ .unclear → (leadsWith .UNION after ↔ n = .union)) := by
  have hlexer := StatementLexer.lossless_tsql
  obtain ⟨vars, hconvert⟩ := exists_convertScript (s := ⟨.tsql, d⟩) hlexer declared hlex
  refine ⟨_, vars, hconvert, fun value after n hwrites => ?_⟩
  have hts : ts <:+: tokenize script :=
    StatementLexer.eq_tokenize_of_lex hlex ▸ List.infix_rfl
  have hplaced := placed_of_writes hlexer hwrites hts
  exact ⟨hplaced.split, hplaced.agrees.leadsWith_iff⟩

theorem union_after_limit_iff_branches :
    let script := "IF @a = 1 SELECT TOP 1 a ELSE SELECT TOP 2 b UNION ALL SELECT c".toList
    let ts := tokenize script
    StatementLexer.tsql.lex script = .ok ts ∧
      ∃ out vars, convertScript {} [] script = .ok (out, vars) ∧
        (∃ after, Writes {} ts ['1'] after .other ∧ leadsWith .UNION after = false ∧
          ∃ before, out = before ++ (Query.limitClause ['1'] ++ after)) ∧
        ∃ after, Writes {} ts ['2'] after .union ∧ leadsWith .UNION after ∧
          ∃ before, out = before ++ (Query.limitClause ['2'] ++ after) := by
  intro script ts
  let u : Token := ⟨.keyword .IF, "IF".toList, ⟨0, 2⟩⟩
  let first := (ts.drop 8).take 7
  let second := ts.drop 17
  let arm := second.take 8
  let rest := [(second.drop 8).take 4, second.drop 12]
  have hfacts : StatementLexer.tsql.lex script = .ok ts ∧
      (Statement.pieces .tsql ts = [] ++ ts :: [] ∧ skipTrivia ts = u :: ts.tail) ∧
      (branchList? (firstBranch (u :: ts.tail)) = some first ∧
        firstKeyword? (afterBranch (u :: ts.tail)) = some .ELSE ∧
        branchList? (skipTrivia (afterBranch (u :: ts.tail))).tail = some second) ∧
      (Statement.pieces .tsql first = [] ++ first :: [] ∧ isPlainQuery first ∧
        (Query.top? (skipTrivia first)).map Query.Top.limit = some ['1'] ∧
        Query.isClosed (plainBody first) = false) ∧
      (Statement.pieces .tsql second = [] ++ arm :: rest ∧ isPlainQuery arm ∧
        (Query.top? (skipTrivia arm)).map Query.Top.limit = some ['2'] ∧
        Query.isClosed (plainBody arm) = false) ∧ next {} rest = .union := by
    decide +kernel
  clear_value script ts first second arm rest
  obtain ⟨hlex, ⟨hpieces, hpiece⟩, ⟨hfirst, helse, hsecond⟩, ⟨h₁, h₂, h₃, h₄⟩,
    ⟨h₅, h₆, h₇, h₈⟩, hnext⟩ := hfacts
  obtain ⟨text₁, hone⟩ := exists_writes {} [] first [] h₁ h₂ h₃ h₄ rfl
  obtain ⟨text₂, htwo⟩ := exists_writes {} [] arm rest h₅ h₆ h₇ h₈ hnext
  have hother := Writes.within hpieces hpiece (.first rfl hfirst) hone
  rw [if_pos (.inl helse)] at hother
  have hunion := Writes.within hpieces hpiece (.second rfl helse hsecond) htwo
  obtain ⟨out, vars, hconvert, hlimits⟩ := union_after_limit_iff .postgres [] hlex
  obtain ⟨hsplit₁, hopens₁⟩ := hlimits _ _ _ hother
  obtain ⟨hsplit₂, hopens₂⟩ := hlimits _ _ _ hunion
  refine ⟨hlex, out, vars, hconvert, ⟨_, hother, ?_, hsplit₁⟩, _, hunion, ?_, hsplit₂⟩
  · rw [← Bool.not_eq_true, hopens₁ (by decide)]
    decide
  · exact (hopens₂ (by decide)).mpr rfl

/-- The limit of the first arm of a union stands in front of the `UNION`. -/
theorem limit_before_union :
    (convertScript {} [] "SELECT TOP 1 a UNION ALL SELECT b".toList).map Prod.fst =
      .ok ("SELECT a ".toList ++ (Query.limitClause ['1'] ++ " UNION ALL SELECT b".toList)) ∧
    leadsWith .UNION " UNION ALL SELECT b".toList := by
  let script := "SELECT TOP 1 a UNION ALL SELECT b".toList
  let ts := tokenize script
  let text := "SELECT a ".toList ++ (Query.limitClause ['1'] ++ " UNION ALL SELECT b".toList)
  let ps := [ts.take 7, (ts.drop 7).take 4, ts.drop 11]
  have hfacts : StatementLexer.tsql.lex script = .ok ts ∧ Statement.pieces .tsql ts = ps ∧
      ps.all isPlainQuery ∧ ps.flatMap plainQueryText = text := by
    decide +kernel
  have hunion : leadsWith .UNION " UNION ALL SELECT b".toList := by decide +kernel
  refine ⟨?_, hunion⟩
  show (convertScript {} [] script).map Prod.fst = .ok text
  clear_value text ps script
  obtain ⟨hlex, hpieces, hplain, htext⟩ := hfacts
  have hlexer := StatementLexer.lossless_tsql
  obtain ⟨vars, hconvert⟩ := exists_convertScript (s := {}) hlexer [] hlex
  rw [hconvert, textOf_of_isInfix hlexer List.infix_rfl, hpieces, piecesText_of_isPlainQuery hplain,
    htext]
  rfl

end Batch

end SqlMigration
