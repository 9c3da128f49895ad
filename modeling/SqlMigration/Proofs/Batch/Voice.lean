import SqlMigration.Proofs.Batch.Argument
import SqlMigration.Proofs.Batch.Tagless
import SqlMigration.Proofs.Batch.Texts
import SqlMigration.Proofs.Expression.Arguments
import SqlMigration.Proofs.Query.Seams
import SqlMigration.Proofs.Token.Opening
import SqlMigration.Proofs.Token.Spelling

/-! # How statements start

The text of a statement starts with the word of its first token, or with another word that the
first token decides. So for most statements that token tells that their text does not open with
`UNION`. The exceptions are statements that start with a name, which may come out as any word.
-/

namespace SqlMigration

open Text

/-! ## First words -/

/-- A word that a text may start with so as not to open with the keyword, and that is not lost with
blank space or a semicolon at the end. -/
def isFirm (k : Keyword) (w : Text) : Bool :=
  w.head?.any startsToken && clashes k w && endsSolid w

theorem opens_of_isFirm {k : Keyword} {w s : Text} (h : isFirm k w) (hs : w <+: s) :
    Opens k false s := by
  obtain ⟨r, rfl⟩ := hs
  obtain ⟨hstart, hsolid⟩ := Bool.and_eq_true_iff.mp h
  obtain ⟨d, hd, hblank, -⟩ := last_of_endsSolid hsolid
  obtain ⟨hhead, hclash⟩ := Bool.and_eq_true_iff.mp hstart
  cases w with
  | nil => cases hhead
  | cons c w =>
      refine opens_of_clashes hhead hclash ?_ r
      intro e he
      rw [hd] at he
      cases he
      exact hblank

theorem Text.trimEnd_append_of_endsSolid {s : Text} (h : endsSolid s) (r : Text) :
    trimEnd (s ++ r) = s ++ trimEnd r := by
  by_cases hr : trimEnd r = []
  · obtain ⟨c, hc, hblank, -⟩ := last_of_endsSolid h
    have hlast : ∀ d ∈ s.getLast?, isBlank d = false := by
      rw [hc]
      rintro d ⟨⟩
      exact hblank
    rw [trimEnd_append_of_eq_nil _ hr, trimEnd_of_last hlast, hr, List.append_nil]
  · exact trimEnd_append_of_ne hr

theorem Text.isPrefix_trimEnd {w s : Text} (hw : endsSolid w) (h : w <+: s) :
    w <+: trimEnd s := by
  obtain ⟨r, rfl⟩ := h
  rw [trimEnd_append_of_endsSolid hw]
  exact List.prefix_append w _

/-- The text of a keyword is its word. -/
theorem word_of_keyword {script : Text} {t : Token} {k : Keyword} (h : t ∈ tokenize script)
    (ht : t.kind = .keyword k) : Token.spellsWord t.text ∧ Keyword.ofText? t.text = some k := by
  obtain ⟨before, after, hscript⟩ := List.append_of_mem h
  have hstays := Token.stays_of_isInfix List.infix_rfl hscript
  obtain ⟨c, s, htext⟩ := List.exists_cons_of_ne_nil (Token.text_ne_nil_of_mem_read .unicode h)
  obtain ⟨hkind, htake⟩ := (Token.stays_iff htext).mp hstays
  obtain ⟨hstart, hword⟩ := Token.word_of_isPlainWord (by rw [hkind, ht]; rfl)
  rw [hword, Token.word] at hkind htake
  dsimp only at hkind htake
  rw [← List.prefix_iff_eq_take.mp (List.takeWhile_prefix _)] at htake
  rw [htake, ← htext, ht, Token.wordKind] at hkind
  constructor
  · rw [htext, Token.spellsWord, hstart, ← htake]
    exact List.all_takeWhile
  · split at hkind
    · rename_i hfound
      cases hkind
      exact hfound
    · cases hkind

theorem startsToken_of_isBare {c : Char} (h : isBare c) : startsToken c := by
  have hmarks : isBare '-' = false ∧ isBare '/' = false := by decide
  have hdash : c ≠ '-' := fun hc => by simp [hc, hmarks.1] at h
  have hslash : c ≠ '/' := fun hc => by simp [hc, hmarks.2] at h
  simp [startsToken, isBlank_of_isBare h, hdash, hslash]

theorem isFirm_keyword {script : Text} {t : Token} {k : Keyword} (h : t ∈ tokenize script)
    (ht : t.kind = .keyword k) (hk : k ≠ .UNION) : isFirm .UNION t.text := by
  obtain ⟨hword, hfound⟩ := word_of_keyword h ht
  have hclash : clashes .UNION t.text := by
    rw [clashes, asciiUpper_of_ofText? hfound]
    cases k
    case UNION => exact absurd rfl hk
    all_goals decide
  have hhead : t.text.head?.any startsToken := by
    obtain ⟨c, w, hc⟩ := List.exists_cons_of_ne_nil (Token.text_ne_nil_of_mem_read .unicode h)
    rw [hc] at hword ⊢
    have hstart := Token.isNameChar_of_startsWord (Bool.and_eq_true_iff.mp hword).1
    exact startsToken_of_isBare (Token.isBare_of_isNameChar hstart)
  have hlast : endsSolid t.text := by
    have hspelled := Token.spelled_of_mem_read h
    exact hspelled.endsSolid_text (isTrivia_of_kind ht rfl) (by simp [ht]) (by simp [ht])
  rw [isFirm, hhead, hclash, hlast]
  rfl

/-! ## How queries start -/

/-- Whether the token is a keyword other than `UNION`, or an opening parenthesis. -/
def opensPlainly (t : Token) : Bool :=
  match t.kind with
  | .keyword k => k ≠ .UNION
  | .leftParen => true
  | _ => false

theorem isFirm_text {script : Text} {t : Token} (h : t ∈ tokenize script) (ht : opensPlainly t) :
    isFirm .UNION t.text := by
  unfold opensPlainly at ht
  split at ht
  · rename_i k hk
    exact isFirm_keyword h hk (of_decide_eq_true ht)
  · rename_i hk
    obtain ⟨before, after, hscript⟩ := List.append_of_mem h
    have hstays := Token.stays_of_isInfix List.infix_rfl hscript
    have hne := Token.text_ne_nil_of_mem_read .unicode h
    rw [(Token.text_of_paren hne hstays).1 hk]
    decide
  · cases ht

theorem isWord_of_opensPlainly {t : Token} (h : opensPlainly t) (word : String) :
    t.isWord word = false := by
  unfold opensPlainly at h
  split at h
  · rename_i k hk
    rw [Token.isWord, hk]
    rfl
  · rename_i hk
    rw [Token.isWord, hk]
    rfl
  · cases h

namespace Expression

theorem emitHead_of_opensPlainly {t : Token} (h : opensPlainly t) (hconvert : t.is .CONVERT = false)
    (ts : List Token) : emitHead t ts = (t.text, 0) := by
  have hdbo : startsWithDbo (t :: ts) = false := by
    cases ts <;> simp [startsWithDbo, isWord_of_opensPlainly h]
  have htext : tokenText t = t.text := by
    unfold opensPlainly at h
    unfold tokenText
    split at h
    · rename_i hk
      rw [hk]
    · rename_i hk
      rw [hk]
    · cases h
  simp [emitHead, hconvert, isWord_of_opensPlainly h, hdbo, htext]

/-- An expression starts with the word of its first token, or with that of a cast. -/
theorem exists_firm_emit {script : Text} {t : Token} (h : t ∈ tokenize script) (ht : opensPlainly t)
    (ts : List Token) : ∃ w, isFirm .UNION w ∧ w <+: emit (t :: ts) := by
  rw [emit_cons]
  cases hconvert : t.is .CONVERT with
  | false =>
      rw [emitHead_of_opensPlainly ht hconvert]
      exact ⟨t.text, isFirm_text h ht, List.prefix_append _ _⟩
  | true =>
      rw [emitHead, if_pos hconvert]
      cases callArguments? ts with
      | none => exact ⟨t.text, isFirm_text h ht, List.prefix_append _ _⟩
      | some found =>
          obtain ⟨args, n⟩ := found
          refine ⟨"CAST(".toList, by decide, ?_⟩
          dsimp only [castText]
          simp only [List.append_assoc]
          exact List.prefix_append _ _

end Expression

namespace Query

theorem start_of_mem_hintsFrom {i blanks : Nat} {ts : List Token} {b : Bounds}
    (h : b ∈ hintsFrom i blanks ts) : i - blanks ≤ b.start := by
  fun_induction hintsFrom i blanks ts with
  | case1 => cases h
  | case2 i blanks t ts n hn ih =>
      rcases List.mem_cons.mp h with rfl | h
      · exact Nat.le_refl _
      · have hle := ih h
        omega
  | case3 i blanks t ts hn ih =>
      have hle := ih h
      split at hle <;> omega

/-- A statement that does not start with a hint keeps its first token. -/
theorem kept_cons {t : Token} {ts : List Token} (h : hintLength? (t :: ts) = none)
    (ht : t.isTrivia = false) : ∃ us, kept (t :: ts) = t :: us := by
  have hblank : t.kind ≠ .blank := by
    intro hkind
    rw [Token.isTrivia, hkind] at ht
    cases ht
  have hhints : isCut (hints (t :: ts)) 0 = false := by
    rw [isCut, List.any_eq_false]
    intro b hb
    rw [hints, hintsFrom, h] at hb
    simp only [hblank, if_false] at hb
    have hstart := start_of_mem_hintsFrom hb
    simp only [Bool.and_eq_true, decide_eq_true_eq]
    omega
  have hcut : isCut (cuts (t :: ts)) 0 = false := by
    rw [isCut_cuts, hhints, Bool.or_false]
    cases htop : top? (t :: ts) with
    | none => rfl
    | some top =>
        obtain ⟨i, _, _, _, _, _, hstart, _⟩ := exists_keyword_before_top htop
        simp only [Option.any_some, hstart, nextSignificant]
        simp
  rw [kept, outside_eq_remaining, remaining]
  rw [cuts] at hcut
  rw [hcut]
  exact ⟨_, rfl⟩

/-- What stands before the limit of a query. -/
def beforeLimit (sql : Text) : Text :=
  ((sql.trimEnd.dropFinal? ';').map trimEnd).getD sql.trimEnd

/-- Whether a query ends with a semicolon. -/
def isClosed (sql : Text) : Bool := (sql.trimEnd.dropFinal? ';').isSome

/-- What stands after the limit of a query. -/
def afterLimit (sql : Text) : Text :=
  (if isClosed sql then [';'] else []) ++ sql.drop sql.trimEnd.length

/-- The clause that sets a limit. -/
def limitClause (limit : Text) : Text := "LIMIT ".toList ++ limit

theorem withLimit_eq (limit sql : Text) :
    withLimit limit sql = beforeLimit sql ++ ' ' :: (limitClause limit ++ afterLimit sql) := by
  unfold beforeLimit afterLimit isClosed
  cases hfinal : sql.trimEnd.dropFinal? ';' with
  | none =>
      simp only [withLimit, hfinal, List.append_assoc, Option.map_none, Option.getD_none,
        Option.isSome_none, Bool.false_eq_true, if_false]
      rfl
  | some r =>
      simp only [withLimit, hfinal, List.append_assoc, Option.map_some, Option.getD_some,
        Option.isSome_some, if_true]
      rfl

theorem isPrefix_withLimit {w sql : Text} {k : Keyword} (hw : isFirm k w) (h : w <+: sql)
    (limit : Text) : w <+: withLimit limit sql := by
  have hsolid := (Bool.and_eq_true_iff.mp hw).2
  obtain ⟨c, hc, -, hsemicolon⟩ := last_of_endsSolid hsolid
  have htrim := isPrefix_trimEnd hsolid h
  have hbefore : w <+: beforeLimit sql := by
    unfold beforeLimit
    cases hfinal : sql.trimEnd.dropFinal? ';' with
    | none => exact htrim
    | some r =>
        rw [eq_concat_of_dropFinal? hfinal] at htrim
        rcases List.prefix_concat_iff.mp htrim with rfl | hr
        · rw [List.getLast?_concat] at hc
          exact absurd (Option.some.inj hc).symm hsemicolon
        · exact isPrefix_trimEnd hsolid hr
  rw [withLimit_eq]
  exact hbefore.trans (List.prefix_append _ _)

/-- A query starts with a word that tells it from `UNION`. -/
theorem exists_firm_emit {script : Text} {t : Token} {ts : List Token} (h : t ∈ tokenize script)
    (ht : opensPlainly t) (hhint : hintLength? (t :: ts) = none) :
    ∃ w, isFirm .UNION w ∧ w <+: emit (t :: ts) := by
  have htrivia : t.isTrivia = false := by
    unfold opensPlainly at ht
    unfold Token.isTrivia
    split at ht
    · rename_i hk
      rw [hk]
      rfl
    · rename_i hk
      rw [hk]
      rfl
    · cases ht
  obtain ⟨us, hus⟩ := kept_cons hhint htrivia
  have hbody : ∃ w, isFirm .UNION w ∧ w <+: body (t :: us) := by
    unfold body
    split
    · have hword : "DROP".toList <+: "DROP TABLE IF EXISTS ".toList := by decide
      refine ⟨"DROP".toList, by decide, ?_⟩
      simp only [List.append_assoc]
      exact hword.trans (List.prefix_append _ _)
    · exact Expression.exists_firm_emit h ht us
  obtain ⟨w, hw, hprefix⟩ := hbody
  refine ⟨w, hw, ?_⟩
  rw [emit, hus]
  split
  · exact isPrefix_withLimit hw hprefix _
  · exact hprefix

end Query

namespace Batch

/-! ## How statements start -/

/-- What stands in a script where a text ends. -/
inductive Next where
  /-- Nothing that is written. -/
  | nothing
  /-- The keyword `UNION`. -/
  | union
  /-- Something else. -/
  | other
  /-- What it comes out as cannot be told. -/
  | unclear
  deriving DecidableEq, Repr

/-- What stands there if the first text is followed by the second. -/
def Next.or : Next → Next → Next
  | .nothing, n => n
  | n, _ => n

/-- Whether the token is a variable whose name starts like `UNION`. -/
def namesUnion (t : Token) : Bool :=
  t.kind = .variable && Keyword.UNION.spelling.isPrefixOf (asciiUpper (Name.ofVariable t.text))

/-- What a declaration comes out as. -/
def declarationVoice (s : Setting) (body : List Token) : Next :=
  let found := Declaration.list s.dialect body.tail
  if found.1.isEmpty then .other
  else if found.1.any fun d => d.value.isSome then
    if body.any namesUnion then .unclear else .other
  else if isTerminator (body.drop (found.2 + 1)) then .nothing
  else .unclear

/-- What a statement comes out as, if it does not start with `UNION`. -/
def voice (s : Setting) (t : Token) (ts : List Token) : Next :=
  match t.keyword? with
  | some .GO => .nothing
  | some .DECLARE => declarationVoice s (t :: ts)
  | some .SET => if (t :: ts).any namesUnion then .unclear else .other
  | _ =>
      if opensPlainly t && (Query.hintLength? (t :: ts)).isNone then .other else .unclear

theorem clashes_assignment {name : Text}
    (h : ¬ Keyword.UNION.spelling <+: asciiUpper name) : clashes .UNION (name ++ " :=".toList) := by
  have hupper : asciiUpper (name ++ " :=".toList) = asciiUpper name ++ " :=".toList := by
    simp only [asciiUpper, List.map_append]
    rfl
  have hletters : ' ' ∉ Keyword.UNION.spelling := by decide
  simp only [clashes, hupper, Bool.and_eq_true, Bool.not_eq_true', ← Bool.not_eq_true,
    List.isPrefixOf_iff_prefix]
  constructor
  · intro hle
    exact hletters (hle.subset (List.mem_append_right _ (by decide)))
  · intro hle
    rcases List.prefix_or_prefix_of_prefix hle (List.prefix_append _ _) with hle' | ⟨d, hd⟩
    · exact h hle'
    · rw [← hd] at hle hletters
      cases d with
      | nil =>
          rw [List.append_nil] at hd
          exact h (hd ▸ List.prefix_rfl)
      | cons c d =>
          have hc := (List.prefix_append_right_inj _).mp hle
          have hhead : c = ' ' := (List.cons_prefix_cons.mp hc).1
          exact hletters (by simp [hhead])

/-- An assignment opens with the name of its variable. -/
theorem opens_assignment {t : Token} {script : Text} (h : t ∈ tokenize script)
    (hkind : t.kind = .variable) (hname : namesUnion t = false) (value : Text) :
    Opens .UNION false (Name.ofVariable t.text ++ (" := ".toList ++ value)) := by
  have hshape := Token.shape_of_mem_read h
  have hbare : ∀ c ∈ Name.ofVariable t.text, isBare c := by
    refine isBare_of_mem_lower fun c hc => ?_
    refine hshape.isBare_of_mem (by rw [hkind]; rfl) c ?_
    exact (trimWhere_sublist _ _).subset ((List.dropWhile_sublist _).subset hc)
  have hclash : ¬ Keyword.UNION.spelling <+: asciiUpper (Name.ofVariable t.text) := by
    intro hle
    simp [namesUnion, hkind, List.isPrefixOf_iff_prefix.mpr hle] at hname
  have hsign : " := ".toList ++ value = " :=".toList ++ (' ' :: value) := rfl
  rw [hsign]
  generalize Name.ofVariable t.text = name at hbare hclash
  cases name with
  | nil =>
      have hfirm : isFirm .UNION ":=".toList := by decide
      have hrest := opens_of_isFirm hfirm (List.prefix_append _ (' ' :: value))
      have hblank : ∀ c ∈ [' '], isBlank c := List.forall_mem_singleton.mpr (by decide)
      exact hrest.blank_append (b := [' ']) hblank
  | cons c name =>
      have hfirm : isFirm .UNION (c :: name ++ " :=".toList) := by
        have hlast := endsSolid_append (c :: name) (by decide : endsSolid " :=".toList)
        rw [isFirm, clashes_assignment hclash, hlast]
        simp [startsToken_of_isBare (hbare c List.mem_cons_self)]
      refine opens_of_isFirm hfirm ?_
      rw [← List.append_assoc]
      exact List.prefix_append _ _

/-! ## Declarations and assignments -/

theorem exists_variable_of_one? {d : Dialect} {ts : List Token} {declaration : Declaration}
    {n : Nat} (h : Declaration.one? d ts = some (declaration, n)) :
    ∃ t ∈ ts, t.kind = .variable ∧ declaration.declared.name = Name.ofVariable t.text := by
  unfold Declaration.one? at h
  split at h
  · cases h
  · rename_i t after hskip
    have hmem : t ∈ ts := (List.dropWhile_suffix _).subset (hskip ▸ List.mem_cons_self)
    split at h
    · rename_i hkind
      obtain ⟨⟨typeText, m⟩, -, h⟩ := Option.bind_eq_some_iff.mp h
      refine ⟨t, hmem, hkind, ?_⟩
      dsimp only at h
      split at h <;> cases h <;> rfl
    · cases h

/-- A declared variable is named in the list. -/
theorem exists_variable_of_mem_list {d : Dialect} {ts : List Token} :
    ∀ declaration ∈ (Declaration.list d ts).1,
      ∃ t ∈ ts, t.kind = .variable ∧ declaration.declared.name = Name.ofVariable t.text := by
  fun_induction Declaration.list d ts with
  | case1 ts hone => simp
  | case2 ts declaration n hone hskip => simpa using exists_variable_of_one? hone
  | case3 ts declaration n hone t rest hskip hcomma m hlist ih =>
      simpa using exists_variable_of_one? hone
  | case4 ts declaration n hone t rest hskip hcomma declarations m hne hlist ih =>
      rw [hlist] at ih
      refine List.forall_mem_cons.mpr ⟨exists_variable_of_one? hone, fun declaration hd => ?_⟩
      obtain ⟨u, hu, hvariable⟩ := ih declaration hd
      have hmem : u ∈ skipTrivia (ts.drop n) := hskip ▸ List.mem_cons_of_mem t hu
      exact ⟨u, List.mem_of_mem_drop ((List.dropWhile_suffix _).subset hmem), hvariable⟩
  | case5 ts declaration n hone t rest hskip hcomma => simpa using exists_variable_of_one? hone

theorem exists_eq_append_assignments {declarations : List Declaration}
    (h : declarations.any fun d => d.value.isSome) :
    ∃ d ∈ declarations, ∃ value,
      assignments declarations = d.declared.name ++ (" := ".toList ++ value) := by
  unfold assignments
  generalize hlines : declarations.filterMap _ = lines
  cases lines with
  | nil =>
      obtain ⟨d, hd, hsome⟩ := List.any_eq_true.mp h
      obtain ⟨value, hvalue⟩ := Option.isSome_iff_exists.mp hsome
      have hnone := List.filterMap_eq_nil_iff.mp hlines d hd
      rw [hvalue] at hnone
      cases hnone
  | cons line lines =>
      have hmem : line ∈ line :: lines := List.mem_cons_self
      rw [← hlines] at hmem
      obtain ⟨d, hd, hline⟩ := List.mem_filterMap.mp hmem
      obtain ⟨value, -, rfl⟩ := Option.map_eq_some_iff.mp hline
      refine ⟨d, hd, ?_⟩
      cases lines with
      | nil => exact ⟨value ++ [';'], by simp [List.intercalate]⟩
      | cons line lines =>
          exact ⟨value ++ ';' :: '\n' :: ['\n'].intercalate (line :: lines),
            by simp [List.intercalate]⟩

theorem written_declare (s : Setting) (body : List Token) :
    written (declare s body) =
      if (Declaration.list s.dialect body.tail).1.isEmpty then joinText body
      else assignments (Declaration.list s.dialect body.tail).1 ++
        if isTerminator (body.drop ((Declaration.list s.dialect body.tail).2 + 1)) then []
        else Expression.emit (body.drop ((Declaration.list s.dialect body.tail).2 + 1)) := by
  unfold declare
  generalize Declaration.list s.dialect body.tail = found
  obtain ⟨declarations, n⟩ := found
  dsimp only
  split <;> rfl

/-- An assignment is to a variable of the list. -/
theorem exists_variable_of_setPattern {body : List Token} {c : Captures} {n : Nat}
    (h : setPattern.run? body = some (c, n)) :
    ∃ t ∈ body, t.kind = .variable ∧ c.values = [t.text] := by
  obtain ⟨_, _, hsteps, -⟩ := Pattern.run?_eq_some h
  obtain ⟨g₀, t, r₁, _, _, rfl, h₀, ht, hset, hsteps⟩ :=
    Pattern.matchSteps_token rfl (.inl rfl) hsteps
  obtain ⟨g₁, u, r₂, _, _, rfl, h₁, hu, hvariable, hsteps⟩ :=
    Pattern.matchSteps_token rfl (.inr rfl) hsteps
  obtain ⟨g₂, e, rest, _, _, rfl, h₂, he, heq, -⟩ := Pattern.matchSteps_token rfl (.inl rfl) hsteps
  refine ⟨u, by simp, by simpa [Step.kind, Step.raw] using hvariable, ?_⟩
  have hne : g₀ ++ t :: (g₁ ++ u :: (g₂ ++ e :: rest)) ≠ [] := by simp
  have hvalues := Pattern.map_values_run? (p := setPattern) rfl hne
  rw [h, setPattern, Pattern.matchSteps_gap rfl h₀ ht (.inl rfl),
    Pattern.matchSteps_gap rfl h₁ hu (.inr rfl), Pattern.matchSteps_gap rfl h₂ he (.inl rfl),
    if_pos hset, if_pos hvariable, if_pos heq] at hvalues
  exact Option.some.inj hvalues

theorem opens_set {script : Text} {t : Token} {ts : List Token}
    (hmem : ∀ u ∈ t :: ts, u ∈ tokenize script) (ht : t.is .SET)
    (hname : (t :: ts).any namesUnion = false) : Opens .UNION false (set (t :: ts)) := by
  unfold set
  split
  · rename_i name columns n hrun
    obtain ⟨u, hu, hkind, hvalues⟩ := exists_variable_of_setPattern hrun
    obtain rfl : name = u.text := by simpa using hvalues
    have hnames : namesUnion u = false := by simpa using List.any_eq_false.mp hname u hu
    rw [List.append_assoc, List.append_assoc]
    exact opens_assignment (hmem u hu) hkind hnames _
  · have hplain : opensPlainly t := by simp [opensPlainly, kind_of_is ht]
    obtain ⟨w, hw, hle⟩ :=
      Expression.exists_firm_emit (hmem t List.mem_cons_self) hplain ts
    exact opens_of_isFirm hw hle

theorem opens_declare {script : Text} {s : Setting} {t : Token} {ts : List Token}
    (hmem : ∀ u ∈ t :: ts, u ∈ tokenize script) (ht : t.is .DECLARE)
    (h : declarationVoice s (t :: ts) = .other) :
    Opens .UNION false (written (declare s (t :: ts))) := by
  rw [declarationVoice] at h
  rw [written_declare]
  split
  · have hfirm : isFirm .UNION t.text :=
      isFirm_keyword (hmem t List.mem_cons_self) (kind_of_is ht) (by decide)
    rw [joinText_cons]
    exact opens_of_isFirm hfirm (List.prefix_append _ _)
  · rename_i hempty
    rw [if_neg hempty] at h
    split at h
    · rename_i hany
      obtain ⟨d, hd, value, hvalue⟩ := exists_eq_append_assignments hany
      obtain ⟨u, hu, hkind, hname⟩ := exists_variable_of_mem_list d hd
      have hu : u ∈ t :: ts := List.mem_cons_of_mem t hu
      have hnames : namesUnion u = false := by
        split at h
        · cases h
        · rename_i hnone
          simpa using List.any_eq_false.mp (Bool.not_eq_true _ ▸ hnone) u hu
      rw [hvalue, hname]
      exact (opens_assignment (hmem u hu) hkind hnames value).append _
    · split at h <;> cases h

theorem written_declare_of_nothing {s : Setting} {body : List Token}
    (h : declarationVoice s body = .nothing) : written (declare s body) = [] := by
  rw [declarationVoice] at h
  split at h
  · cases h
  · rename_i hempty
    split at h
    · split at h <;> cases h
    · rename_i hany
      split at h
      · rename_i hend
        have hnone : assignments (Declaration.list s.dialect body.tail).1 = [] := by
          unfold assignments
          rw [List.filterMap_eq_nil_iff.mpr]
          · rfl
          · intro d hd
            have hvalue := List.any_eq_false.mp (Bool.not_eq_true _ ▸ hany) d hd
            rw [Option.not_isSome_iff_eq_none.mp hvalue]
            rfl
        rw [written_declare, if_neg hempty, hnone, if_pos hend]
        rfl
      · cases h

/-! ## All statements -/

theorem isPrefix_toSql (a : Alteration) : "ALTER TABLE ".toList <+: a.toSql := by
  cases a <;>
    unfold Alteration.toSql <;>
    simp only [List.append_assoc] <;>
    exact List.prefix_append _ _

section
variable {s : Setting} {t : Token} {ts : List Token}

theorem is_self_of_keyword? {k : Keyword} (h : t.keyword? = some k) : t.is k := by
  unfold Token.keyword? at h
  split at h
  · rename_i hk
    cases h
    simp [Token.is, hk]
  · cases h

/-- A statement that comes out as nothing is not written. -/
theorem statementText_of_voice (h : voice s t ts = .nothing) : statementText s t ts = [] := by
  unfold voice at h
  split at h
  · rename_i hk
    simp only [statementText, hk]
  · rename_i hk
    simp only [statementText, hk]
    exact written_declare_of_nothing h
  · split at h <;> cases h
  · split at h <;> cases h

variable {script : Text} (hmem : ∀ u ∈ t :: ts, u ∈ tokenize script)
include hmem

theorem opens_emit (ht : opensPlainly t) : Opens .UNION false (Expression.emit (t :: ts)) := by
  obtain ⟨w, hw, hle⟩ := Expression.exists_firm_emit (hmem t List.mem_cons_self) ht ts
  exact opens_of_isFirm hw hle

theorem opens_alter (ht : opensPlainly t) : Opens .UNION false (alter s (t :: ts)) := by
  unfold alter
  split
  · rename_i alteration _
    have hword : "ALTER".toList <+: "ALTER TABLE ".toList := by decide
    exact opens_of_isFirm (by decide) (hword.trans (isPrefix_toSql alteration))
  · exact opens_emit hmem ht

theorem opens_exec (ht : opensPlainly t) (c : List Token → Text) :
    Opens .UNION false (written (exec s (fun us => pure (c us)) (t :: ts))) := by
  have hword (r : Text) : Opens .UNION false ("EXECUTE ".toList ++ r) := by
    have hle : "EXECUTE".toList <+: "EXECUTE ".toList := by decide
    exact opens_of_isFirm (w := "EXECUTE".toList) (by decide) (hle.trans (List.prefix_append _ _))
  have hstring (sql : Text) : Opens .UNION false
      ("EXECUTE ".toList ++ (dollarQuoted sql.trim ++ [';'])) := hword _
  cases hvariable : DynamicSql.variableArgument? (t :: ts) with
  | some name =>
      simp only [exec, hvariable]
      exact hword (Name.ofVariable name ++ [';'])
  | none =>
      cases hsql : DynamicSql.stringArgument? (t :: ts) with
      | some sql =>
          cases hlex : s.lexer.lex sql with
          | ok us =>
              simp only [exec, hvariable, hsql, hlex, pure_bind]
              exact hstring (c us)
          | error e =>
              simp only [exec, hvariable, hsql, hlex, pure_bind]
              exact hstring sql
      | none =>
          simp only [exec, hvariable, hsql]
          exact opens_emit hmem ht

omit hmem in
theorem opens_conditional {form : ConditionalForm} (hform : isFirm .UNION form.keyword.toList)
    (c : List Token → Text) (body : List Token) :
    Opens .UNION false (conditionalText c form body) := by
  refine opens_of_isFirm hform ?_
  simp only [conditionalText, conditionalHead, List.append_assoc]
  exact List.prefix_append _ _

theorem opens_block (ht : opensPlainly t) (c : List Token → Text) :
    Opens .UNION false (blockText c (t :: ts)) := by
  unfold blockText
  cases Statement.blockInside? (t :: ts) with
  | none => exact opens_emit hmem ht
  | some found =>
      refine opens_of_isFirm (w := "BEGIN".toList) (by decide) ?_
      simp only [Option.elim_some, List.append_assoc]
      exact List.prefix_append _ _

/-- A statement that comes out as something else than `UNION` opens with something else. -/
theorem opens_of_voice (h : voice s t ts = .other) :
    Opens .UNION false (statementText s t ts) := by
  unfold voice at h
  split at h
  · cases h
  · rename_i hk
    simp only [statementText, hk]
    exact opens_declare hmem (is_self_of_keyword? hk) h
  · rename_i hk
    simp only [statementText, hk]
    refine opens_set hmem (is_self_of_keyword? hk) ?_
    split at h
    · cases h
    · exact Bool.not_eq_true _ ▸ ‹_›
  · rename_i hgo hdeclare hset
    obtain ⟨ht, hhint⟩ : opensPlainly t ∧ (Query.hintLength? (t :: ts)).isNone := by
      split at h
      · rename_i hboth
        exact Bool.and_eq_true_iff.mp hboth
      · cases h
    have hquery : Opens .UNION false (Query.emit (t :: ts)) := by
      obtain ⟨w, hw, hle⟩ := Query.exists_firm_emit (hmem t List.mem_cons_self) ht
        (Option.isNone_iff_eq_none.mp hhint)
      exact opens_of_isFirm hw hle
    unfold statementText
    split
    · exact opens_alter hmem ht
    · exact opens_exec hmem ht _
    · exact opens_exec hmem ht _
    · exact absurd ‹_› hdeclare
    · exact absurd ‹_› hset
    · exact opens_conditional (by decide) _ _
    · exact opens_conditional (by decide) _ _
    · split
      · exact hquery
      · exact opens_block hmem ht _
    · exact absurd ‹_› hgo
    · exact hquery

end

end Batch

end SqlMigration
