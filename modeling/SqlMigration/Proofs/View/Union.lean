import SqlMigration.Proofs.Statement.Union
import SqlMigration.Proofs.Text.Trimming
import SqlMigration.Proofs.View.Ending
import SqlMigration.View.Script

/-! # Views over unions

A script is converted piece by piece, and the pieces of a view over a union are its header, its
arms and the separators between them. Something of this can be lost only where a separator follows
an arm: white space through a line end is cut off with the arm, which may end with a term that looks
on, and a semicolon at the end of the text is taken back. So the script is converted arm by arm if
and only if no arm loses its end in this way.
-/

namespace SqlMigration.View

open Statement (Blank IsArm IsHeader directEnd pieceLength)

/-! ## One piece -/

section Piece

variable {lexer : StatementLexer} {out : Text} {c : Columns} {piece more : List Token}

theorem pieceLength_cons_sub_one {t : Token} {ts : List Token}
    (h : pieceLength lexer (t :: ts ++ more) = (t :: ts).length) :
    pieceLength lexer (t :: (ts ++ more)) - 1 = ts.length := by
  rw [← List.cons_append, h, List.length_cons, Nat.add_sub_cancel]

theorem convertFrom_select (hne : piece ≠ [])
    (hlen : pieceLength lexer (piece ++ more) = piece.length)
    (hhead : (skipTrivia piece).head?.map Token.kind = some (.keyword .SELECT)) :
    convertFrom lexer out c (piece ++ more) =
      convertFrom lexer (out ++ (c.convert piece).1) (c.convert piece).2 more := by
  obtain ⟨t, ts, rfl⟩ := List.exists_cons_of_ne_nil hne
  rw [List.cons_append, convertFrom]
  simp only [pieceLength_cons_sub_one hlen, List.take_left, List.drop_left, hhead]

theorem convertFrom_union (hne : piece ≠ [])
    (hlen : pieceLength lexer (piece ++ more) = piece.length)
    (hhead : (skipTrivia piece).head?.map Token.kind = some (.keyword .UNION)) :
    convertFrom lexer out c (piece ++ more) =
      convertFrom lexer (dropSemicolon out ++ joinText piece) c more := by
  obtain ⟨t, ts, rfl⟩ := List.exists_cons_of_ne_nil hne
  rw [List.cons_append, convertFrom]
  simp only [pieceLength_cons_sub_one hlen, List.take_left, List.drop_left, hhead]

/-- `ELSE` starts a piece of its own, which is not part of an arm. -/
theorem convertFrom_else (hne : piece ≠ [])
    (hlen : pieceLength lexer (piece ++ more) = piece.length)
    (hhead : (skipTrivia piece).head?.map Token.kind = some (.keyword .ELSE)) :
    convertFrom lexer out c (piece ++ more) =
      convertFrom lexer (out ++ joinText (piece.take (triviaLength piece)) ++
        Expression.emit (skipTrivia piece)) c more := by
  obtain ⟨t, ts, rfl⟩ := List.exists_cons_of_ne_nil hne
  rw [List.cons_append, convertFrom]
  simp only [pieceLength_cons_sub_one hlen, List.take_left, List.drop_left, hhead]

theorem convertFrom_trivia (hne : piece ≠ [])
    (hlen : pieceLength lexer (piece ++ more) = piece.length)
    (hpiece : ∀ t ∈ piece, t.isTrivia) :
    convertFrom lexer out c (piece ++ more) = convertFrom lexer (out ++ joinText piece) c more := by
  have hskip := skipTrivia_of_trivia hpiece
  obtain ⟨t, ts, rfl⟩ := List.exists_cons_of_ne_nil hne
  rw [List.cons_append, convertFrom]
  simp only [pieceLength_cons_sub_one hlen, List.take_left, List.drop_left, hskip, List.head?_nil,
    Option.map_none]

theorem convertFrom_header {header : List Token} (h : IsHeader header)
    (hlen : pieceLength lexer (header ++ more) = header.length) :
    convertFrom lexer out c (header ++ more) =
      convertFrom lexer (out ++ createOrReplace header) {} more := by
  have hcreate := h.createHeader_eq
  obtain ⟨t, ts, rfl, ht⟩ := h.eq_cons
  have hskip : skipTrivia (t :: ts) = t :: ts := by
    rw [skipTrivia, List.dropWhile_cons_of_neg (by simp [isTrivia_of_keyword? ht])]
  have hkind : t.kind = .keyword .CREATE := by
    cases hkind : t.kind <;> simp_all [Token.keyword?]
  rw [List.cons_append, convertFrom]
  simp only [pieceLength_cons_sub_one hlen, List.take_left, List.drop_left, hskip, List.head?_cons,
    Option.map_some, hkind, hcreate, triviaLength_cons_of_keyword? ht]
  simp

end Piece

/-! ## Texts that may have lost something -/

/-- `s` is all of `whole` if `p` holds, and shorter if it does not. -/
structure WholeIff (p : Prop) (s whole : Text) : Prop where
  eq : p → s = whole
  lt : ¬p → s.length < whole.length

namespace WholeIff

variable {p q : Prop} {r s whole : Text}

theorem eq_iff (h : WholeIff p s whole) : s = whole ↔ p := by
  refine ⟨fun hs => ?_, h.eq⟩
  by_contra hp
  exact (h.lt hp).ne (congrArg List.length hs)

theorem length_le (h : WholeIff p s whole) : s.length ≤ whole.length := by
  by_cases hp : p
  · rw [h.eq hp]
  · exact (h.lt hp).le

theorem trans (h : WholeIff p s whole) (h' : WholeIff q r s) : WholeIff (p ∧ q) r whole := by
  refine ⟨fun hpq => (h'.eq hpq.2).trans (h.eq hpq.1), fun hpq => ?_⟩
  by_cases hp : p
  · exact h.eq hp ▸ h'.lt fun hq => hpq ⟨hp, hq⟩
  · exact h'.length_le.trans_lt (h.lt hp)

theorem append_left (h : WholeIff p s whole) (r : Text) : WholeIff p (r ++ s) (r ++ whole) := by
  refine ⟨fun hp => by rw [h.eq hp], fun hp => ?_⟩
  simpa only [List.length_append, Nat.add_lt_add_iff_left] using h.lt hp

theorem append_right (h : WholeIff p s whole) (r : Text) : WholeIff p (s ++ r) (whole ++ r) := by
  refine ⟨fun hp => by rw [h.eq hp], fun hp => ?_⟩
  simpa only [List.length_append, Nat.add_lt_add_iff_right] using h.lt hp

end WholeIff

theorem wholeIff_dropSemicolon (s : Text) :
    WholeIff (s.trimEnd.getLast? ≠ some ';') (dropSemicolon s) s := by
  refine ⟨fun hlast => ?_, fun hlast => ?_⟩
  · simp only [dropSemicolon, Text.dropFinal?, if_neg hlast]
  · have hlast := not_not.mp hlast
    have hpos : s.trimEnd ≠ [] := by
      intro hnil
      rw [hnil] at hlast
      cases hlast
    have hlen := List.length_pos_iff.mpr hpos
    have hle : s.trimEnd.length ≤ s.length := (Text.isPrefix_trimEndWhere _ s).length_le
    simp only [dropSemicolon, Text.dropFinal?, if_pos hlast, List.length_append,
      List.length_dropLast, List.length_drop]
    omega

/-! ## Tokens of a script -/

/-- A list of tokens of a script, without errors. -/
structure Lexed (ts : List Token) : Prop where
  slice : ∃ s, ts <:+: tokenize s
  clean : ∀ t ∈ ts, t.kind ≠ .error

namespace Lexed

variable {ts us : List Token}

theorem right (h : Lexed (ts ++ us)) : Lexed us := by
  obtain ⟨s, hs⟩ := h.slice
  refine ⟨⟨s, (List.suffix_append ts us).isInfix.trans hs⟩, ?_⟩
  exact fun t ht => h.clean t (List.mem_append_right ts ht)

theorem pieceLength_eq (h : Lexed ts) (hne : ts ≠ []) : pieceLength .tsql ts = directEnd ts 0 := by
  obtain ⟨s, hs⟩ := h.slice
  exact (Statement.relexed_tokenize hs h.clean).pieceLength_eq hne

theorem text_ne_nil (h : Lexed ts) : ∀ t ∈ ts, t.text ≠ [] := by
  intro t ht
  obtain ⟨s, hs⟩ := h.slice
  exact Token.text_ne_nil_of_mem_read .unicode (hs.subset ht)

theorem spelled (h : Lexed ts) : ∀ t ∈ ts, Token.Spelled t.kind t.text := by
  intro t ht
  obtain ⟨s, hs⟩ := h.slice
  exact Token.spelled_of_mem_read (hs.subset ht)

theorem isBlank_joinText (h : Lexed ts) (hblank : Blank us) (hus : ∀ t ∈ us, t ∈ ts) :
    ∀ c ∈ joinText us, Text.isBlank c := by
  intro c hc
  obtain ⟨t, ht, hct⟩ := List.mem_flatMap.mp hc
  exact (h.spelled t (hus t ht)).isBlank_of_mem (hblank t ht) c hct

end Lexed

/-- White space at the end of a script is copied. -/
theorem convertFrom_blank {gap : List Token} (hgap : Blank gap) (h : Lexed gap) (out : Text)
    (c : Columns) : convertFrom .tsql out c gap = (out ++ joinText gap, c) := by
  by_cases hne : gap = []
  · subst hne
    rw [convertFrom]
    simp
  · have hlen : pieceLength .tsql (gap ++ []) = gap.length := by
      rw [List.append_nil, h.pieceLength_eq hne, Statement.directEnd_blank hgap]
    have hstep : convertFrom .tsql out c (gap ++ []) = _ :=
      convertFrom_trivia hne hlen hgap.isTrivia
    rw [List.append_nil] at hstep
    rw [hstep, convertFrom]

theorem map_kind_head?_gap {gap : List Token} (hgap : ∀ t ∈ gap, t.isTrivia) {t : Token}
    {k : Keyword} (ht : t.is k) (rest : List Token) :
    (skipTrivia (gap ++ t :: rest)).head?.map Token.kind = some (.keyword k) := by
  rw [skipTrivia_gap _ hgap (isTrivia_of_is ht), List.head?_cons, Option.map_some, kind_of_is ht]

/-! ## Arms and separators -/

/-- An arm of a union. -/
structure Arm where
  tokens : List Token
  isArm : IsArm tokens

/-- `UNION` or `UNION ALL` with the white space around it. -/
structure Separator where
  before : List Token
  union : Token
  /-- `ALL`, and the white space before it. -/
  all : Option (List Token × Token)
  after : List Token
  before_blank : Blank before
  is_union : union.is .UNION
  all_blank : ∀ p ∈ all, Blank p.1 ∧ p.2.is .ALL
  after_blank : Blank after

/-- The separator without the white space around it. -/
def Separator.word (x : Separator) : List Token :=
  x.union :: x.all.elim [] fun p => p.1 ++ [p.2]

def Separator.tokens (x : Separator) : List Token := x.before ++ x.word ++ x.after

/-- The tokens of arms, each but the first after a separator. -/
def unionTokens (arm : Arm) : List (Separator × Arm) → List Token
  | [] => arm.tokens
  | (x, next) :: rest => arm.tokens ++ (x.tokens ++ unionTokens next rest)

/-- The text of arms that are converted one after another, each with the columns known by then. -/
def Columns.unionText (c : Columns) (arm : Arm) : List (Separator × Arm) → Text
  | [] => (c.convert arm.tokens).1
  | (x, next) :: rest =>
      (c.convert arm.tokens).1 ++ joinText x.tokens ++
        (c.convert arm.tokens).2.unionText next rest

/-- The separator takes nothing away from the arm before it. -/
structure Columns.KeepsEnd (c : Columns) (arm : Arm) (x : Separator) : Prop where
  /-- A line end before the separator is not passed over. -/
  line : x.before.any Token.isNewline → looksOn (cut arm.tokens) = false
  /-- There is no semicolon to be taken back. -/
  semicolon : (c.convert arm.tokens).1.trimEnd.getLast? ≠ some ';'

/-- No separator takes anything away from the arm before it. -/
def Columns.KeepEnds (c : Columns) (arm : Arm) : List (Separator × Arm) → Prop
  | [] => True
  | (x, next) :: rest => c.KeepsEnd arm x ∧ (c.convert arm.tokens).2.KeepEnds next rest

namespace Arm

theorem tokens_ne_nil (arm : Arm) : arm.tokens ≠ [] := by
  obtain ⟨t, ts, htokens, -⟩ := arm.isArm.eq_cons
  simp [htokens]

theorem head_skipTrivia (arm : Arm) {gap : List Token} (hgap : ∀ t ∈ gap, t.isTrivia)
    (rest : List Token) :
    (skipTrivia (gap ++ arm.tokens ++ rest)).head?.map Token.kind = some (.keyword .SELECT) := by
  obtain ⟨t, ts, htokens, ht⟩ := arm.isArm.eq_cons
  rw [htokens, List.append_assoc]
  exact map_kind_head?_gap hgap ht (ts ++ rest)

theorem ended (arm : Arm) {ts : List Token} (h : Lexed ts) (harm : ∀ t ∈ arm.tokens, t ∈ ts) :
    Ended arm.tokens := by
  refine ⟨fun t ht => h.spelled t (harm t ht), fun z hz => ?_⟩
  have hmem := harm z (List.mem_of_getLast? hz)
  exact ⟨arm.isArm.last z hz, h.clean z hmem, arm.isArm.kind_last z hz⟩

/-- The text of an arm starts with its `SELECT`. -/
theorem trimEnd_convert_ne_nil (arm : Arm) (c : Columns)
    (h : ∀ t ∈ arm.tokens, Token.Spelled t.kind t.text) :
    (c.convert arm.tokens).1.trimEnd ≠ [] := by
  obtain ⟨t, ts, htokens, ht⟩ := arm.isArm.eq_cons
  have hsolid : Text.endsSolid t.text := endsSolid_of_is (h t (by simp [htokens])) ht
  obtain ⟨d, hd, hblank, -⟩ := Text.last_of_endsSolid hsolid
  intro hnil
  have hmem : d ∈ (c.convert arm.tokens).1 := by
    rw [Columns.convert, htokens, read, readFrom_select ts none ht, closing, List.nil_append,
      Columns.write]
    exact List.mem_append_left _ (List.mem_of_getLast? hd)
  simp [Text.isBlank_of_trimEnd_eq_nil hnil d hmem] at hblank

/-- A piece that is cut after an arm is converted as that arm. -/
theorem convertFrom_piece (arm : Arm) {before after more : List Token} (hbefore : Blank before)
    (hafter : Blank after)
    (hlen : pieceLength .tsql (before ++ arm.tokens ++ after ++ more) =
      (before ++ arm.tokens ++ after).length) (out : Text) (c : Columns) :
    convertFrom .tsql out c (before ++ arm.tokens ++ after ++ more) =
      convertFrom .tsql
        (out ++ (joinText before ++ (c.convert arm.tokens).1 ++
          if looksOn (cut arm.tokens) then [] else joinText after))
        (c.convert arm.tokens).2 more := by
  have hne : before ++ arm.tokens ++ after ≠ [] := by simp [arm.tokens_ne_nil]
  rw [convertFrom_select hne hlen (arm.head_skipTrivia hbefore.isTrivia after),
    c.convert_gap arm.isArm.closed hbefore.isTrivia hafter.isTrivia]

end Arm

/-- The separator is cut off with what is left of the white space before it. -/
theorem Separator.directEnd_eq (x : Separator) {gap : List Token} (hgap : Blank gap) (next : Arm)
    (rest : List Token) :
    directEnd (gap ++ (x.word ++ (x.after ++ (next.tokens ++ rest)))) 0 =
      (gap ++ x.word).length := by
  cases hall : x.all with
  | none =>
      obtain ⟨t, ts, htokens, ht⟩ := next.isArm.eq_cons
      have hkind : t.kind = .keyword .SELECT := kind_of_is ht
      have hword : x.word = [x.union] := by simp [word, hall]
      have hend := Statement.directEnd_union hgap x.is_union x.after_blank
        (by simp [hkind] : t.kind ≠ .blank) (ts ++ rest)
      rw [hword, htokens]
      simpa [Token.is, hkind] using hend
  | some p =>
      obtain ⟨inner, a⟩ := p
      obtain ⟨hinner, ha⟩ := x.all_blank _ hall
      have hkind : a.kind = .keyword .ALL := kind_of_is ha
      have hword : x.word = x.union :: (inner ++ [a]) := by simp [word, hall]
      have hend := Statement.directEnd_union hgap x.is_union hinner
        (by simp [hkind] : a.kind ≠ .blank) (x.after ++ (next.tokens ++ rest))
      rw [hword]
      simpa [ha, Nat.add_assoc, Nat.add_comm 1] using hend

theorem Separator.head_skipTrivia (x : Separator) {gap : List Token}
    (hgap : ∀ t ∈ gap, t.isTrivia) :
    (skipTrivia (gap ++ x.word)).head?.map Token.kind = some (.keyword .UNION) :=
  map_kind_head?_gap hgap x.is_union _

/-! ## The whole union -/

theorem exists_unionTokens (arm : Arm) (links : List (Separator × Arm)) :
    ∃ rest, unionTokens arm links = arm.tokens ++ rest := by
  cases links with
  | nil => exact ⟨[], by simp [unionTokens]⟩
  | cons link links => exact ⟨_, rfl⟩

/-- What is written through a separator that is cut `n` tokens after the arm. -/
def Columns.linkText (c : Columns) (out : Text) (arm : Arm) (x : Separator) (n : Nat) : Text :=
  dropSemicolon (out ++ (c.convert arm.tokens).1 ++
      if looksOn (cut arm.tokens) then [] else joinText (x.before.take n)) ++
    joinText (x.before.drop n ++ x.word)

/-- An arm and the separator after it are two pieces. The first cut is made in the white space
before the separator. -/
theorem exists_convertFrom_link (arm : Arm) (x : Separator) (next : Arm) {gap rest : List Token}
    (hgap : Blank gap) (h : Lexed (gap ++ (arm.tokens ++ (x.tokens ++ (next.tokens ++ rest)))))
    (out : Text) (c : Columns) :
    ∃ n ≤ x.before.length, (0 < n ↔ x.before.any Token.isNewline) ∧
      convertFrom .tsql out c (gap ++ (arm.tokens ++ (x.tokens ++ (next.tokens ++ rest)))) =
        convertFrom .tsql (c.linkText (out ++ joinText gap) arm x n) (c.convert arm.tokens).2
          (x.after ++ (next.tokens ++ rest)) := by
  obtain ⟨n, hn, hline, hcut⟩ := arm.isArm.exists_cut_union x.before_blank.isTrivia x.is_union
    ((x.all.elim [] fun p => p.1 ++ [p.2]) ++ (x.after ++ (next.tokens ++ rest)))
  refine ⟨n, hn, hline, ?_⟩
  have hbefore : Blank (x.before.take n) := fun t ht => x.before_blank t (List.mem_of_mem_take ht)
  have hleft : Blank (x.before.drop n) := fun t ht => x.before_blank t (List.mem_of_mem_drop ht)
  have hsplit : gap ++ (arm.tokens ++ (x.tokens ++ (next.tokens ++ rest))) =
      gap ++ arm.tokens ++ x.before.take n ++ ((x.before.drop n ++ x.word) ++
        (x.after ++ (next.tokens ++ rest))) := by
    simp only [Separator.tokens, List.append_assoc]
    rw [← List.append_assoc (x.before.take n), List.take_append_drop]
  have harm : pieceLength .tsql (gap ++ arm.tokens ++ x.before.take n ++
      ((x.before.drop n ++ x.word) ++ (x.after ++ (next.tokens ++ rest)))) =
        (gap ++ arm.tokens ++ x.before.take n).length := by
    have htokens : x.tokens ++ (next.tokens ++ rest) = x.before ++ x.union ::
        ((x.all.elim [] fun p => p.1 ++ [p.2]) ++ (x.after ++ (next.tokens ++ rest))) := by
      simp [Separator.tokens, Separator.word]
    rw [← hsplit, h.pieceLength_eq (by simp [arm.tokens_ne_nil]), arm.isArm.directEnd_eq hgap,
      htokens, hcut]
    simp [Nat.min_eq_left hn]
  rw [hsplit] at h ⊢
  have hseparator : pieceLength .tsql ((x.before.drop n ++ x.word) ++
      (x.after ++ (next.tokens ++ rest))) = (x.before.drop n ++ x.word).length := by
    rw [h.right.pieceLength_eq (by simp [Separator.word]), List.append_assoc,
      x.directEnd_eq hleft next rest]
  rw [arm.convertFrom_piece hgap hbefore harm,
    convertFrom_union (by simp [Separator.word]) hseparator (x.head_skipTrivia hleft.isTrivia),
    Columns.linkText]
  simp only [List.append_assoc]

section Link

variable (c : Columns) (arm : Arm) (x : Separator) {n : Nat} (hle : n ≤ x.before.length)
  (hn : 0 < n ↔ x.before.any Token.isNewline)

include hle hn

/-- White space is lost only if there is a line end in it, and only after a term that looks on. -/
theorem wholeIff_before (hne : ∀ t ∈ x.before, t.text ≠ []) :
    WholeIff (x.before.any Token.isNewline → looksOn (cut arm.tokens) = false)
      (if looksOn (cut arm.tokens) then [] else joinText (x.before.take n))
      (joinText (x.before.take n)) := by
  cases looksOn (cut arm.tokens) with
  | false => exact ⟨fun _ => rfl, fun h => absurd (fun _ => rfl) h⟩
  | true =>
      refine ⟨fun h => ?_, fun h => ?_⟩
      · have hzero : n = 0 := by
          by_contra hpos
          cases h (hn.mp (Nat.pos_of_ne_zero hpos))
        rw [hzero]
        rfl
      · have hpos : 0 < n := hn.mpr (by_contra fun hline => h fun hany => absurd hany hline)
        obtain ⟨t, ts, hbefore⟩ := List.exists_cons_of_ne_nil
          (List.ne_nil_of_length_pos (hpos.trans_le hle))
        obtain ⟨m, rfl⟩ := Nat.exists_eq_succ_of_ne_zero hpos.ne'
        have htext := List.length_pos_iff.mpr (hne t (by simp [hbefore]))
        rw [hbefore, List.take_succ_cons, joinText_cons, List.length_append, if_pos rfl,
          List.length_nil]
        exact Nat.add_pos_left htext _

/-- All that a separator can take away is what the arm before it does not keep. -/
theorem wholeIff_linkText {ts : List Token} (h : Lexed ts) (harm : ∀ t ∈ arm.tokens, t ∈ ts)
    (hx : ∀ t ∈ x.before, t ∈ ts) (out : Text) :
    WholeIff (c.KeepsEnd arm x) (c.linkText out arm x n)
      (out ++ (c.convert arm.tokens).1 ++ joinText (x.before ++ x.word)) := by
  have hbefore := wholeIff_before arm x hle hn fun t ht => h.text_ne_nil t (hx t ht)
  rw [Columns.linkText]
  generalize hkept : (if looksOn (cut arm.tokens) then [] else joinText (x.before.take n)) = kept
    at hbefore
  -- What is kept of the white space is blank, so that a semicolon is looked for in the arm.
  have hblank : ∀ d ∈ kept, Text.isBlank d := by
    rw [← hkept]
    split
    · simp
    · exact h.isBlank_joinText (fun t ht => x.before_blank t (List.mem_of_mem_take ht))
        fun t ht => hx t (List.mem_of_mem_take ht)
  have hne := arm.trimEnd_convert_ne_nil c fun t ht => h.spelled t (harm t ht)
  have hlast : (out ++ (c.convert arm.tokens).1 ++ kept).trimEnd.getLast? =
      (c.convert arm.tokens).1.trimEnd.getLast? := by
    rw [Text.trimEnd_append_of_eq_nil _ (Text.trimEnd_eq_nil hblank), Text.trimEnd_append_of_ne hne,
      List.getLast?_append, List.getLast?_eq_some_getLast hne, Option.some_or]
  have hdrop := wholeIff_dropSemicolon (out ++ (c.convert arm.tokens).1 ++ kept)
  rw [hlast] at hdrop
  have htext : joinText (x.before.take n) ++ joinText (x.before.drop n ++ x.word) =
      joinText (x.before ++ x.word) := by
    rw [← joinText_append, ← List.append_assoc, List.take_append_drop]
  have hwhole := ((hbefore.append_left (out ++ (c.convert arm.tokens).1)).trans hdrop).append_right
    (joinText (x.before.drop n ++ x.word))
  rw [List.append_assoc _ (joinText (x.before.take n)), htext] at hwhole
  exact ⟨fun hkeeps => hwhole.eq ⟨hkeeps.line, hkeeps.semicolon⟩,
    fun hloses => hwhole.lt fun hkeeps => hloses ⟨hkeeps.1, hkeeps.2⟩⟩

end Link

theorem wholeIff_convertFrom_unionTokens (arm : Arm) (links : List (Separator × Arm))
    {gap trailing : List Token} (hgap : Blank gap) (htrailing : Blank trailing)
    (h : Lexed (gap ++ (unionTokens arm links ++ trailing))) (out : Text) (c : Columns) :
    WholeIff (c.KeepEnds arm links)
      (convertFrom .tsql out c (gap ++ (unionTokens arm links ++ trailing))).1
      (out ++ joinText gap ++ c.unionText arm links ++ joinText trailing) := by
  induction links generalizing arm gap out c with
  | nil =>
      rw [unionTokens] at h ⊢
      have hlen : pieceLength .tsql (gap ++ arm.tokens ++ [] ++ trailing) =
          (gap ++ arm.tokens ++ []).length := by
        rw [List.append_nil, List.append_assoc, h.pieceLength_eq (by simp [arm.tokens_ne_nil]),
          arm.isArm.directEnd_eq hgap, arm.isArm.cut_last htrailing.isTrivia, List.length_append]
      have hstep := arm.convertFrom_piece hgap (by simp [Blank]) hlen out c
      simp only [List.append_nil, List.append_assoc] at hstep
      refine ⟨fun _ => ?_, fun h => absurd trivial h⟩
      rw [hstep, convertFrom_blank htrailing h.right.right, Columns.unionText]
      simp
  | cons link links ih =>
      obtain ⟨x, next⟩ := link
      obtain ⟨rest, hrest⟩ := exists_unionTokens next links
      have hsplit : gap ++ (unionTokens arm ((x, next) :: links) ++ trailing) =
          gap ++ (arm.tokens ++ (x.tokens ++ (next.tokens ++ (rest ++ trailing)))) := by
        simp only [unionTokens, hrest, List.append_assoc]
      have hnext : next.tokens ++ (rest ++ trailing) = unionTokens next links ++ trailing := by
        rw [hrest, List.append_assoc]
      rw [hsplit] at h ⊢
      obtain ⟨n, hle, hn, hlink⟩ := exists_convertFrom_link arm x next hgap h out c
      have hwhole := wholeIff_linkText c arm x hle hn h (fun t ht => by simp [ht])
        (fun t ht => by simp [Separator.tokens, ht]) (out ++ joinText gap)
      have hlexed : Lexed (x.after ++ (unionTokens next links ++ trailing)) := by
        rw [← hnext]
        rw [Separator.tokens] at h
        simp only [List.append_assoc] at h
        exact h.right.right.right.right
      have htail := ih next x.after_blank hlexed (c.linkText (out ++ joinText gap) arm x n)
        (c.convert arm.tokens).2
      rw [hlink, hnext]
      simp only [List.append_assoc] at htail
      -- What the later separators take away adds to what this one does.
      have hall := (hwhole.append_right _).trans htail
      simpa only [Columns.KeepEnds, Columns.unionText, Separator.tokens, joinText_append,
        List.append_assoc] using hall

/-! ## Arms whose last term is written -/

theorem mem_unionTokens {arm a : Arm} {links : List (Separator × Arm)}
    (ha : a ∈ arm :: links.map Prod.snd) : ∀ t ∈ a.tokens, t ∈ unionTokens arm links := by
  intro t ht
  induction links generalizing arm with
  | nil =>
      obtain rfl : a = arm := by simpa using ha
      exact ht
  | cons link links ih =>
      obtain ⟨x, next⟩ := link
      rw [unionTokens]
      rcases List.mem_cons.mp ha with rfl | ha
      · exact List.mem_append_left _ ht
      · exact List.mem_append_right _ (List.mem_append_right _ (ih ha))

/-- An arm keeps its end if its last term is written and does not look on. -/
theorem Columns.keepsEnd_of_written (c : Columns) {arm : Arm} (harm : Ended arm.tokens)
    (hlook : looksOn (cut arm.tokens) = false) (hwritten : EndsWritten (cut arm.tokens))
    (x : Separator) : c.KeepsEnd arm x := by
  refine ⟨fun _ => hlook, fun hlast => ?_⟩
  have hsolid := c.endsSolid_convert harm arm.tokens_ne_nil hwritten
  obtain ⟨d, hd, hblank, hsemicolon⟩ := Text.last_of_endsSolid hsolid
  have htrim : (c.convert arm.tokens).1.trimEnd = (c.convert arm.tokens).1 := by
    apply Text.trimEnd_of_last
    rw [hd]
    rintro e ⟨⟩
    exact hblank
  rw [htrim, hd] at hlast
  exact hsemicolon (Option.some.inj hlast)

theorem Columns.keepEnds_of_written (c : Columns) {arm : Arm} {links : List (Separator × Arm)}
    (hended : ∀ a ∈ arm :: links.map Prod.snd, Ended a.tokens)
    (h : ∀ a ∈ (arm :: links.map Prod.snd).dropLast,
      looksOn (cut a.tokens) = false ∧ EndsWritten (cut a.tokens)) : c.KeepEnds arm links := by
  induction links generalizing arm c with
  | nil => trivial
  | cons link links ih =>
      obtain ⟨x, next⟩ := link
      obtain ⟨harm, hnext⟩ := List.forall_mem_cons.mp hended
      simp only [List.map_cons, List.dropLast_cons_cons, List.forall_mem_cons] at h
      exact ⟨c.keepsEnd_of_written harm h.1.1 h.1.2 x, ih _ hnext h.2⟩

/-! ## The whole script -/

/-- A view over a union is converted arm by arm: its header is rewritten, its separators and all
white space are kept, and each arm takes the names of the columns from the arms before it. This is
so if and only if the arms keep their ends before the separators, as those do whose last term is
written and does not look on. -/
theorem convert_view_union {s : Text} {header gap trailing : List Token}
    (hheader : IsHeader header) (hgap : Blank gap) (arm : Arm) (links : List (Separator × Arm))
    (htrailing : Blank trailing)
    (hslice : header ++ (gap ++ (unionTokens arm links ++ trailing)) <:+: tokenize s)
    (herr : ∀ t ∈ header ++ (gap ++ (unionTokens arm links ++ trailing)), t.kind ≠ .error) :
    let script := header ++ (gap ++ (unionTokens arm links ++ trailing))
    let text := createOrReplace header ++ joinText gap ++ ({} : Columns).unionText arm links ++
      joinText trailing
    (convert .tsql script = text ↔ ({} : Columns).KeepEnds arm links) ∧
      (script = tokenize s →
        (convertScript .tsql s = .ok text ↔ ({} : Columns).KeepEnds arm links)) ∧
      ((∀ a ∈ (arm :: links.map Prod.snd).dropLast,
        looksOn (cut a.tokens) = false ∧ EndsWritten (cut a.tokens)) →
          ({} : Columns).KeepEnds arm links) := by
  intro script text
  have hlexed : Lexed script := ⟨⟨s, hslice⟩, herr⟩
  have hne : script ≠ [] := by
    obtain ⟨t, ts, rfl, -⟩ := hheader.eq_cons
    exact List.cons_ne_nil _ _
  have hlen : pieceLength .tsql script = header.length := by
    rw [hlexed.pieceLength_eq hne, hheader.directEnd_eq]
  have htext : convert .tsql script = text ↔ ({} : Columns).KeepEnds arm links := by
    rw [convert, convertFrom_header hheader hlen]
    exact (wholeIff_convertFrom_unionTokens arm links hgap htrailing hlexed.right _ {}).eq_iff
  refine ⟨htext, fun hscript => ?_, Columns.keepEnds_of_written {} fun a ha => ?_⟩
  · have hlex : StatementLexer.tsql.lex s = .ok script := by
      rw [hscript]
      exact Statement.lexStrict_of_forall_ne_error (hscript ▸ herr)
    rw [convertScript, hlex, ← htext]
    exact ⟨Except.ok.inj, congrArg Except.ok⟩
  · refine a.ended hlexed fun t ht => ?_
    simp [script, mem_unionTokens ha t ht]

theorem convert_view_union_three_arms :
    let s := ("CREATE VIEW v AS SELECT a, n = b\nUNION ALL SELECT CASE c WHEN 1 THEN 2 ELSE 3 " ++
      "END, d UNION SELECT dbo.e, TOP\n").toList
    let ts := tokenize s
    IsHeader (ts.take 7) ∧ Blank ((ts.drop 7).take 1) ∧ Blank (ts.drop 56) ∧
      (∀ t ∈ ts, t.kind ≠ .error) ∧
      convertScript .tsql s =
        .ok ("CREATE OR REPLACE VIEW v AS SELECT a, b AS n\nUNION ALL SELECT CASE c WHEN 1 " ++
          "THEN 2 ELSE 3 END AS a, d AS n UNION SELECT e AS a, TOP\n").toList := by
  intro s ts
  let space (start : Nat) : Token := ⟨.blank, [' '], ⟨start, start + 1⟩⟩
  let union (start : Nat) : Token := ⟨.keyword .UNION, "UNION".toList, ⟨start, start + 5⟩⟩
  let all : Token := ⟨.keyword .ALL, "ALL".toList, ⟨39, 42⟩⟩
  let separator₁ : Separator :=
    { before := [⟨.blank, ['\n'], ⟨32, 33⟩⟩], union := union 33, all := some ([space 38], all)
      after := [space 42], before_blank := by decide, is_union := rfl, all_blank := by decide
      after_blank := by decide }
  let separator₂ : Separator :=
    { before := [space 84], union := union 85, all := none, after := [space 90]
      before_blank := by decide, is_union := rfl, all_blank := by decide, after_blank := by decide }
  let arm₁ := (ts.drop 8).take 10
  let arm₂ := (ts.drop 23).take 22
  let arm₃ := (ts.drop 48).take 8
  let script := ts.take 7 ++ ((ts.drop 7).take 1 ++ (arm₁ ++ (separator₁.tokens ++ (arm₂ ++
    (separator₂.tokens ++ arm₃))) ++ ts.drop 56))
  let c₁ := ({} : Columns).convert arm₁
  let c₂ := c₁.2.convert arm₂
  have hfacts : IsHeader (ts.take 7) ∧ Blank ((ts.drop 7).take 1) ∧ Blank (ts.drop 56) ∧
      (∀ t ∈ ts, t.kind ≠ .error) ∧ IsArm arm₁ ∧ IsArm arm₂ ∧ IsArm arm₃ ∧
      (looksOn (cut arm₁) = false ∧ EndsWritten (cut arm₁)) ∧
      (looksOn (cut arm₂) = false ∧ EndsWritten (cut arm₂)) ∧ script = ts ∧
      createOrReplace (ts.take 7) ++ joinText ((ts.drop 7).take 1) ++
        (c₁.1 ++ joinText separator₁.tokens ++
          (c₂.1 ++ joinText separator₂.tokens ++ (c₂.2.convert arm₃).1)) ++
        joinText (ts.drop 56) =
      ("CREATE OR REPLACE VIEW v AS SELECT a, b AS n\nUNION ALL SELECT CASE c WHEN 1 " ++
        "THEN 2 ELSE 3 END AS a, d AS n UNION SELECT e AS a, TOP\n").toList := by
    decide +kernel
  obtain ⟨hheader, hgap, htrailing, herr, harm₁, harm₂, harm₃, hend₁, hend₂, hscript, htext⟩ :=
    hfacts
  have hslice : script <:+: ts := hscript ▸ List.infix_rfl
  obtain ⟨-, hunion, hends⟩ := convert_view_union (s := s) hheader hgap ⟨arm₁, harm₁⟩
    [(separator₁, ⟨arm₂, harm₂⟩), (separator₂, ⟨arm₃, harm₃⟩)] htrailing
    hslice fun t ht => herr t (hslice.subset ht)
  have hkeeps := hends (by simpa using ⟨hend₁, hend₂⟩)
  exact ⟨hheader, hgap, htrailing, herr,
    ((hunion hscript).mpr hkeeps).trans (congrArg Except.ok htext)⟩

/-- The script creates a view over two arms, the first of which has `n` tokens, and is not converted
arm by arm. -/
def LosesEnd (s : Text) (n : Nat) : Prop :=
  let ts := tokenize s
  let header := ts.take 7
  let gap := (ts.drop 7).take 1
  let arm := (ts.drop 8).take n
  let before := (ts.drop (8 + n)).take 1
  let union := (ts.drop (9 + n)).take 1
  let after := (ts.drop (10 + n)).take 1
  let next := ts.drop (11 + n)
  let c := ({} : Columns).convert arm
  header ++ gap ++ arm ++ before ++ union ++ after ++ next = ts ∧
    (∀ t ∈ ts, t.kind ≠ .error) ∧ IsHeader header ∧ IsArm arm ∧ IsArm next ∧
    Blank gap ∧ Blank before ∧ union.map Token.kind = [.keyword .UNION] ∧ Blank after ∧
    convertScript .tsql s ≠ .ok (createOrReplace header ++ joinText gap ++ c.1 ++
      joinText (before ++ union ++ after) ++ (c.2.convert next).1)

instance (s : Text) (n : Nat) : Decidable (LosesEnd s n) := by
  unfold LosesEnd
  infer_instance

/-- Not every script is converted arm by arm. `TOP` takes the line end after it for its count, and a
name with an equals sign passes over it, so that none is left before `UNION`. After `dbo.` and `@`,
which are written as nothing, a comment is taken to end with the semicolon of a statement. An `ELSE`
without `CASE` ends the statement, and the name after it is no longer in a select list. -/
theorem convert_view_union_ne :
    LosesEnd "CREATE VIEW v AS SELECT TOP\nUNION SELECT 1".toList 3 ∧
    LosesEnd "CREATE VIEW v AS SELECT a =\nUNION SELECT 1".toList 5 ∧
    LosesEnd "CREATE VIEW v AS SELECT -- ;\n dbo. UNION SELECT 1".toList 7 ∧
    LosesEnd "CREATE VIEW v AS SELECT -- ;\n @ UNION SELECT 1".toList 6 ∧
    (let s := "CREATE VIEW v AS SELECT a ELSE B".toList
      let ts := tokenize s
      let header := ts.take 7
      let gap := (ts.drop 7).take 1
      let arm := ts.drop 8
      header ++ gap ++ arm = ts ∧
      (∀ t ∈ ts, t.kind ≠ .error) ∧ IsHeader header ∧ Blank gap ∧
      arm.head?.bind Token.keyword? = some .SELECT ∧ openAfter 0 arm = 0 ∧
      (∀ t ∈ arm, t.is .CASE = false ∧ t.is .END = false) ∧
      topLevel? Statement.breaksArm arm.tail = none ∧
      (∀ z ∈ arm.getLast?, z.isTrivia = false) ∧
      convertScript .tsql s ≠ .ok (createOrReplace header ++ joinText gap ++
        (({} : Columns).convert arm).1)) := by
  refine ⟨by decide +kernel, by decide +kernel, by decide +kernel, by decide +kernel, ?_⟩
  intro s ts header gap arm
  -- The script is cut before `ELSE`, so that the name after it is no longer part of the arm.
  let piece := (ts.drop 7).take 4
  let rest := ts.drop 11
  have hfacts : (header ++ gap ++ arm = ts ∧ (∀ t ∈ ts, t.kind ≠ .error) ∧ IsHeader header ∧
      Blank gap ∧ arm.head?.bind Token.keyword? = some .SELECT ∧ openAfter 0 arm = 0 ∧
      (∀ t ∈ arm, t.is .CASE = false ∧ t.is .END = false) ∧
      topLevel? Statement.breaksArm arm.tail = none ∧
      (∀ z ∈ arm.getLast?, z.isTrivia = false)) ∧
      header ++ (piece ++ (rest ++ [])) = ts ∧
      pieceLength .tsql (header ++ (piece ++ (rest ++ []))) = header.length ∧
      pieceLength .tsql (piece ++ (rest ++ [])) = piece.length ∧
      pieceLength .tsql (rest ++ []) = rest.length ∧
      (piece ≠ [] ∧ (skipTrivia piece).head?.map Token.kind = some (.keyword .SELECT)) ∧
      (rest ≠ [] ∧ (skipTrivia rest).head?.map Token.kind = some (.keyword .ELSE)) ∧
      (∀ t ∈ skipTrivia rest,
        t.is .CONVERT = false ∧ t.isWord "dateadd" = false ∧ t.isWord "dbo" = false) ∧
      createOrReplace header ++ (({} : Columns).convert piece).1 ++
        joinText (rest.take (triviaLength rest)) ++
        (skipTrivia rest).flatMap Expression.tokenText ≠
      createOrReplace header ++ joinText gap ++ (({} : Columns).convert arm).1 := by decide +kernel
  obtain ⟨hclaim, hsplit, hlen₁, hlen₂, hlen₃, ⟨hpiece, hselect⟩, ⟨hrest, helse⟩, hplain, hne⟩ :=
    hfacts
  have hconvert : convert .tsql ts = createOrReplace header ++ (({} : Columns).convert piece).1 ++
      joinText (rest.take (triviaLength rest)) ++
      (skipTrivia rest).flatMap Expression.tokenText := by
    rw [convert, ← hsplit, convertFrom_header hclaim.2.2.1 hlen₁,
      convertFrom_select hpiece hlen₂ hselect, convertFrom_else hrest hlen₃ helse,
      Expression.emit_eq_flatMap_tokenText hplain, convertFrom]
    rfl
  have hlex : StatementLexer.tsql.lex s = .ok ts :=
    Statement.lexStrict_of_forall_ne_error hclaim.2.1
  obtain ⟨hts, herr, hheader, hgap, hstart, hclosed, hcases, htop, hlast⟩ := hclaim
  refine ⟨hts, herr, hheader, hgap, hstart, hclosed, hcases, htop, hlast, ?_⟩
  rw [convertScript, hlex]
  intro h
  exact hne (hconvert.symm.trans (Except.ok.inj h))

end SqlMigration.View
