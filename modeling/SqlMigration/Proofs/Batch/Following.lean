import SqlMigration.Proofs.Batch.Voice
import SqlMigration.Proofs.Expression.Call

/-! # What follows in a script

Whether the text of a list of tokens opens with `UNION` can be told from the list. Pieces that write
nothing are passed over, and the first other piece decides.
-/

namespace SqlMigration

open Text

/-! ## Between the arms of a union -/

/-- Whether tokens of this kind make up a `UNION` or `UNION ALL`, with what stands between the
words. -/
def Kind.joinsArms (k : Kind) : Bool := k.isTrivia || k = .keyword .UNION || k = .keyword .ALL

theorem kind_ne_of_joinsArms {t : Token} {k : Kind} (h : t.kind.joinsArms)
    (hk : k.joinsArms = false) : t.kind ≠ k := by
  rintro rfl
  rw [hk] at h
  cases h

theorem isIdentifier_of_joinsArms {k : Kind} (h : k.joinsArms) : k.isIdentifier = false := by
  cases k
  case identifier | bracketed | doubleQuoted => cases h
  all_goals rfl

namespace Query

theorem hintsFrom_of_joinsArms {ts : List Token} (h : ∀ t ∈ ts, t.kind.joinsArms) (i blanks : Nat) :
    hintsFrom i blanks ts = [] := by
  induction ts generalizing i blanks with
  | nil => rw [hintsFrom]
  | cons t ts ih =>
      obtain ⟨ht, hts⟩ := List.forall_mem_cons.mp h
      have hwith : t.is .WITH = false := by
        simpa [Token.is] using kind_ne_of_joinsArms ht (k := .keyword .WITH) rfl
      have hparen : t.kind ≠ .leftParen := kind_ne_of_joinsArms ht rfl
      have hhint : hintLength? (t :: ts) = none := by simp [hintLength?, hwith, hparen]
      rw [hintsFrom, hhint]
      exact ih hts _ _

theorem remaining_nil (i : Nat) (ts : List Token) : remaining [] i ts = ts := by
  induction ts generalizing i with
  | nil => rfl
  | cons t ts ih => simp [remaining, isCut, ih]

/-- A `UNION` is copied. -/
theorem emit_of_joinsArms {ts : List Token} (h : ∀ t ∈ ts, t.kind.joinsArms) :
    emit ts = joinText ts := by
  have hselect : ∀ t ∈ ts, ¬ t.is .SELECT := by
    intro t ht
    simpa [Token.is] using kind_ne_of_joinsArms (h t ht) (k := .keyword .SELECT) rfl
  have htop : top? ts = none := by
    cases hfind : topLevel? (·.is .SELECT) ts with
    | none => simp [top?, hfind]
    | some i =>
        obtain ⟨u, us, hdrop, hu⟩ := drop_of_topLevelFrom? hfind
        have hmem : u ∈ ts := List.mem_of_mem_drop (hdrop ▸ List.mem_cons_self)
        exact absurd hu (hselect u hmem)
  have hkept : kept ts = ts := by
    rw [kept, htop, hints, hintsFrom_of_joinsArms h, outside_eq_remaining]
    exact remaining_nil 0 ts
  have hinto : into? ts = none := by
    have hfirst : firstKeyword? ts ≠ some .SELECT := by
      intro hfirst
      obtain ⟨u, hu, hk⟩ := Option.bind_eq_some_iff.mp hfirst
      have hmem := (List.dropWhile_suffix _).subset (List.mem_of_mem_head? hu)
      exact hselect u hmem (Batch.is_self_of_keyword? hk)
    simp [into?, hfirst]
  have hplain : ts.all Expression.isPlainToken := by
    refine List.all_eq_true.mpr fun t ht => ?_
    have hconvert : t.is .CONVERT = false := by
      simpa [Token.is] using kind_ne_of_joinsArms (h t ht) (k := .keyword .CONVERT) rfl
    have hword (w : String) : t.isWord w = false := by
      simp [Token.isWord, isIdentifier_of_joinsArms (h t ht)]
    simp [Expression.isPlainToken, hconvert, hword]
  rw [emit, htop, hkept]
  dsimp only
  rw [body, hinto]
  dsimp only
  rw [Expression.emit_of_isPlainToken hplain, joinText, List.flatMap_def, List.flatMap_def]
  congr 1
  apply List.map_congr_left
  intro t ht
  have hkind := h t ht
  unfold Expression.tokenText
  split
  · exact absurd ‹_› (kind_ne_of_joinsArms hkind rfl)
  · exact absurd ‹_› (kind_ne_of_joinsArms hkind rfl)
  · exact absurd ‹_› (kind_ne_of_joinsArms hkind rfl)
  · rfl

end Query

namespace Batch

/-! ## The first piece that is written -/

/-- What a `UNION` comes out as, where `us` are the other tokens of its piece, and `rest` are those
after it, which come out as `later`. A `UNION` that nothing keeps apart from a name may become part
of it. -/
def unionNext (us rest : List Token) (later : Next) : Next :=
  if us.isEmpty then
    if rest.head?.any Token.isTrivia && later = .other then .union else .unclear
  else if us.head?.any Token.isTrivia && (skipTrivia us).map Token.kind = [.keyword .ALL] then
    .union
  else .unclear

/-- What a statement comes out as together with `rest`, which comes out as `later`. -/
def statementNext (s : Setting) (u : Token) (us rest : List Token) (later : Next) : Next :=
  if u.is .UNION then unionNext us rest later else (voice s u us).or later

/-- What pieces come out as. -/
def next (s : Setting) : List (List Token) → Next
  | [] => .nothing
  | piece :: ps =>
      match skipTrivia piece with
      | [] => next s ps
      | u :: us => statementNext s u us ps.flatten (next s ps)

/-- The text opens as is said. -/
def Agrees (text : Text) : Next → Prop
  | .nothing => Silent .UNION text
  | .union => Opens .UNION true text
  | .other => Opens .UNION false text
  | .unclear => True

theorem Agrees.leadsWith_iff {text : Text} {n : Next} (h : Agrees text n) (hn : n ≠ .unclear) :
    leadsWith .UNION text ↔ n = .union := by
  cases n with
  | nothing => simp [Silent.leads h]
  | union | other => simp [Opens.leadsWith_eq h]
  | unclear => exact absurd rfl hn

section
variable {script text : Text} {gap : List Token} {n : Next}

theorem Agrees.gap_append (hgap : gap <:+: tokenize script) (htrivia : ∀ t ∈ gap, t.isTrivia)
    (hends : LineEnds gap text) (h : Agrees text n) : Agrees (joinText gap ++ text) n := by
  cases n with
  | nothing => exact Silent.gap_append hgap htrivia hends h
  | union | other => exact Opens.gap_append hgap htrivia hends h
  | unclear => trivial

theorem Agrees.blank_append {b : Text} (hb : ∀ c ∈ b, isBlank c) (h : Agrees text n) :
    Agrees (b ++ text) n := by
  cases n with
  | nothing => exact Silent.blank_append hb h
  | union | other => exact Opens.blank_append hb h
  | unclear => trivial

end

theorem voice_ne_union (s : Setting) (t : Token) (ts : List Token) : voice s t ts ≠ .union := by
  unfold voice declarationVoice
  grind

/-! ## What is passed over -/

section
variable {script : Text} {s : Setting}

theorem isPrefix_leadOf {t : Token} (ht : t.isTrivia) (ts : List Token) :
    t.text <+: leadOf (t :: ts) := by
  have hlen : triviaLength (t :: ts) = triviaLength ts + 1 := by simp [triviaLength, ht]
  rw [leadOf, hlen, List.take_succ_cons, joinText_cons]
  exact List.prefix_append _ _

theorem isPrefix_pieceText (s : Setting) (piece : List Token) :
    leadOf piece <+: pieceText s piece := by
  cases hskip : skipTrivia piece with
  | nil => exact ⟨[], by rw [List.append_nil, pieceText_of_trivia hskip]⟩
  | cons u us =>
      rw [pieceText_cons hskip]
      exact List.prefix_append _ _

/-- Trivia at the start are copied. -/
theorem isPrefix_piecesText {t : Token} {ps : List (List Token)} (h : ps.flatten.head? = some t)
    (ht : t.isTrivia) : t.text <+: piecesText s ps := by
  induction ps with
  | nil => cases h
  | cons piece ps ih =>
      cases piece with
      | nil => exact ih h
      | cons u us =>
          cases h
          exact ((isPrefix_leadOf ht us).trans (isPrefix_pieceText s _)).trans
            (List.prefix_append _ _)

/-- A line comment in front of pieces has the end of its line after it. -/
theorem lineEnds_piecesText {gap : List Token} {ps : List (List Token)}
    (h : gap ++ ps.flatten <:+: tokenize script) : LineEnds gap (piecesText s ps) := by
  cases hflat : ps.flatten with
  | nil =>
      have hnil : piecesText s ps = [] := by
        refine List.flatMap_eq_nil_iff.mpr fun piece hpiece => ?_
        rw [List.flatten_eq_nil_iff.mp hflat piece hpiece]
        rfl
      intro t _ _ c hc
      rw [hnil] at hc
      cases hc
  | cons t ts =>
      rw [hflat] at h
      cases ht : t.isTrivia with
      | false => exact lineEnds_of_significant h ht _
      | true =>
          have hts : t :: ts <:+: tokenize script := (List.suffix_append gap _).isInfix.trans h
          have hne := Token.text_ne_nil_of_mem_read .unicode (hts.subset List.mem_cons_self)
          obtain ⟨d, r, hd⟩ := List.exists_cons_of_ne_nil hne
          intro u hu hline c hc
          obtain ⟨front, rfl⟩ := List.getLast?_eq_some_iff.mp hu
          have hpair : u :: t :: ts <:+: tokenize script := by
            rw [List.append_assoc] at h
            exact (List.suffix_append front _).isInfix.trans h
          refine isWithinLine_after_lineComment hpair hline c ?_
          obtain ⟨r', hr'⟩ := isPrefix_piecesText (s := s) (hflat ▸ List.head?_cons) ht
          rw [← hr', hd] at hc
          rw [joinText_cons, hd]
          exact hc

/-- A word ends in front of trivia. -/
theorem endsWord_of_isTrivia {t : Token} {r : Text} (h : t ∈ tokenize script) (ht : t.isTrivia)
    (hr : t.text <+: r) : Token.endsWord r := by
  have hmarks : isBare '-' = false ∧ isBare '/' = false := by decide
  obtain ⟨c, w, hc⟩ := List.exists_cons_of_ne_nil (Token.text_ne_nil_of_mem_read .unicode h)
  have hbare : isBare c = false ∧ c ≠ '\'' := by
    have hshape := Token.shape_of_mem_read h
    rw [hc] at hshape
    rcases kind_of_isTrivia ht with hkind | hkind | hkind <;> rw [hkind] at hshape
    · have hblank := hshape.isBlank_of_mem c List.mem_cons_self
      constructor
      · cases hb : isBare c with
        | false => rfl
        | true =>
            rw [isBlank_of_isBare hb] at hblank
            cases hblank
      · rintro rfl
        cases hblank
    · obtain ⟨body, hbody, -⟩ := hshape.eq_of_lineComment
      cases hbody
      exact ⟨hmarks.1, by decide⟩
    · obtain ⟨body, hbody, -⟩ := hshape.eq_of_blockComment
      cases hbody
      exact ⟨hmarks.2, by decide⟩
  have hname : Token.isNameChar .unicode c = false := by
    cases hn : Token.isNameChar .unicode c with
    | false => rfl
    | true =>
        rw [Token.isBare_of_isNameChar hn] at hbare
        cases hbare.1
  obtain ⟨r', rfl⟩ := hr
  simp [Token.endsWord, hc, hname, hbare.2]

theorem isPrefix_joinText {t : Token} {ts : List Token} (h : ts.head? = some t) :
    t.text <+: joinText ts := by
  obtain ⟨us, rfl⟩ := List.head?_eq_some_iff.mp h
  rw [joinText_cons]
  exact List.prefix_append _ _

theorem solid_of_keyword {t : Token} {k : Keyword} {ts : List Token} (h : t ∈ tokenize script)
    (hk : t.kind = .keyword k) (ht : t ∈ ts) : trimEnd (joinText ts) ≠ [] := by
  intro hnil
  have hword := (word_of_keyword h hk).1
  obtain ⟨c, w, hc⟩ := List.exists_cons_of_ne_nil (Token.text_ne_nil_of_mem_read .unicode h)
  have hmem : c ∈ joinText ts := List.mem_flatMap.mpr ⟨t, ht, hc ▸ List.mem_cons_self⟩
  have hblank := isBlank_of_trimEnd_eq_nil hnil c hmem
  rw [hc] at hword
  have hstart := Token.isNameChar_of_startsWord (Bool.and_eq_true_iff.mp hword).1
  rw [isBlank_of_isBare (Token.isBare_of_isNameChar hstart)] at hblank
  cases hblank

theorem agrees_union {u : Token} {us : List Token} {ps : List (List Token)} {later : Next}
    (hts : u :: (us ++ ps.flatten) <:+: tokenize script) (hu : u.is .UNION)
    (hlater : Agrees (piecesText s ps) later) :
    Agrees (Query.emit (u :: us) ++ piecesText s ps) (unionNext us ps.flatten later) := by
  have hmem : u ∈ tokenize script := hts.subset List.mem_cons_self
  obtain ⟨hword, hfound⟩ := word_of_keyword hmem (kind_of_is hu)
  unfold unionNext
  split
  · rename_i hempty
    obtain rfl := List.isEmpty_iff.mp hempty
    split
    · rename_i hapart
      obtain ⟨hhead, hother⟩ := Bool.and_eq_true_iff.mp hapart
      obtain ⟨r, hr, htrivia⟩ := (Option.any_eq_true _ _).mp hhead
      rw [of_decide_eq_true hother] at hlater
      have hmemr : r ∈ tokenize script :=
        hts.subset (List.mem_cons_of_mem u (List.mem_of_mem_head? hr))
      have hends := endsWord_of_isTrivia hmemr htrivia (isPrefix_piecesText (s := s) hr htrivia)
      have hemit : Query.emit [u] = u.text := by
        rw [Query.emit_of_joinsArms (by simp [Kind.joinsArms, kind_of_is hu])]
        simp [joinText]
      rw [hemit]
      exact opens_of_word hword hfound hends (Opens.solid hlater)
    · trivial
  · split
    · rename_i hall
      obtain ⟨hhead, hkinds⟩ := Bool.and_eq_true_iff.mp hall
      obtain ⟨r, hr, htrivia⟩ := (Option.any_eq_true _ _).mp hhead
      obtain ⟨a, hskip, ha⟩ := List.map_eq_singleton_iff.mp (of_decide_eq_true hkinds)
      obtain ⟨gap, hus, hgap, -, -⟩ := eq_append_of_skipTrivia hskip
      have hsub : ∀ v ∈ us, v ∈ tokenize script := fun v hv =>
        hts.subset (List.mem_cons_of_mem u (List.mem_append_left _ hv))
      have hends := endsWord_of_isTrivia (hsub r (List.mem_of_mem_head? hr)) htrivia
        (isPrefix_joinText hr)
      have hmema : a ∈ us := by simp [hus]
      have hsolid := solid_of_keyword (hsub a hmema) ha hmema
      have hjoins : ∀ v ∈ u :: us, v.kind.joinsArms := by
        refine List.forall_mem_cons.mpr ⟨by simp [Kind.joinsArms, kind_of_is hu], fun v hv => ?_⟩
        rw [hus, List.mem_append, List.mem_singleton] at hv
        rcases hv with hv | rfl
        · have htrivia : v.kind.isTrivia = true := hgap v hv
          simp [Kind.joinsArms, htrivia]
        · simp [Kind.joinsArms, ha]
      rw [Query.emit_of_joinsArms hjoins, joinText_cons]
      exact (opens_of_word hword hfound hends hsolid).append _
    · trivial

/-- A piece with a statement is the statement after trivia. -/
theorem exists_gap_of_piece {piece us : List Token} {u : Token} (h : skipTrivia piece = u :: us) :
    ∃ gap, piece = gap ++ u :: us ∧ (∀ v ∈ gap, v.isTrivia) ∧ leadOf piece = joinText gap ∧
      u.isTrivia = false := by
  obtain ⟨gap, hpiece, hgap, hlen, hu⟩ := eq_append_of_skipTrivia h
  refine ⟨gap, hpiece, hgap, ?_, hu⟩
  rw [leadOf, hlen, hpiece, List.take_left]

/-- The text of a statement in a script, and of what follows it. -/
theorem agrees_statement {u : Token} {us : List Token} {ps : List (List Token)}
    (hts : u :: (us ++ ps.flatten) <:+: tokenize script) {later : Next}
    (hlater : Agrees (piecesText s ps) later) :
    Agrees (statementText s u us ++ piecesText s ps)
      (statementNext s u us ps.flatten later) := by
  unfold statementNext
  split
  · rename_i hu
    have hquery : emitsQuery u us := by simp [emitsQuery, Token.keyword?, kind_of_is hu]
    rw [statementText_of_emitsQuery s hquery]
    exact agrees_union hts hu hlater
  · have hmem : ∀ v ∈ u :: us, v ∈ tokenize script := by
      intro v hv
      exact hts.subset (List.mem_append_left _ hv)
    cases hvoice : voice s u us with
    | nothing =>
        rw [statementText_of_voice hvoice]
        exact hlater
    | union => exact absurd hvoice (voice_ne_union s u us)
    | other => exact (opens_of_voice hmem hvoice).append _
    | unclear => trivial

/-- What pieces come out as can be told from their tokens. -/
theorem agrees_next {ps : List (List Token)} (hps : ps.flatten <:+: tokenize script) :
    Agrees (piecesText s ps) (next s ps) := by
  fun_induction next s ps with
  | case1 => exact Silent.nil
  | case2 piece ps hskip ih =>
      rw [List.flatten_cons] at hps
      have htrivia := List.dropWhile_eq_nil_iff.mp hskip
      have hpiece : pieceText s piece = joinText piece := by
        rw [pieceText_of_trivia hskip, leadOf, triviaLength,
          List.takeWhile_eq_self_iff.mpr htrivia, List.take_length]
      rw [piecesText, List.flatMap_cons, hpiece]
      exact (ih ((List.suffix_append _ _).isInfix.trans hps)).gap_append
        ((List.prefix_append _ _).isInfix.trans hps) htrivia (lineEnds_piecesText hps)
  | case3 piece ps u us hskip ih =>
      obtain ⟨gap, rfl, htrivia, hlead, hu⟩ := exists_gap_of_piece hskip
      rw [List.flatten_cons, List.append_assoc, List.cons_append] at hps
      have hstatement : u :: (us ++ ps.flatten) <:+: tokenize script :=
        (List.suffix_append gap _).isInfix.trans hps
      have hlater := ih (((List.suffix_append us _).trans (List.suffix_cons u _)).isInfix.trans
        hstatement)
      rw [piecesText, List.flatMap_cons, pieceText_cons hskip, hlead, List.append_assoc]
      exact (agrees_statement hstatement hlater).gap_append
        ((List.prefix_append _ _).isInfix.trans hps) htrivia (lineEnds_of_significant hps hu _)

end

end Batch

end SqlMigration
