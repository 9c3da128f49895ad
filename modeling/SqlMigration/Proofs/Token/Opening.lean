import SqlMigration.Proofs.Text.Trimming
import SqlMigration.Proofs.Token.Spaced
import SqlMigration.Proofs.Token.Words

/-! # The keyword that opens a text

What the first significant token of a text is can often be told from the start of the text, whatever
follows: it is read from the first word, after any trivia. Trivia that were copied from a script can
stand before anything, except that a line comment has to be followed by the end of its line.
-/

namespace SqlMigration

open Text

/-- Whether the first significant token of a text is the keyword `k`. -/
def leadsWith (k : Keyword) (s : Text) : Bool := firstKeyword? (tokenize s) = some k

theorem head?_spellings (ts : List Token) :
    (spellings ts).head? = (firstSignificant? ts).map fun t => (t.kind, t.text) := by
  induction ts with
  | nil => rfl
  | cons t ts ih =>
      rw [spellings_cons, firstSignificant?, skipTrivia, List.dropWhile_cons, Token.isTrivia]
      cases t.kind.isTrivia with
      | true => exact ih
      | false => rfl

theorem firstKeyword?_eq (ts : List Token) :
    firstKeyword? ts = (spellings ts).head?.bind fun w => (Token.mk w.1 w.2 ⟨0, 0⟩).keyword? := by
  rw [head?_spellings, firstKeyword?]
  cases firstSignificant? ts <;> rfl

/-- The keyword depends on the significant tokens alone. -/
theorem leadsWith_congr {r s : Text} (h : spellings (tokenize r) = spellings (tokenize s))
    (k : Keyword) : leadsWith k r = leadsWith k s := by
  rw [leadsWith, leadsWith, firstKeyword?_eq, h, ← firstKeyword?_eq]

theorem leadsWith_of_spellings {k : Keyword} {s w : Text} {rest : List (Kind × Text)}
    (h : spellings (tokenize s) = (.keyword k, w) :: rest) : leadsWith k s := by
  rw [leadsWith, firstKeyword?_eq, h]
  simp [Token.keyword?]

theorem leadsWith_blank_append {b : Text} (hb : ∀ c ∈ b, isBlank c) (k : Keyword) (s : Text) :
    leadsWith k (b ++ s) = leadsWith k s :=
  leadsWith_congr (Token.spellings_blank_append hb s) k

/-! ## The first word -/

theorem asciiUpper_of_ofText? {k : Keyword} {s : Text} (h : Keyword.ofText? s = some k) :
    asciiUpper s = k.spelling := by
  obtain ⟨entry, hfind, rfl⟩ := Option.map_eq_some_iff.mp h
  have hmem := List.mem_of_find?_eq_some hfind
  have hword := List.find?_some hfind
  obtain ⟨k, -, rfl⟩ := List.mem_map.mp hmem
  exact (beq_iff_eq.mp hword).symm

/-- Whether a text that starts with this character starts with a significant token. -/
def startsToken (c : Char) : Bool := !isBlank c && c ≠ '-' && c ≠ '/'

theorem isTrivia_of_startsToken {c : Char} (hc : startsToken c) (s : Text) :
    (Token.classify .unicode c s).1.isTrivia = false := by
  have hshape := Token.shapes_classify c s
  simp only [startsToken, Bool.and_eq_true, Bool.not_eq_true', decide_eq_true_eq] at hc
  obtain ⟨⟨hblank, hdash⟩, hslash⟩ := hc
  generalize (Token.classify .unicode c s).1 = kind at hshape
  generalize htext : c :: s.take _ = text at hshape
  cases hshape with
  | blank _ h =>
      rw [← htext] at h
      rw [h c List.mem_cons_self] at hblank
      cases hblank
  | lineComment _ => exact absurd (List.cons.inj htext).1 hdash
  | blockComment _ => exact absurd (List.cons.inj htext).1 hslash
  | bare hk _ _ =>
      simp only [Token.isInert, Bool.and_eq_true, Bool.not_eq_true'] at hk
      exact hk.1.1
  | quoted hk _ _ _ =>
      simp only [Token.quotedKinds, List.mem_cons, List.not_mem_nil, or_false] at hk
      rcases hk with rfl | rfl | rfl | rfl <;> rfl
  | minus | slash | star | exponent _ _ _ | error => rfl

theorem exists_tokenize_cons (c : Char) (s : Text) :
    ∃ u us, tokenize (c :: s) = u :: us ∧ u.kind = (Token.classify .unicode c s).1 ∧
      u.text = c :: s.take (Token.classify .unicode c s).2 :=
  ⟨_, _, Token.read_cons .unicode 0 c s, rfl, rfl⟩

/-- A text that opens with a keyword spells it. -/
theorem spelling_isPrefix_of_leadsWith {k : Keyword} {c : Char} {s : Text} (hc : startsToken c)
    (h : leadsWith k (c :: s)) : k.spelling <+: asciiUpper (c :: s) := by
  obtain ⟨u, us, hread, hkind, htext⟩ := exists_tokenize_cons c s
  have htrivia : u.isTrivia = false := by
    rw [Token.isTrivia, hkind]
    exact isTrivia_of_startsToken hc s
  have hfirst : firstSignificant? (u :: us) = some u := by
    rw [firstSignificant?, skipTrivia, List.dropWhile_cons_of_neg (by simp [htrivia]),
      List.head?_cons]
  rw [leadsWith, hread, firstKeyword?, hfirst, decide_eq_true_eq, Option.bind_some] at h
  have hkeyword : u.kind = .keyword k := by
    unfold Token.keyword? at h
    split at h
    · rename_i hu
      cases h
      exact hu
    · cases h
  have hplain : Token.isPlainWord (Token.classify .unicode c s).1 := by
    rw [← hkind, hkeyword]
    rfl
  have hword := (Token.word_of_isPlainWord hplain).2
  have htake : s.take (s.takeWhile (Token.isNameChar .unicode)).length =
      s.takeWhile (Token.isNameChar .unicode) :=
    (List.prefix_iff_eq_take.mp (List.takeWhile_prefix _)).symm
  rw [hword, Token.word] at hkind htext
  dsimp only at hkind htext
  rw [htake] at htext
  have hspelled : Keyword.ofText? u.text = some k := by
    rw [hkeyword, ← htext, Token.wordKind] at hkind
    split at hkind
    · rename_i hfound
      cases hkind
      exact hfound
    · cases hkind
  rw [← asciiUpper_of_ofText? hspelled, htext]
  exact List.IsPrefix.map _ (List.cons_prefix_cons.mpr ⟨rfl, List.takeWhile_prefix _⟩)

/-- Whether no text that starts with `w` spells the keyword at its start. -/
def clashes (k : Keyword) (w : Text) : Bool :=
  !(asciiUpper w).isPrefixOf k.spelling && !k.spelling.isPrefixOf (asciiUpper w)

theorem not_leadsWith_of_clashes {k : Keyword} {c : Char} {w : Text} (hc : startsToken c)
    (h : clashes k (c :: w)) (s : Text) : leadsWith k (c :: (w ++ s)) = false := by
  cases hleads : leadsWith k (c :: (w ++ s)) with
  | false => rfl
  | true =>
      have hspelled := spelling_isPrefix_of_leadsWith hc hleads
      have hstart : asciiUpper (c :: w) <+: asciiUpper (c :: (w ++ s)) :=
        List.IsPrefix.map _ (List.prefix_append (c :: w) s)
      simp only [clashes, Bool.and_eq_true, Bool.not_eq_true', ← Bool.not_eq_true,
        List.isPrefixOf_iff_prefix] at h
      rcases List.prefix_or_prefix_of_prefix hspelled hstart with hle | hle
      · exact absurd hle h.2
      · exact absurd hle h.1

/-- A keyword in front of a text that does not go on with it. -/
theorem leadsWith_word {k : Keyword} {w r : Text} (hword : Token.spellsWord w)
    (hw : Keyword.ofText? w = some k) (hr : Token.endsWord r) : leadsWith k (w ++ r) := by
  cases w with
  | nil => cases hword
  | cons c w =>
      let t : Token := ⟨.keyword k, c :: w, ⟨0, 0⟩⟩
      have hkind : t.kind = Token.wordKind t.text := by simp [t, Token.wordKind, hw]
      have hstays : t.stays r := Token.stays_word hword hkind hr
      exact leadsWith_of_spellings (Token.spellings_of_stays (t := t) rfl hstays)

/-! ## Trivia in front -/

namespace Token.Shape

theorem eq_of_lineComment {s : Text} (h : Shape .lineComment s) :
    ∃ body, s = '-' :: '-' :: body ∧ ∀ c ∈ body, c ≠ '\n' ∧ c ≠ '\r' := by
  cases h with
  | lineComment hbody => exact ⟨_, rfl, hbody⟩
  | bare hk _ _ => cases hk
  | quoted hk _ _ _ => exact absurd hk (by decide)

theorem eq_of_blockComment {s : Text} (h : Shape .blockComment s) :
    ∃ body, s = '/' :: '*' :: body ∧ commentLength? 0 body = some body.length := by
  cases h with
  | blockComment hbody => exact ⟨_, rfl, hbody⟩
  | bare hk _ _ => cases hk
  | quoted hk _ _ _ => exact absurd hk (by decide)

end Token.Shape

section
variable {script : Text} {gap : List Token}

/-- A line comment is followed by the end of its line. -/
theorem isWithinLine_after_lineComment {t : Token} {rest : List Token}
    (h : t :: rest <:+: tokenize script) (ht : t.kind = .lineComment) :
    ∀ c ∈ (joinText rest).head?, Token.isWithinLine c = false := by
  intro c hc
  have hstays : t.stays (joinText rest) := Token.stays_of_isInfix h (List.nil_append _).symm
  have hshape : Token.Shape t.kind t.text :=
    Token.shape_of_mem_read (h.subset List.mem_cons_self)
  obtain ⟨r, hr⟩ := List.head?_eq_some_iff.mp hc
  rw [ht] at hshape
  obtain ⟨body, htext, -⟩ := hshape.eq_of_lineComment
  obtain ⟨-, htake⟩ := (Token.stays_iff htext).mp hstays
  rw [hr] at htake
  cases hline : Token.isWithinLine c with
  | false => rfl
  | true => exact absurd htake (Token.take_runLength_ne (s := '-' :: body) hline)

/-- A line comment at the end of the trivia has the end of its line after it. -/
def LineEnds (gap : List Token) (s : Text) : Prop :=
  ∀ t ∈ gap.getLast?, t.kind = .lineComment → ∀ c ∈ s.head?, Token.isWithinLine c = false

theorem takeWhile_isWithinLine {s : Text} (h : ∀ c ∈ s.head?, Token.isWithinLine c = false) :
    s.takeWhile Token.isWithinLine = [] := by
  cases s with
  | nil => rfl
  | cons c s => simp [h c rfl]

theorem kind_of_isTrivia {t : Token} (h : t.isTrivia) :
    t.kind = .blank ∨ t.kind = .lineComment ∨ t.kind = .blockComment := by
  unfold Token.isTrivia at h
  generalize t.kind = k at h
  cases k
  case blank | lineComment | blockComment => simp
  all_goals cases h

theorem spellings_trivia_append {t : Token} {s : Text} (h : t ∈ tokenize script)
    (ht : t.isTrivia)
    (hline : t.kind = .lineComment → ∀ c ∈ s.head?, Token.isWithinLine c = false) :
    spellings (tokenize (t.text ++ s)) = spellings (tokenize s) := by
  have hshape := Token.shape_of_mem_read h
  have hne := Token.text_ne_nil_of_mem_read .unicode h
  have hbefore : t.kind = .blank ∨ t.standsBefore s := by
    rcases kind_of_isTrivia ht with hblank | hcomment | hcomment
    · exact .inl hblank
    · have hstop := takeWhile_isWithinLine (hline hcomment)
      exact .inr (by simp [Token.standsBefore, hcomment, hstop])
    · exact .inr (by simp [Token.standsBefore, Token.stays_blockComment hshape hcomment s])
  have hkind : t.kind.isTrivia = true := ht
  rw [Token.spellings_append hshape hne hbefore, hkind]
  rfl

theorem spellings_gap_append (hgap : gap <:+: tokenize script) (htrivia : ∀ t ∈ gap, t.isTrivia)
    {s : Text} (hs : LineEnds gap s) :
    spellings (tokenize (joinText gap ++ s)) = spellings (tokenize s) := by
  induction gap with
  | nil => rfl
  | cons t gap ih =>
      obtain ⟨ht, htrivia⟩ := List.forall_mem_cons.mp htrivia
      have hmem : t ∈ tokenize script := hgap.subset List.mem_cons_self
      have htail : gap <:+: tokenize script := (List.suffix_cons t gap).isInfix.trans hgap
      rw [joinText_cons, List.append_assoc]
      cases gap with
      | nil => exact spellings_trivia_append hmem ht (hs t rfl)
      | cons u gap =>
          have hlast : LineEnds (u :: gap) s := hs
          rw [spellings_trivia_append hmem ht, ih htail htrivia hlast]
          intro hline c hc
          have hu := Token.text_ne_nil_of_mem_read .unicode (htail.subset List.mem_cons_self)
          obtain ⟨d, r, hd⟩ := List.exists_cons_of_ne_nil hu
          refine isWithinLine_after_lineComment hgap hline c ?_
          rw [joinText_cons, hd] at hc ⊢
          exact hc

/-- Trivia before a significant token do not end with a line comment. -/
theorem lineEnds_of_significant {t : Token} {rest : List Token}
    (h : gap ++ t :: rest <:+: tokenize script) (ht : t.isTrivia = false) (s : Text) :
    LineEnds gap s := by
  intro u hu hline
  obtain ⟨front, rfl⟩ := List.getLast?_eq_some_iff.mp hu
  have hpair : u :: t :: rest <:+: tokenize script := by
    rw [List.append_assoc] at h
    exact (List.suffix_append front _).isInfix.trans h
  have hne := Token.text_ne_nil_of_mem_read .unicode (hpair.subset (by simp) : t ∈ tokenize script)
  have hstays := Token.stays_of_isInfix hpair (List.singleton_append (x := u)).symm
  obtain ⟨c, r, htext, hblank⟩ := (Token.sharp_of_stays hne hstays ht).head
  have hend := isWithinLine_after_lineComment hpair hline c (by rw [joinText_cons, htext]; rfl)
  have hnewline : c = '\n' ∨ c = '\r' := by
    simp only [Token.isWithinLine, Bool.and_eq_false_iff, decide_eq_false_iff_not,
      Decidable.not_not] at hend
    exact hend
  rcases hnewline with rfl | rfl <;> cases hblank

end

/-! ## Trimming -/

namespace Text

theorem head?_trimEnd_append {s : Text} (h : trimEnd s ≠ []) (r : Text) :
    (trimEnd s ++ r).head? = s.head? := by
  obtain ⟨b, hs, -⟩ := exists_append_trimEndWhere isBlank s
  obtain ⟨c, t, hc⟩ := List.exists_cons_of_ne_nil h
  rw [show trimEndWhere isBlank s = c :: t from hc] at hs
  rw [hc, hs]
  rfl

end Text

section
variable {script : Text} {gap : List Token}

/-- A line comment stays one without the blank space at its end. -/
theorem shape_trimEnd_lineComment {text : Text} (h : Token.Shape .lineComment text) :
    Token.Shape .lineComment (trimEnd text) := by
  obtain ⟨body, rfl, hbody⟩ := h.eq_of_lineComment
  obtain ⟨b, hb, -⟩ := exists_append_trimEndWhere isBlank body
  have hmem : ∀ c ∈ trimEnd body, c ∈ body := by
    intro c hc
    rw [show body = trimEnd body ++ b from hb]
    exact List.mem_append_left b hc
  have htrim : trimEnd ('-' :: '-' :: body) = '-' :: '-' :: trimEnd body := by
    by_cases hnil : trimEnd body = []
    · rw [hnil]
      exact trimEnd_append_of_eq_nil ['-', '-'] hnil
    · exact trimEnd_append_of_ne (r := ['-', '-']) hnil
  rw [htrim]
  exact .lineComment fun c hc => hbody c (hmem c hc)

theorem trimEnd_blockComment {text : Text} (h : Token.Shape .blockComment text) :
    trimEnd text = text := by
  obtain ⟨body, rfl, hbody⟩ := h.eq_of_blockComment
  apply trimEnd_of_last
  intro c hc
  rw [List.getLast?_cons, List.getLast?_cons, Token.getLast?_commentLength? hbody] at hc
  cases hc
  decide

theorem all_isBlank_takeWhile {b : Text} (hb : ∀ c ∈ b, isBlank c) (s : Text) :
    ((b ++ '\n' :: s).takeWhile Token.isWithinLine).all isBlank := by
  induction b with
  | nil => rfl
  | cons c b ih =>
      obtain ⟨hc, hb⟩ := List.forall_mem_cons.mp hb
      rw [List.cons_append, List.takeWhile_cons]
      split
      · rw [List.all_cons, hc, ih hb]
        rfl
      · rfl

/-- The last of the trivia loses blank space, and a line ends after it. -/
theorem spellings_trimEnd_trivia {t : Token} (h : t ∈ tokenize script) (ht : t.isTrivia) {b : Text}
    (hb : ∀ c ∈ b, isBlank c) (s : Text) :
    spellings (tokenize (trimEnd t.text ++ (b ++ '\n' :: s))) =
      spellings (tokenize (b ++ '\n' :: s)) := by
  have hshape := Token.shape_of_mem_read h
  rcases kind_of_isTrivia ht with hkind | hkind | hkind
  · rw [hkind] at hshape
    have hnil : trimEnd t.text = [] := trimEnd_eq_nil hshape.isBlank_of_mem
    rw [hnil, List.nil_append]
  · let t' : Token := ⟨.lineComment, trimEnd t.text, t.span⟩
    rw [hkind] at hshape
    exact Token.spellings_lineComment (t := t') (shape_trimEnd_lineComment hshape) rfl
      (all_isBlank_takeWhile hb s)
  · rw [hkind] at hshape
    rw [trimEnd_blockComment hshape]
    refine spellings_trivia_append h ht fun hline => ?_
    rw [hkind] at hline
    cases hline

theorem spellings_trimEnd_gap (hgap : gap <:+: tokenize script) (htrivia : ∀ t ∈ gap, t.isTrivia)
    {b : Text} (hb : ∀ c ∈ b, isBlank c) (s : Text) :
    spellings (tokenize (trimEnd (joinText gap) ++ (b ++ '\n' :: s))) =
      spellings (tokenize (b ++ '\n' :: s)) := by
  induction gap with
  | nil => rfl
  | cons t gap ih =>
      obtain ⟨ht, htrivia⟩ := List.forall_mem_cons.mp htrivia
      have hmem : t ∈ tokenize script := hgap.subset List.mem_cons_self
      have htail : gap <:+: tokenize script := (List.suffix_cons t gap).isInfix.trans hgap
      rw [joinText_cons]
      by_cases hnil : trimEnd (joinText gap) = []
      · rw [trimEnd_append_of_eq_nil _ hnil]
        exact spellings_trimEnd_trivia hmem ht hb s
      · rw [trimEnd_append_of_ne hnil, List.append_assoc, spellings_trivia_append hmem ht,
          ih htail htrivia]
        intro hline c hc
        rw [head?_trimEnd_append hnil] at hc
        exact isWithinLine_after_lineComment hgap hline c hc

end

/-! ## Texts whose opening is known -/

/-- Whether the keyword opens the text is known, whatever follows and even if the text loses the
blank space at its end. -/
structure Opens (k : Keyword) (p : Bool) (s : Text) : Prop where
  solid : trimEnd s ≠ []
  leads (r : Text) : leadsWith k (trimEnd s ++ r) = p

/-- The text says nothing: another one in a line after it opens as it would alone. -/
structure Silent (k : Keyword) (s : Text) : Prop where
  passes {b : Text} (hb : ∀ c ∈ b, isBlank c) (r : Text) :
    leadsWith k (trimEnd s ++ (b ++ '\n' :: r)) = leadsWith k r
  leads : leadsWith k s = false

theorem exists_trimEnd_append (s : Text) : ∃ b, s = trimEnd s ++ b ∧ ∀ c ∈ b, isBlank c :=
  exists_append_trimEndWhere isBlank s

section
variable {k : Keyword} {p : Bool} {s r : Text}

namespace Opens

theorem leadsWith_eq (h : Opens k p s) : leadsWith k s = p := by
  obtain ⟨b, hs, -⟩ := exists_trimEnd_append s
  rw [hs]
  exact h.leads b

theorem trimEnd (h : Opens k p s) : Opens k p (trimEnd s) := by
  constructor
  · rw [trimEnd_trimEnd]
    exact h.solid
  · rw [trimEnd_trimEnd]
    exact h.leads

theorem append (h : Opens k p s) (r : Text) : Opens k p (s ++ r) := by
  by_cases hr : Text.trimEnd r = []
  · have htrim := trimEnd_append_of_eq_nil s hr
    exact ⟨by rw [htrim]; exact h.solid, fun x => by rw [htrim]; exact h.leads x⟩
  · have htrim := trimEnd_append_of_ne (r := s) hr
    obtain ⟨b, hs, -⟩ := exists_trimEnd_append s
    refine ⟨by simp [htrim, hr], fun x => ?_⟩
    have hsplit : s ++ Text.trimEnd r ++ x = Text.trimEnd s ++ (b ++ (Text.trimEnd r ++ x)) := by
      rw [List.append_assoc, ← List.append_assoc (Text.trimEnd s), ← hs]
    rw [htrim, hsplit]
    exact h.leads _

theorem blank_append {b : Text} (hb : ∀ c ∈ b, isBlank c) (h : Opens k p s) :
    Opens k p (b ++ s) := by
  have htrim := trimEnd_append_of_ne (r := b) h.solid
  refine ⟨by simp [htrim, h.solid], fun x => ?_⟩
  rw [htrim, List.append_assoc, leadsWith_blank_append hb]
  exact h.leads x

/-- A text that opens in a known way after trivia of a script. -/
theorem gap_append {script : Text} {gap : List Token} (hgap : gap <:+: tokenize script)
    (htrivia : ∀ t ∈ gap, t.isTrivia) (hs : LineEnds gap s) (h : Opens k p s) :
    Opens k p (joinText gap ++ s) := by
  have htrim := trimEnd_append_of_ne (r := joinText gap) h.solid
  refine ⟨by simp [htrim, h.solid], fun x => ?_⟩
  rw [htrim, List.append_assoc]
  have hends : LineEnds gap (Text.trimEnd s ++ x) := by
    rwa [LineEnds, head?_trimEnd_append h.solid]
  rw [leadsWith_congr (spellings_gap_append hgap htrivia hends)]
  exact h.leads x

end Opens

/-- A text opens with none of the keywords that its first word rules out. -/
theorem opens_of_clashes {c : Char} {w : Text} (hc : startsToken c) (h : clashes k (c :: w))
    (hlast : ∀ d ∈ (c :: w).getLast?, isBlank d = false) (s : Text) :
    Opens k false (c :: w ++ s) := by
  have hsolid : trimEnd (c :: w) ≠ [] := by
    rw [trimEnd_of_last hlast]
    exact List.cons_ne_nil c w
  have hword : Opens k false (c :: w) := by
    refine ⟨hsolid, fun r => ?_⟩
    rw [trimEnd_of_last hlast]
    exact not_leadsWith_of_clashes hc h r
  exact hword.append s

theorem opens_of_word {w : Text} (hword : Token.spellsWord w) (hw : Keyword.ofText? w = some k)
    (hends : Token.endsWord s) (hsolid : trimEnd s ≠ []) : Opens k true (w ++ s) := by
  have htrim := trimEnd_append_of_ne (r := w) hsolid
  refine ⟨by simp [htrim, hsolid], fun x => ?_⟩
  rw [htrim, List.append_assoc]
  apply leadsWith_word hword hw
  rwa [Token.endsWord, head?_trimEnd_append hsolid]

namespace Silent

theorem nil : Silent k [] where
  passes hb r := by
    rw [show trimEnd [] = [] from rfl, List.nil_append, leadsWith_blank_append hb]
    exact leadsWith_blank_append (List.forall_mem_singleton.mpr (by decide : isBlank '\n')) k r
  leads := by simp [leadsWith, tokenize, firstKeyword?, firstSignificant?, skipTrivia]

theorem gap_append {script : Text} {gap : List Token} (hgap : gap <:+: tokenize script)
    (htrivia : ∀ t ∈ gap, t.isTrivia) (hs : LineEnds gap s) (h : Silent k s) :
    Silent k (joinText gap ++ s) where
  passes {b} hb r := by
    by_cases hnil : trimEnd s = []
    · have hblank := h.passes hb r
      rw [hnil, List.nil_append] at hblank
      rw [trimEnd_append_of_eq_nil _ hnil,
        leadsWith_congr (spellings_trimEnd_gap hgap htrivia hb r), hblank]
    · rw [trimEnd_append_of_ne hnil, List.append_assoc]
      have hends : LineEnds gap (trimEnd s ++ (b ++ '\n' :: r)) := by
        rwa [LineEnds, head?_trimEnd_append hnil]
      rw [leadsWith_congr (spellings_gap_append hgap htrivia hends), h.passes hb]
  leads := by
    rw [leadsWith_congr (spellings_gap_append hgap htrivia hs)]
    exact h.leads

theorem blank_append {b : Text} (hb : ∀ c ∈ b, isBlank c) (h : Silent k s) :
    Silent k (b ++ s) where
  passes {b'} hb' r := by
    by_cases hnil : trimEnd s = []
    · have hblank := h.passes hb' r
      rw [hnil, List.nil_append] at hblank
      rw [trimEnd_append_of_eq_nil _ hnil, trimEnd_eq_nil hb, List.nil_append, hblank]
    · rw [trimEnd_append_of_ne hnil, List.append_assoc, leadsWith_blank_append hb, h.passes hb']
  leads := by
    rw [leadsWith_blank_append hb]
    exact h.leads

/-- What stands in a line after a silent text opens both. -/
theorem opens_trimEnd (h : Silent k s) (hr : Opens k p r) : Opens k p (trimEnd s ++ '\n' :: r) := by
  have htrim : trimEnd (trimEnd s ++ '\n' :: r) = trimEnd s ++ '\n' :: trimEnd r := by
    rw [List.append_cons, trimEnd_append_of_ne hr.solid, ← List.append_cons]
  refine ⟨by simp [htrim], fun x => ?_⟩
  have hpass := h.passes (b := []) (by simp) (trimEnd r ++ x)
  rw [htrim, List.append_assoc]
  exact hpass.trans (hr.leads x)

theorem opens_append (h : Silent k s) (hr : Opens k p r) : Opens k p (s ++ '\n' :: r) := by
  obtain ⟨b, hs, hb⟩ := exists_trimEnd_append s
  have htrim : trimEnd (s ++ '\n' :: r) = trimEnd s ++ (b ++ '\n' :: trimEnd r) := by
    rw [List.append_cons, trimEnd_append_of_ne hr.solid, ← List.append_cons, ← List.append_assoc,
      ← hs]
  refine ⟨by simp [htrim], fun x => ?_⟩
  have hpass := h.passes hb (trimEnd r ++ x)
  rw [htrim, List.append_assoc, List.append_assoc]
  exact hpass.trans (hr.leads x)

end Silent

end

end SqlMigration
