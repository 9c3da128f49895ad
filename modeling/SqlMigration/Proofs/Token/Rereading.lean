import SqlMigration.Proofs.Token.Shape

/-! # Reading joined tokens again

Tokens that are put together are read again one by one, as long as each of them is the same token in
front of what follows it. Blank space and comments may run together, since only the significant
tokens count.
-/

namespace SqlMigration

/-- The kinds and the texts of the significant tokens. -/
def spellings (ts : List Token) : List (Kind × Text) :=
  (ts.filter fun t => !t.isTrivia).map fun t => (t.kind, t.text)

theorem spellings_cons (t : Token) (ts : List Token) :
    spellings (t :: ts) =
      (if t.kind.isTrivia then [] else [(t.kind, t.text)]) ++ spellings ts := by
  simp only [spellings, List.filter_cons, Token.isTrivia]
  cases t.kind.isTrivia <;> rfl

namespace Token

open Text

/-- Whether the token is read as itself in front of the text. -/
def stays (t : Token) (rest : Text) : Bool :=
  (read .unicode 0 (t.text ++ rest)).head?.any fun u => u.kind = t.kind && u.text = t.text

variable {t : Token} {c : Char} {s r r' : Text}

theorem stays_iff (ht : t.text = c :: s) :
    stays t r ↔ (classify .unicode c (s ++ r)).1 = t.kind ∧
      (s ++ r).take (classify .unicode c (s ++ r)).2 = s := by
  simp [stays, ht, read_cons]

/-- The first token takes the text of `t`, and the rest is read after it. -/
theorem read_of_stays (ht : t.text = c :: s) (h : stays t r) (start : Nat) :
    ∃ u stop, u.kind = t.kind ∧ u.text = t.text ∧
      read .unicode start (t.text ++ r) = u :: read .unicode stop r := by
  obtain ⟨hkind, htext⟩ := (stays_iff ht).mp h
  have hdrop : (s ++ r).drop (classify .unicode c (s ++ r)).2 = r := by
    have hall := List.take_append_drop (classify .unicode c (s ++ r)).2 (s ++ r)
    rw [htext] at hall
    exact List.append_cancel_left hall
  rw [ht, List.cons_append, read_cons]
  simp only [htext, hdrop]
  exact ⟨_, _, hkind, rfl, rfl⟩

/-- A token that stays before a text stays before those that look alike. -/
theorem stays_of_alike (hne : t.text ≠ []) (h : stays t r) (halike : Alike r r') : stays t r' := by
  obtain ⟨c, s, ht⟩ := List.exists_cons_of_ne_nil hne
  obtain ⟨hkind, htext⟩ := (stays_iff ht).mp h
  by_cases hle : (classify .unicode c (s ++ r)).2 ≤ s.length
  · have hsame := settled_classify .unicode c s r r' halike hle
    rw [stays_iff ht, hsame]
    refine ⟨hkind, ?_⟩
    rw [List.take_append_of_le_length hle] at htext ⊢
    exact htext
  · -- The token takes all that is left.
    have hlength := congrArg List.length htext
    rw [List.length_take, List.length_append] at hlength
    obtain rfl : r = [] := List.eq_nil_of_length_eq_zero (by omega)
    rwa [halike.eq_nil]

theorem read_eq_map_shift (start : Nat) (s : Text) :
    read .unicode start s = (tokenize s).map (shift start) := by
  rw [tokenize, ← read_add, Nat.zero_add]

/-- The tokens of a script stay before those that follow them. -/
theorem stays_of_isInfix {script : Text} {ts before rest : List Token}
    (h : ts <:+: tokenize script) (hts : ts = before ++ t :: rest) : stays t (joinText rest) := by
  obtain ⟨first, last, hread⟩ := h
  have hfrom : tokenize script = (first ++ before) ++ (t :: rest ++ last) := by
    rw [← hread, hts]
    simp
  have hrest := read_joinText_of_eq_append _ (read_of_eq_append _ hfrom).symm
  rw [joinText_cons, read_eq_map_shift] at hrest
  obtain ⟨u, us, htokens, rfl, -⟩ := List.map_eq_cons_iff.mp hrest
  change (tokenize (u.text ++ joinText rest)).head?.any fun v => v.kind = u.kind && v.text = u.text
  have hhead : tokenize (u.text ++ joinText rest) = u :: us := htokens
  simp [hhead]

theorem stays_pair_of_isInfix {script : Text} {ts before rest : List Token} {u : Token}
    (h : ts <:+: tokenize script) (hts : ts = before ++ t :: u :: rest) :
    stays t (u.text ++ joinText rest) ∧ stays u (joinText rest) := by
  constructor
  · rw [← joinText_cons]
    exact stays_of_isInfix h hts
  · exact stays_of_isInfix h (hts.trans (List.append_cons before t (u :: rest)))

/-! ## Spellings -/

theorem spellings_read (start : Nat) (s : Text) :
    spellings (read .unicode start s) = spellings (tokenize s) := by
  rw [read_eq_map_shift, spellings, spellings, List.filter_map, List.map_map]
  rfl

theorem spellings_of_stays (ht : t.text = c :: s) (h : stays t r) :
    spellings (tokenize (t.text ++ r)) =
      (if t.kind.isTrivia then [] else [(t.kind, t.text)]) ++ spellings (tokenize r) := by
  obtain ⟨u, stop, hkind, htext, hread⟩ := read_of_stays ht h 0
  rw [tokenize, hread, spellings_cons, spellings_read, hkind, htext]

theorem kind_of_isBlank (hc : isBlank c) (s : Text) : (classify .unicode c s).1 = .blank := by
  have hblank : CharClasses.unicode.isBlank c := hc
  obtain ⟨f, -, hclass⟩ := exists_blankScanner (.inr (.inr hblank))
  rw [hclass]

/-- Blank space in front of a text changes none of its significant tokens. -/
theorem spellings_blank_append {b : Text} (hb : ∀ c ∈ b, isBlank c) (s : Text) :
    spellings (tokenize (b ++ s)) = spellings (tokenize s) := by
  -- The first blank token may take in blank space of `s`, which is shorter than the whole.
  induction hn : (b ++ s).length using Nat.strongRecOn generalizing b s with
  | ind n ih =>
      cases b with
      | nil => rfl
      | cons c b =>
          obtain ⟨hc, hb⟩ := List.forall_mem_cons.mp hb
          have hkind := kind_of_isBlank hc (b ++ s)
          have hshape := shapes_classify c (b ++ s)
          rw [hkind] at hshape
          rw [List.cons_append, List.length_cons] at hn
          rw [List.cons_append, tokenize, read_cons, spellings_cons, spellings_read, hkind]
          generalize (classify .unicode c (b ++ s)).2 = k at hshape ⊢
          have htaken : ∀ d ∈ (b ++ s).take k, isBlank d := fun d hd =>
            hshape.isBlank_of_mem d (List.mem_cons_of_mem c hd)
          have hrest := ih (b ++ s).length (by omega) htaken ((b ++ s).drop k)
            (by rw [List.take_append_drop])
          rw [List.take_append_drop] at hrest
          exact hrest.symm.trans (ih (b ++ s).length (by omega) hb s rfl)

/-! ## Comments -/

theorem drop_runLength (p : Char → Bool) (s : Text) : s.drop (runLength p s) = s.dropWhile p := by
  have hdrop : (s.takeWhile p ++ s.dropWhile p).drop (s.takeWhile p).length = s.dropWhile p :=
    List.drop_left
  rwa [List.takeWhile_append_dropWhile] at hdrop

/-- A block comment ends by itself. -/
theorem stays_blockComment (hshape : Shape t.kind t.text) (hkind : t.kind = .blockComment)
    (r : Text) : stays t r := by
  rw [hkind] at hshape
  generalize htext : t.text = text at hshape
  cases hshape with
  | blockComment hbody =>
      rename_i body
      have hclass : classify .unicode '/' ('*' :: body ++ r) =
          (.blockComment, 1 + body.length) := by
        simp only [Flow.classify_slash, commentOrSlash, List.cons_append, List.head?_cons, if_true,
          List.tail_cons,
          commentLength?_append hbody]
      rw [stays_iff htext, hclass, hkind]
      refine ⟨rfl, ?_⟩
      rw [Nat.add_comm, List.cons_append, List.take_succ_cons, List.take_left]
  | bare hk _ _ => cases hk
  | quoted hk _ _ _ => exact absurd hk (by decide)

/-- Whether a character is within a line. -/
def isWithinLine (c : Char) : Bool := c ≠ '\n' && c ≠ '\r'

/-- A line comment takes in the rest of its line. -/
theorem spellings_lineComment (hshape : Shape t.kind t.text) (hkind : t.kind = .lineComment)
    (hline : (r.takeWhile isWithinLine).all isBlank) :
    spellings (tokenize (t.text ++ r)) = spellings (tokenize r) := by
  rw [hkind] at hshape
  generalize t.text = text at hshape ⊢
  cases hshape with
  | lineComment hbody =>
      rename_i body
      have hclass : classify .unicode '-' ('-' :: body ++ r) =
          (.lineComment, runLength isWithinLine ('-' :: body ++ r)) := rfl
      have hdrop : ('-' :: body ++ r).drop (runLength isWithinLine ('-' :: body ++ r)) =
          r.dropWhile isWithinLine := by
        have hall : ∀ c ∈ '-' :: body, isWithinLine c :=
          List.forall_mem_cons.mpr ⟨rfl, by simpa [isWithinLine] using hbody⟩
        rw [drop_runLength, List.dropWhile_append_of_pos hall]
      rw [List.cons_append, tokenize, read_cons, hclass]
      simp only [hdrop]
      rw [spellings_cons, spellings_read]
      have hblank := spellings_blank_append (List.all_eq_true.mp hline) (r.dropWhile isWithinLine)
      rw [List.takeWhile_append_dropWhile] at hblank
      exact hblank.symm
  | bare hk _ _ => cases hk
  | quoted hk _ _ _ => exact absurd hk (by decide)

/-- Whether the token can stand before a text: it is read as itself, or it is a line comment with
nothing but blank space after it in its line. -/
def standsBefore (t : Token) (rest : Text) : Bool :=
  stays t rest || (t.kind = .lineComment && (rest.takeWhile isWithinLine).all isBlank)

/-- A blank token, or one that can stand before a text, adds itself to the significant tokens. -/
theorem spellings_append (hshape : Shape t.kind t.text) (hne : t.text ≠ [])
    (h : t.kind = .blank ∨ standsBefore t r) :
    spellings (tokenize (t.text ++ r)) =
      (if t.kind.isTrivia then [] else [(t.kind, t.text)]) ++ spellings (tokenize r) := by
  obtain ⟨c, s, ht⟩ := List.exists_cons_of_ne_nil hne
  rcases h with hblank | h
  · rw [hblank] at hshape ⊢
    exact spellings_blank_append hshape.isBlank_of_mem r
  rcases Bool.or_eq_true_iff.mp h with h | h
  · exact spellings_of_stays ht h
  · obtain ⟨hkind, hline⟩ := Bool.and_eq_true_iff.mp h
    have hkind := of_decide_eq_true hkind
    rw [spellings_lineComment hshape hkind hline, hkind]
    rfl

/-! ## Words -/

/-- The kinds of words without a mark in front. -/
def isPlainWord : Kind → Bool
  | .identifier | .keyword _ => true
  | _ => false

/-- The characters that such a word starts with. -/
def startsWord (c : Char) : Bool := isAlphabetic c || c = '_' || c = '#'

theorem isNameChar_of_startsWord (h : startsWord c) : isNameChar .unicode c := by
  simp only [startsWord, Bool.or_eq_true, decide_eq_true_eq] at h
  rcases h with (h | rfl) | rfl
  · simp [isNameChar, CharClasses.unicode, isAlphanumeric, h]
  · decide
  · decide

/-- The kinds of names and keywords. -/
def isNamed (k : Kind) : Bool := isPlainWord k || k.isIdentifier

/-- What a scanner takes for a name without delimiters is a whole word. -/
def WordsWhole (c : Char) (f : Text → Kind × Nat) : Prop :=
  ∀ s, isNamed (f s).1 → Name.isQuote c = false → startsWord c ∧ f s = word .unicode c s

theorem isNamed_delimited {k : Kind} (hk : isNamed k = false) (close : Char) (s : Text) :
    isNamed (delimited close k s).1 = false := by
  unfold delimited
  split
  · exact hk
  · rfl

theorem isNamed_number (c : Char) (s : Text) : isNamed (number c s).1 = false := by
  simp only [number]
  split
  · rfl
  · dsimp only
    split <;> rfl

namespace WordsWhole

theorem of_isNamed {f : Text → Kind × Nat} (h : ∀ s, isNamed (f s).1 = false) :
    WordsWhole c f := by
  intro s hs
  rw [h s] at hs
  cases hs

theorem pairOrSingle {pairs : List (Char × Kind)} {single : Kind}
    (h : (c, pairs, single) ∈ operators) : WordsWhole c (pairOrSingle pairs single) := by
  have hall : operators.all fun o =>
      !isNamed o.2.2 && o.2.1.all fun p => !isNamed p.2 := by decide
  have hop := List.all_eq_true.mp hall _ h
  simp only [Bool.and_eq_true, Bool.not_eq_true', List.all_eq_true] at hop
  refine of_isNamed fun s => ?_
  rcases pairOrSingle_cases pairs single s with ⟨-, heq⟩ | ⟨d, r, k, rfl, hpair, heq⟩
  · rw [heq]
    exact hop.1
  · rw [heq]
    exact hop.2 _ hpair

theorem ite {p : Text → Prop} [DecidablePred p] {f g : Text → Kind × Nat} (hf : WordsWhole c f)
    (hg : WordsWhole c g) : WordsWhole c fun s => if p s then f s else g s := by
  intro s
  by_cases h : p s
  · simpa only [h, if_true] using hf s
  · simpa only [h, if_false] using hg s

theorem plain {f : Text → Kind × Nat} (h : PlainScanner .unicode c f) : WordsWhole c f := by
  cases h with
  | number _ => exact of_isNamed (isNamed_number c)
  | word _ hletter => exact fun s _ _ => ⟨hletter, rfl⟩
  | stray _ _ => exact of_isNamed fun _ => rfl

end WordsWhole

theorem wordsWhole_classify (c : Char) : WordsWhole c (classify .unicode c) := by
  have hscanner := scanner_classify .unicode c
  generalize classify .unicode c = f at hscanner ⊢
  cases hscanner with
  | blank _ => exact .of_isNamed fun _ => rfl
  | dash => exact .ite (.of_isNamed fun _ => rfl) (.of_isNamed fun _ => rfl)
  | slash =>
      refine .ite (.of_isNamed ?_) (.of_isNamed fun _ => rfl)
      intro s
      split <;> rfl
  | operator h => exact .pairOrSingle h
  | quoted h =>
      have hall : quotes.all fun q => Name.isQuote q.1 := by decide
      intro s _ hquote
      rw [List.all_eq_true.mp hall _ h] at hquote
      cases hquote
  | atSign => exact .of_isNamed fun _ => rfl
  | amount => exact .ite (.of_isNamed fun _ => rfl) (.of_isNamed fun _ => rfl)
  | point => exact .ite (.of_isNamed (isNamed_number '.')) (.of_isNamed fun _ => rfl)
  | marked _ h =>
      exact .ite (.of_isNamed fun s => isNamed_delimited rfl '\'' s.tail) (.plain h)
  | plain _ _ h => exact .plain h

/-- No delimiter starts a word. -/
theorem isQuote_of_isPlainWord (h : isPlainWord (classify .unicode c s).1) :
    Name.isQuote c = false := by
  have hdelimited (close : Char) (k : Kind) (hk : isPlainWord k = false) :
      isPlainWord (delimited close k s).1 = false := by
    unfold delimited
    split
    · exact hk
    · rfl
  cases hquote : Name.isQuote c with
  | false => rfl
  | true =>
      simp only [Name.isQuote, List.contains_cons, List.contains_nil, Bool.or_false,
        Bool.or_eq_true, beq_iff_eq] at hquote
      rcases hquote with rfl | rfl | rfl | rfl
      · exact absurd ((hdelimited ']' .bracketed rfl).symm.trans h) (by decide)
      · cases h
      · exact absurd ((hdelimited '\'' .string rfl).symm.trans h) (by decide)
      · exact absurd ((hdelimited '"' .doubleQuoted rfl).symm.trans h) (by decide)

/-- A word is read whole. -/
theorem word_of_isPlainWord (h : isPlainWord (classify .unicode c s).1) :
    startsWord c ∧ classify .unicode c s = word .unicode c s :=
  wordsWhole_classify c s (Bool.or_eq_true_iff.mpr (.inl h)) (isQuote_of_isPlainWord h)

theorem isNameChar_of_keyword {k : Keyword} (ht : t.kind = .keyword k) (hstays : stays t r)
    (htext : t.text = c :: s) : isNameChar .unicode c := by
  have hkind := ((stays_iff htext).mp hstays).1.trans ht
  exact isNameChar_of_startsWord (word_of_isPlainWord (by rw [hkind]; rfl)).1

/-- A run of characters takes in the next one if that satisfies the condition. -/
theorem take_runLength_ne {p : Char → Bool} (hc : p c) :
    (s ++ c :: r).take (runLength p (s ++ c :: r)) ≠ s := by
  intro h
  have hall : ∀ d ∈ s, p d := fun d hd => of_mem_take_runLength (h.symm ▸ hd)
  rw [runLength, ← List.prefix_iff_eq_take.mp (List.takeWhile_prefix _)] at h
  rw [List.takeWhile_append_of_pos hall, List.takeWhile_cons_of_pos hc] at h
  simpa using congrArg List.length h

/-- Two keywords never stand side by side. -/
theorem not_stays_keyword {u : Token} {k k' : Keyword} (ht : t.kind = .keyword k)
    (hu : u.kind = .keyword k') (hstays : stays u r') (hne : t.text ≠ []) (hne' : u.text ≠ []) :
    ¬ stays t (u.text ++ r) := by
  intro h
  obtain ⟨c, s, htext⟩ := List.exists_cons_of_ne_nil hne
  obtain ⟨d, s', htext'⟩ := List.exists_cons_of_ne_nil hne'
  obtain ⟨hkind, htake⟩ := (stays_iff htext).mp h
  have hword := (word_of_isPlainWord (by rw [hkind, ht]; rfl)).2
  rw [hword, htext', List.cons_append] at htake
  exact take_runLength_ne (isNameChar_of_keyword hu hstays htext') htake

theorem isWithinLine_of_isNameChar (hc : isNameChar .unicode c) : isWithinLine c := by
  have hends : isNameChar .unicode '\n' = false ∧ isNameChar .unicode '\r' = false := by
    decide +kernel
  rw [isWithinLine, Bool.and_eq_true_iff, decide_eq_true_eq, decide_eq_true_eq]
  constructor
  · rintro rfl
    exact absurd (hc.symm.trans hends.1) nofun
  · rintro rfl
    exact absurd (hc.symm.trans hends.2) nofun

/-- A keyword never stands right after a line comment. -/
theorem not_stays_lineComment {u : Token} {k : Keyword} (hshape : Shape t.kind t.text)
    (ht : t.kind = .lineComment) (hu : u.kind = .keyword k) (hstays : stays u r')
    (hne : u.text ≠ []) : ¬ stays t (u.text ++ r) := by
  intro h
  obtain ⟨d, s, htext⟩ := List.exists_cons_of_ne_nil hne
  rw [ht] at hshape
  generalize htext' : t.text = text at hshape
  cases hshape with
  | lineComment hbody =>
      rename_i body
      obtain ⟨-, htake⟩ := (stays_iff htext').mp h
      rw [htext, List.cons_append] at htake
      have hd := isWithinLine_of_isNameChar (isNameChar_of_keyword hu hstays htext)
      exact take_runLength_ne (s := '-' :: body) hd htake
  | bare hk _ _ => cases hk
  | quoted hk _ _ _ => exact absurd hk (by decide)

end Token

end SqlMigration
