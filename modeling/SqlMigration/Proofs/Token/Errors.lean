import SqlMigration.Proofs.Token.Delimiters
import SqlMigration.Proofs.Token.Scanner
import SqlMigration.Statement.Lexer

/-! # Errors of a script and their places

An error token keeps no reason; that is told from how its text starts. Main statement: reading
fails exactly at the first error token, and the error that is reported says what is wrong there,
with the place of the one character that starts no token, or with everything from a delimiter that
is left open to the end of the script.
-/

namespace SqlMigration

open Text

/-! ## What can be wrong -/

/-- The characters that always start a token. -/
def tokenMarks : List Char :=
  ['-', '/', '(', ')', ',', ';', '+', '*', '%', '&', '|', '^', '~', '=', ':', '<', '>', '\'', '[',
    '"', '@', '.']

/-- The character starts no token in front of the text. -/
inductive Stray : Char → Text → Prop where
  | exclamation {s : Text} (h : ∀ d ∈ s.head?, d ∉ ['=', '<', '>']) : Stray '!' s
  | dollar {s : Text} (h : ∀ d ∈ s.head?, d.isDigit = false) : Stray '$' s
  | other {c : Char} {s : Text} (hmark : c ∉ '!' :: '$' :: '_' :: '#' :: tokenMarks)
      (hblank : isBlank c = false) (hdigit : c.isDigit = false)
      (hletter : isAlphabetic c = false) : Stray c s

/-- The text opens with a delimiter that is never closed, and the error says which. -/
inductive LeftOpen : (Span → LexError) → Text → Prop where
  | string (mark : StringMark) (s : Text) :
      LeftOpen .unterminatedString (mark.text ++ '\'' :: doubled '\'' s)
  | bracket (s : Text) : LeftOpen .unterminatedIdentifier ('[' :: doubled ']' s)
  | quote (s : Text) : LeftOpen .unterminatedIdentifier ('"' :: doubled '"' s)
  | comment {s : Text} (h : Token.StaysOpen 0 (Token.commentMarks s)) :
      LeftOpen .unterminatedComment ('/' :: '*' :: s)

/-- What is wrong with the text `s` that follows `before` in a script. -/
inductive Located (before : Text) : Text → LexError → Prop where
  | stray {c : Char} {s : Text} (h : Stray c s) :
      Located before (c :: s)
        (.unexpectedCharacter c ⟨before.byteLength, before.byteLength + c.utf8Size⟩)
  | leftOpen {report : Span → LexError} {s : Text} (h : LeftOpen report s) :
      Located before s (report ⟨before.byteLength, (before ++ s).byteLength⟩)

/-! ## One step of the reader -/

namespace Token

/-- Why the token that starts with `c` is an error, and how many characters of `s` it takes. -/
inductive Mistake (c : Char) (s : Text) : Nat → Prop where
  | stray (h : Stray c s) : Mistake c s 0
  | leftOpen {report : Span → LexError} {n : Nat} (h : LeftOpen report (c :: s))
      (hn : s.length ≤ n) : Mistake c s n

/-- A quoted part that is an error has its delimiter in pairs only, and takes all there is. -/
theorem doubled_of_delimited {close : Char} {k : Kind} {s : Text}
    (h : (delimited close k s).1 = .error) (hk : k ≠ .error) :
    (∃ r, s = doubled close r) ∧ (delimited close k s).2 = s.length := by
  rw [delimited] at h ⊢
  cases hlength : delimitedLength? close s with
  | some n =>
      rw [hlength] at h
      exact absurd h hk
  | none => exact ⟨delimitedLength?_eq_none_iff.mp hlength, rfl⟩

theorem mistake_delimited {c close : Char} {k : Kind} {report : Span → LexError} {s : Text}
    (hopen : ∀ r, LeftOpen report (c :: doubled close r)) (hk : k ≠ .error)
    (h : (delimited close k s).1 = .error) : Mistake c s (delimited close k s).2 := by
  obtain ⟨⟨r, rfl⟩, hlength⟩ := doubled_of_delimited h hk
  exact .leftOpen (hopen r) (Nat.le_of_eq hlength.symm)

/-- A string with the mark of Unicode in front of its quote. -/
theorem mistake_marked (mark : StringMark) {c : Char} {s : Text} (hc : mark.text = [c])
    (h : (delimited '\'' .unicodeString s).1 = .error) :
    Mistake c ('\'' :: s) (1 + (delimited '\'' .unicodeString s).2) := by
  obtain ⟨⟨r, rfl⟩, hlength⟩ := doubled_of_delimited h (by decide)
  have hopen := LeftOpen.string mark r
  rw [hc] at hopen
  exact .leftOpen hopen (by rw [hlength, List.length_cons]; omega)

theorem number_ne_error (c : Char) (s : Text) : (number c s).1 ≠ .error := by
  rw [number]
  split
  · simp
  · dsimp only
    split <;> simp

theorem word_ne_error (c : Char) (s : Text) : (word .unicode c s).1 ≠ .error := by
  simp only [word, wordKind]
  split <;> simp

theorem mistake_pairOrSingle {c : Char} {pairs : List (Char × Kind)} {single : Kind} {s : Text}
    (h : (c, pairs, single) ∈ operators) (herror : (pairOrSingle pairs single s).1 = .error) :
    Mistake c s (pairOrSingle pairs single s).2 := by
  have hall : operators.all fun o =>
      (o.2.2 ≠ .error || (o.1 = '!' && o.2.1.map Prod.fst = ['=', '<', '>'])) &&
        o.2.1.all fun p => p.2 ≠ .error := by decide
  have hop := List.all_eq_true.mp hall _ h
  simp only [Bool.and_eq_true, Bool.or_eq_true, decide_eq_true_eq, List.all_eq_true] at hop
  rcases pairOrSingle_cases pairs single s with ⟨hnext, heq⟩ | ⟨d, r, k, rfl, hpair, heq⟩
  · rw [heq] at herror ⊢
    obtain ⟨rfl, hpairs⟩ := hop.1.resolve_left fun hne => hne herror
    rw [hpairs] at hnext
    exact .stray (.exclamation hnext)
  · rw [heq] at herror
    exact absurd herror (hop.2 _ hpair)

theorem mistake_plain {c : Char} {f : Text → Kind × Nat} {s : Text} (hmark : c ∉ marks)
    (hblank : isBlank c = false) (h : PlainScanner .unicode c f) (herror : (f s).1 = .error) :
    Mistake c s (f s).2 := by
  cases h with
  | number _ => exact absurd herror (number_ne_error c s)
  | word _ _ => exact absurd herror (word_ne_error c s)
  | stray hdigit hletter =>
      simp only [Bool.or_eq_false_iff, decide_eq_false_iff_not] at hletter
      obtain ⟨⟨hletter, hlow⟩, hhash⟩ := hletter
      have hall : ('!' :: '$' :: '_' :: '#' :: tokenMarks).all
          fun d => marks.contains d || d = '_' || d = '#' := by decide
      refine .stray (.other ?_ hblank hdigit hletter)
      intro hc
      simpa [hmark, hlow, hhash] using List.all_eq_true.mp hall c hc

/-- A token is an error for one of these reasons. -/
theorem mistake_classify (c : Char) (s : Text) :
    (classify .unicode c s).1 = .error → Mistake c s (classify .unicode c s).2 := by
  have hscanner := scanner_classify .unicode c
  generalize classify .unicode c = f at hscanner ⊢
  intro herror
  cases hscanner with
  | blank _ | atSign => cases herror
  | dash =>
      rw [commentOrMinus] at herror
      split at herror <;> cases herror
  | slash =>
      rw [commentOrSlash] at herror ⊢
      split
      · rename_i hstar
        obtain ⟨s, rfl⟩ := List.head?_eq_some_iff.mp hstar
        cases hlength : commentLength? 0 s with
        | some n => simp [hlength] at herror
        | none =>
            simp only [List.tail_cons, hlength]
            exact .leftOpen (.comment (commentLength?_eq_none_iff.mp hlength)) (Nat.le_refl _)
      · rename_i hstar
        rw [if_neg hstar] at herror
        cases herror
  | operator h => exact mistake_pairOrSingle h herror
  | quoted h =>
      simp only [quotes, List.mem_cons, List.not_mem_nil, or_false, Prod.mk.injEq] at h
      rcases h with ⟨rfl, rfl, rfl⟩ | ⟨rfl, rfl, rfl⟩ | ⟨rfl, rfl, rfl⟩
      · exact mistake_delimited (.string .none) (by decide) herror
      · exact mistake_delimited .bracket (by decide) herror
      · exact mistake_delimited .quote (by decide) herror
  | amount =>
      rw [amountOrStray] at herror ⊢
      split
      · rename_i hdigit
        rw [if_pos hdigit] at herror
        cases herror
      · rename_i hdigit
        refine .stray (.dollar fun d hd => ?_)
        simpa [Option.mem_def.mp hd] using hdigit
  | point =>
      rw [numberOrDot] at herror
      split at herror
      · exact absurd herror (number_ne_error '.' s)
      · cases herror
  | marked hc h =>
      rw [stringOr] at herror ⊢
      split
      · rename_i hquote
        obtain ⟨s, rfl⟩ := List.head?_eq_some_iff.mp hquote
        rcases hc with rfl | rfl
        · exact mistake_marked .upper rfl (by simpa using herror)
        · exact mistake_marked .lower rfl (by simpa using herror)
      · rename_i hquote
        rw [if_neg hquote] at herror
        rcases hc with rfl | rfl <;> exact mistake_plain (by decide) (by decide) h herror
  | plain hmark hblank h => exact mistake_plain hmark hblank h herror

end Token

/-! ## What an error token stands for -/

theorem LexError.ofToken_of_stray {c : Char} {s : Text} (h : Stray c s) (k : Kind) (span : Span) :
    ofToken ⟨k, [c], span⟩ = .unexpectedCharacter c span := by
  have hmark : c ∉ ['\'', '[', '"'] := by
    cases h with
    | exclamation | dollar => decide
    | other hmark =>
        intro hc
        refine hmark ?_
        simp only [tokenMarks, List.mem_cons, List.not_mem_nil, or_false] at hc ⊢
        rcases hc with rfl | rfl | rfl <;> simp
  simp only [List.mem_cons, List.not_mem_nil, or_false, not_or] at hmark
  obtain ⟨hquote, hbracket, hdouble⟩ := hmark
  rw [ofToken.eq_def]
  split
  all_goals simp_all

theorem LexError.ofToken_of_leftOpen {report : Span → LexError} {s : Text} (h : LeftOpen report s)
    (k : Kind) (span : Span) : ofToken ⟨k, s, span⟩ = report span := by
  cases h with
  | string mark s => cases mark <;> rfl
  | bracket s => rfl
  | quote s => rfl
  | comment h => rfl

/-- An error token is classified by what is wrong in its place. It is a single character unless it
is the last token. -/
theorem located_of_error {s : Text} {before after : List Token} {t : Token}
    (h : tokenize s = before ++ t :: after) (ht : t.kind = .error) :
    Located (joinText before) (joinText (t :: after)) (LexError.ofToken t) ∧
      (t.text.length = 1 ∨ after = []) := by
  have hread := Token.read_of_eq_append .unicode h
  have hne : t.text ≠ [] := Token.text_ne_nil_of_mem_read .unicode
    (show t ∈ tokenize s from h ▸ List.mem_append_right _ List.mem_cons_self)
  obtain ⟨c, r, hr⟩ : ∃ c r, joinText (t :: after) = c :: r := by
    obtain ⟨c, r, htext⟩ := List.exists_cons_of_ne_nil hne
    exact ⟨c, r ++ joinText after, by rw [joinText_cons, htext, List.cons_append]⟩
  rw [hr, Token.read_cons, Nat.zero_add] at hread
  obtain ⟨rfl, hafter⟩ := List.cons.inj hread
  have hmistake := Token.mistake_classify c r ht
  rw [hr]
  generalize (Token.classify .unicode c r).2 = n at hmistake hafter ⊢
  cases hmistake with
  | stray hstray =>
      rw [List.take_zero, LexError.ofToken_of_stray hstray]
      exact ⟨.stray hstray, .inl rfl⟩
  | leftOpen hopen hn =>
      rw [List.take_of_length_le hn, LexError.ofToken_of_leftOpen hopen, ← byteLength_append]
      rw [List.drop_of_length_le hn, Token.read_nil] at hafter
      exact ⟨.leftOpen hopen, .inr hafter⟩

/-! ## The error that is reported -/

theorem LexError.span_ofToken (t : Token) : (ofToken t).span = t.span := by
  unfold ofToken
  split <;> rfl

theorem not_leftOpen_of_stray {report : Span → LexError} {c : Char} {s : Text} (h : Stray c s) :
    ¬ LeftOpen report (c :: s) := by
  have hopen : ∀ d ∈ ['\'', 'N', 'n', '[', '"', '/'], c ≠ d := by
    rintro d hd rfl
    cases h with
    | exclamation | dollar => simp at hd
    | other hmark _ _ hletter =>
        simp only [List.mem_cons, List.not_mem_nil, or_false] at hd
        rcases hd with rfl | rfl | rfl | rfl | rfl | rfl
        · simp [tokenMarks] at hmark
        · cases hletter
        · cases hletter
        · simp [tokenMarks] at hmark
        · simp [tokenMarks] at hmark
        · simp [tokenMarks] at hmark
  intro hleft
  generalize htext : c :: s = text at hleft
  cases hleft with
  | string mark r => cases mark <;> exact hopen _ (by simp) (List.cons.inj htext).1
  | bracket r | quote r | comment _ => exact hopen _ (by simp) (List.cons.inj htext).1

/-- No two errors can be told of one place. -/
theorem Located.unique {before s : Text} {e e' : LexError} (h : Located before s e)
    (h' : Located before s e') : e = e' := by
  cases h with
  | stray hstray =>
      cases h' with
      | stray _ => rfl
      | leftOpen hopen => exact absurd hopen (not_leftOpen_of_stray hstray)
  | leftOpen hopen =>
      cases h' with
      | stray hstray => exact absurd hopen (not_leftOpen_of_stray hstray)
      | leftOpen hopen' =>
          rw [← LexError.ofToken_of_leftOpen hopen .error, LexError.ofToken_of_leftOpen hopen']

theorem lex_eq_error_iff_firstIn? {s : Text} {e : LexError} :
    StatementLexer.tsql.lex s = .error e ↔ LexError.firstIn? (tokenize s) = some e := by
  change StatementLexer.lexStrict s = .error e ↔ _
  rw [StatementLexer.lexStrict]
  split
  · rename_i first hfirst
    rw [hfirst, Except.error.injEq, Option.some.injEq]
  · rename_i hnone
    rw [hnone]
    simp

theorem firstIn?_eq_some_iff {ts : List Token} {e : LexError} :
    LexError.firstIn? ts = some e ↔
      ∃ before t after, ts = before ++ t :: after ∧ (∀ u ∈ before, u.kind ≠ .error) ∧
        t.kind = .error ∧ LexError.ofToken t = e := by
  rw [LexError.firstIn?, Option.map_eq_some_iff]
  constructor
  · rintro ⟨t, hfind, he⟩
    obtain ⟨ht, before, after, hts, hbefore⟩ := List.find?_eq_some_iff_append.mp hfind
    exact ⟨before, t, after, hts, by simpa using hbefore, of_decide_eq_true ht, he⟩
  · rintro ⟨before, t, after, hts, hbefore, ht, he⟩
    refine ⟨t, List.find?_eq_some_iff_append.mpr ⟨by simpa using ht, before, after, hts, ?_⟩, he⟩
    simpa using hbefore

theorem joinText_of_tokenize {s : Text} {before after : List Token}
    (h : tokenize s = before ++ after) : s = joinText before ++ joinText after := by
  rw [← joinText_append, ← h]
  exact (Token.joinText_read .unicode 0 s).symm

/-- An error token is one character or runs to the end of the script. Reading fails if and only if
there is one, and then with the error that the place of the first one gives. -/
theorem lex_error_located (s : Text) :
    (∀ t ∈ tokenize s, t.kind = .error →
      t.text.length = 1 ∨ (tokenize s).getLast? = some t ∧ t.span.stop = s.byteLength) ∧
    ((∃ e, StatementLexer.tsql.lex s = .error e) ↔ ∃ t ∈ tokenize s, t.kind = .error) ∧
    ∀ e, StatementLexer.tsql.lex s = .error e ↔
      ∃ before t after rest, tokenize s = before ++ t :: after ∧
        (∀ u ∈ before, u.kind ≠ .error) ∧ t.kind = .error ∧ e.span = t.span ∧
        s = joinText before ++ rest ∧ Located (joinText before) rest e := by
  refine ⟨?_, ?_, fun e => ?_⟩
  · intro t hmem ht
    obtain ⟨before, after, hread⟩ := List.append_of_mem hmem
    refine (located_of_error hread ht).2.imp id ?_
    rintro rfl
    have hstart := Token.span_start_of_eq_append .unicode hread
    have hstop := Token.span_stop_of_mem_read .unicode hmem
    have hs := joinText_of_tokenize hread
    rw [hread, hstop, hstart, hs, byteLength_append]
    simp
  · simp only [lex_eq_error_iff_firstIn?, ← Option.isSome_iff_exists, LexError.firstIn?,
      Option.isSome_map, List.find?_isSome, decide_eq_true_eq]
  · rw [lex_eq_error_iff_firstIn?, firstIn?_eq_some_iff]
    constructor
    · rintro ⟨before, t, after, hread, hbefore, ht, rfl⟩
      exact ⟨before, t, after, _, hread, hbefore, ht, LexError.span_ofToken t,
        joinText_of_tokenize hread, (located_of_error hread ht).1⟩
    · rintro ⟨before, t, after, rest, hread, hbefore, ht, -, hs, hplace⟩
      have hrest : rest = joinText (t :: after) :=
        List.append_cancel_left (hs.symm.trans (joinText_of_tokenize hread))
      rw [hrest] at hplace
      exact ⟨before, t, after, hread, hbefore, ht, (located_of_error hread ht).1.unique hplace⟩

example : LexError.firstIn? (tokenize "é ('a''b') n'x''/* [".toList) =
    some (.unterminatedString ⟨12, 21⟩) := by
  decide +kernel

end SqlMigration
