import SqlMigration.Proofs.Batch.Argument
import SqlMigration.Proofs.Name.Rendering
import SqlMigration.Proofs.Token.Delimiters
import SqlMigration.Proofs.Token.Spaced

/-! # Strings that are run, written and read back

A text is put into a literal by writing its quotes twice. Main statement: a literal is one token
whatever text it holds, and `EXEC` with the literal in parentheses runs that text, with any white
space and comments around the parentheses.
-/

namespace SqlMigration

open Text

/-! ## White space and comments -/

/-- White space or a comment. A line comment comes with the character that ends its line. -/
inductive Filler where
  | blank (c : Char) (isBlank : isBlank c)
  | line (body : Text) (last : Char) (isLine : ∀ c ∈ body, Token.isWithinLine c)
      (endsLine : Token.isWithinLine last = false)
  | block (body : Text) (isClosed : Token.commentLength? 0 body = some body.length)

def Filler.text : Filler → Text
  | blank c _ => [c]
  | line body last _ _ => '-' :: '-' :: (body ++ [last])
  | block body _ => '/' :: '*' :: body

/-- White space and comments, one after the other. -/
def gapText (gap : List Filler) : Text := gap.flatMap Filler.text

theorem gapText_cons (f : Filler) (gap : List Filler) :
    gapText (f :: gap) = f.text ++ gapText gap := by
  simp [gapText]

theorem isBlank_of_not_isWithinLine {c : Char} (h : Token.isWithinLine c = false) : isBlank c := by
  have hbreak : c = '\n' ∨ c = '\r' := by
    simpa [Token.isWithinLine, Classical.or_iff_not_imp_left] using h
  rcases hbreak with rfl | rfl <;> decide

theorem spellings_filler_append (f : Filler) (s : Text) :
    spellings (tokenize (f.text ++ s)) = spellings (tokenize s) := by
  cases f with
  | blank c hc => exact Token.spellings_blank_append (b := [c]) (by simpa using hc) s
  | line body last hbody hlast =>
      let t : Token := ⟨.lineComment, '-' :: '-' :: body, ⟨0, 0⟩⟩
      have hshape : Token.Shape t.kind t.text :=
        .lineComment fun c hc => by simpa [Token.isWithinLine] using hbody c hc
      have hends : ((last :: s).takeWhile Token.isWithinLine).all isBlank := by simp [hlast]
      have hcomment := Token.spellings_lineComment hshape rfl hends
      have hbreak : ∀ c ∈ [last], isBlank c := by simpa using isBlank_of_not_isWithinLine hlast
      have htext : Filler.text (.line body last hbody hlast) ++ s = t.text ++ last :: s := by
        simp [Filler.text, t]
      rw [htext, hcomment]
      exact Token.spellings_blank_append hbreak s
  | block body hbody =>
      let t : Token := ⟨.blockComment, '/' :: '*' :: body, ⟨0, 0⟩⟩
      have hstays : t.stays s := Token.stays_blockComment (.blockComment hbody) rfl s
      exact Token.spellings_of_stays (t := t) rfl hstays

/-- White space and comments in front of a text change none of its significant tokens. -/
theorem spellings_gapText_append (gap : List Filler) (s : Text) :
    spellings (tokenize (gapText gap ++ s)) = spellings (tokenize s) := by
  induction gap with
  | nil => rfl
  | cons f gap ih => rw [gapText_cons, List.append_assoc, spellings_filler_append, ih]

theorem head?_gapText_append {p : Char → Prop} (hblank : ∀ c, isBlank c → p c) (hdash : p '-')
    (hslash : p '/') {s : Text} (hs : ∀ c ∈ s.head?, p c) (gap : List Filler) :
    ∀ c ∈ (gapText gap ++ s).head?, p c := by
  cases gap with
  | nil => exact hs
  | cons f gap =>
      rw [gapText_cons]
      cases f with
      | blank c hc =>
          rintro d ⟨⟩
          exact hblank c hc
      | line =>
          rintro d ⟨⟩
          exact hdash
      | block =>
          rintro d ⟨⟩
          exact hslash

/-! ## Literals -/

/-- The literal that holds a text. -/
def literal (mark : StringMark) (s : Text) : Text :=
  mark.text ++ '\'' :: (doubled '\'' s ++ ['\''])

theorem delimited_literal (k : Kind) (s : Text) {r : Text} (hr : r.head? ≠ some '\'') :
    Token.delimited '\'' k (doubled '\'' s ++ ['\''] ++ r) =
      (k, (doubled '\'' s ++ ['\'']).length) := by
  have hlength : Token.delimitedLength? '\'' (doubled '\'' s ++ ['\''] ++ r) =
      some (doubled '\'' s ++ ['\'']).length := by
    rw [List.append_assoc, Token.delimitedLength?_doubled_append, List.singleton_append,
      Token.delimitedLength?_close, if_neg hr, List.length_append, Nat.add_comm]
    rfl
  rw [Token.delimited, hlength]

theorem classify_marked_quote {c : Char} (hc : c = 'N' ∨ c = 'n') (s : Text) :
    Token.classify .unicode c ('\'' :: s) =
      ((Token.delimited '\'' .unicodeString s).1,
        1 + (Token.delimited '\'' .unicodeString s).2) := by
  rcases hc with rfl | rfl <;> rfl

/-- A literal is one token, unless another quote follows it. -/
theorem stays_literal (mark : StringMark) (s : Text) {r : Text} (hr : r.head? ≠ some '\'')
    (span : Span) : Token.stays ⟨mark.kind, literal mark s, span⟩ r := by
  have hmarked {c : Char} (hc : c = 'N' ∨ c = 'n') :
      Token.stays ⟨.unicodeString, c :: '\'' :: (doubled '\'' s ++ ['\'']), span⟩ r := by
    rw [Token.stays_iff rfl, List.cons_append, classify_marked_quote hc, delimited_literal _ s hr]
    refine ⟨rfl, ?_⟩
    rw [Nat.add_comm, List.take_succ_cons, List.take_left]
  cases mark with
  | none =>
      have hclass : Token.classify .unicode '\'' (doubled '\'' s ++ ['\''] ++ r) =
          (.string, (doubled '\'' s ++ ['\'']).length) := delimited_literal .string s hr
      exact (Token.stays_iff rfl).mpr (by rw [hclass]; exact ⟨rfl, List.take_left⟩)
  | upper => exact hmarked (.inl rfl)
  | lower => exact hmarked (.inr rfl)

namespace DynamicSql

theorem unescape_cons_of_ne {c : Char} (hc : c ≠ '\'') (s : Text) :
    unescape (c :: s) = c :: unescape s := by
  rw [unescape.eq_def]
  split
  · rename_i heq
    cases heq
    exact absurd rfl hc
  · rename_i heq
    cases heq
    rfl
  · rename_i heq
    cases heq

/-- Writing quotes twice is undone exactly. -/
theorem unescape_doubled (s : Text) : unescape (doubled '\'' s) = s := by
  induction s with
  | nil => rfl
  | cons c s ih =>
      by_cases hc : c = '\''
      · subst hc
        rw [doubled_cons_self, unescape, ih]
      · rw [doubled_cons_of_ne hc, unescape_cons_of_ne hc, ih]

/-- What a literal holds is the text that it was written for. -/
theorem literalBody?_literal (mark : StringMark) (s : Text) :
    literalBody? (literal mark s) = some s := by
  have hbody : (dropFinal? '\'' (doubled '\'' s ++ ['\''])).map unescape = some s := by
    simp [dropFinal?, unescape_doubled]
  cases mark with
  | none | upper | lower => exact hbody

/-! ## Reading the call -/

/-- The first significant token of a list, with what stands before it and after it. -/
theorem exists_of_spellings_cons {ts : List Token} {k : Kind} {w : Text}
    {rest : List (Kind × Text)} (h : spellings ts = (k, w) :: rest) :
    ∃ gap t us, ts = gap ++ t :: us ∧ (∀ u ∈ gap, u.isTrivia) ∧ t.isTrivia = false ∧
      t.kind = k ∧ t.text = w ∧ spellings us = rest := by
  induction ts with
  | nil => cases h
  | cons t ts ih =>
      rw [spellings_cons] at h
      cases ht : t.kind.isTrivia with
      | true =>
          rw [ht] at h
          obtain ⟨gap, u, us, rfl, hgap, hu⟩ := ih h
          exact ⟨t :: gap, u, us, rfl, List.forall_mem_cons.mpr ⟨ht, hgap⟩, hu⟩
      | false =>
          rw [ht] at h
          obtain ⟨hhead, hrest⟩ := List.cons.inj h
          obtain ⟨hkind, htext⟩ := Prod.mk.inj hhead
          exact ⟨[], t, ts, rfl, by simp, ht, hkind, htext, hrest⟩

theorem argument?_gap_append (kinds : List Kind) {gap ts : List Token} {t : Token}
    (hgap : ∀ u ∈ gap, u.isTrivia) (ht : t.isTrivia = false) :
    argument? kinds (gap ++ t :: ts) = argument? kinds (t :: ts) := by
  have hnone : t :: ts = [] ++ t :: ts := rfl
  rw [argument?_eq (by simp), argument?_eq (by simp), argumentPattern,
    Pattern.matchSteps_gap rfl hgap ht (.inl rfl), hnone,
    Pattern.matchSteps_gap rfl (by simp) ht (.inl rfl)]

/-- What a statement runs depends on its first four significant tokens alone. -/
theorem stringArgument?_of_spellings {ts : List Token} {k kind : Kind} {word left lit right : Text}
    {rest : List (Kind × Text)} (hk : k = .keyword .EXEC ∨ k = .keyword .EXECUTE)
    (hkind : kind.isString)
    (h : spellings ts =
      (k, word) :: (.leftParen, left) :: (kind, lit) :: (.rightParen, right) :: rest) :
    stringArgument? ts = literalBody? lit := by
  obtain ⟨g₀, e, ts, rfl, h₀, het, hek, -, h⟩ := exists_of_spellings_cons h
  obtain ⟨g₁, l, ts, rfl, h₁, -, hl, -, h⟩ := exists_of_spellings_cons h
  obtain ⟨g₂, a, ts, rfl, h₂, ha, hak, hat, h⟩ := exists_of_spellings_cons h
  obtain ⟨g₃, r, ts, rfl, h₃, -, hr, -, -⟩ := exists_of_spellings_cons h
  have hexec : e.is .EXEC ∨ e.is .EXECUTE := by simpa [Token.is, hek] using hk
  have hcall : Call (e :: (g₁ ++ l :: (g₂ ++ a :: (g₃ ++ [r])))) a := .intro hexec hl ha hr h₁ h₂ h₃
  have hrun := stringArgument?_call hcall ts
  rw [hak, hat, if_pos hkind] at hrun
  rw [stringArgument?, argument?_gap_append _ h₀ het, ← stringArgument?, ← hrun]
  simp

end DynamicSql

/-- `EXEC` with an argument in parentheses and a text behind it, with white space and comments on
both sides of the opening parenthesis and before the closing one. -/
def execText (word : Text) (g₁ g₂ : List Filler) (argument : Text) (g₃ : List Filler)
    (rest : Text) : Text :=
  word ++ (gapText g₁ ++ '(' :: (gapText g₂ ++ (argument ++ (gapText g₃ ++ ')' :: rest))))

example : execText "EXEC".toList [] [] (literal .none "it's".toList) [] [] =
    "EXEC('it''s')".toList := by
  decide

theorem endsWord_gapText_append (gap : List Filler) (s : Text) :
    Token.endsWord (gapText gap ++ '(' :: s) := by
  have hblank (c : Char) (hc : isBlank c) : (!Token.isNameChar .unicode c && c ≠ '\'') = true := by
    have hname : Token.isNameChar .unicode c = false := by
      cases hname : Token.isNameChar .unicode c with
      | false => rfl
      | true =>
          rw [isBlank_of_isBare (Token.isBare_of_isNameChar hname)] at hc
          cases hc
    have hquote : c ≠ '\'' := by
      rintro rfl
      cases hc
    simp [hname, hquote]
  rw [Token.endsWord, Option.all_eq_true]
  exact head?_gapText_append hblank (by decide) (by decide) (by rintro c ⟨⟩; decide) gap

theorem head?_gapText_ne_quote (gap : List Filler) (s : Text) :
    (gapText gap ++ ')' :: s).head? ≠ some '\'' := by
  intro h
  have hblank (c : Char) (hc : isBlank c) : c ≠ '\'' := by
    rintro rfl
    cases hc
  exact head?_gapText_append hblank (by decide) (by decide) (by rintro c ⟨⟩; decide) gap _ h rfl

theorem spellings_word_append {word : Text} {k : Keyword} (hword : Keyword.ofText? word = some k)
    {s : Text} (hs : Token.endsWord s) :
    spellings (tokenize (word ++ s)) = (.keyword k, word) :: spellings (tokenize s) := by
  let t : Token := ⟨.keyword k, word, ⟨0, 0⟩⟩
  have hspells := Name.spellsWord_of_isPlain (Name.isPlain_of_ofText? hword)
  have hkind : t.kind = Token.wordKind t.text := by simp [t, Token.wordKind, hword]
  have hstays : t.stays s := Token.stays_word hspells hkind hs
  have hne : word ≠ [] := by
    rintro rfl
    cases hspells
  obtain ⟨c, r, htext⟩ := List.exists_cons_of_ne_nil hne
  exact Token.spellings_of_stays (t := t) htext hstays

theorem spellings_literal_append (mark : StringMark) (s : Text) {r : Text}
    (hr : r.head? ≠ some '\'') :
    spellings (tokenize (literal mark s ++ r)) =
      (mark.kind, literal mark s) :: spellings (tokenize r) := by
  let t : Token := ⟨mark.kind, literal mark s, ⟨0, 0⟩⟩
  have hstays : t.stays r := stays_literal mark s hr ⟨0, 0⟩
  have hkind : t.kind.isTrivia = false := by cases mark <;> rfl
  have hne : literal mark s ≠ [] := by cases mark <;> exact List.cons_ne_nil _ _
  obtain ⟨c, body, htext⟩ := List.exists_cons_of_ne_nil hne
  have hread := Token.spellings_of_stays (t := t) htext hstays
  rw [hkind] at hread
  exact hread

theorem spellings_rightParen_cons (s : Text) :
    spellings (tokenize (')' :: s)) = (.rightParen, [')']) :: spellings (tokenize s) := by
  have hstays : Token.stays ⟨.rightParen, [')'], ⟨0, 0⟩⟩ s := (Token.stays_iff rfl).mpr ⟨rfl, rfl⟩
  exact Token.spellings_of_stays rfl hstays

/-- The keyword, the parentheses and the literal between them are one token each. -/
theorem spellings_execText {word : Text} {k : Keyword} (hword : Keyword.ofText? word = some k)
    (g₁ g₂ g₃ : List Filler) (mark : StringMark) (s rest : Text) :
    spellings (tokenize (execText word g₁ g₂ (literal mark s) g₃ rest)) =
      (.keyword k, word) :: (.leftParen, ['(']) :: (mark.kind, literal mark s) ::
        (.rightParen, [')']) :: spellings (tokenize rest) := by
  rw [execText, spellings_word_append hword (endsWord_gapText_append g₁ _),
    spellings_gapText_append, spellings_leftParen_cons, spellings_gapText_append,
    spellings_literal_append mark s (head?_gapText_ne_quote g₃ rest), spellings_gapText_append,
    spellings_rightParen_cons]

/-- Whatever text a literal holds, the literal is read as one token, and `EXEC` with the literal in
parentheses runs that text. -/
theorem stringArgument?_execText {word : Text} {k : Keyword} (hk : k = .EXEC ∨ k = .EXECUTE)
    (hword : Keyword.ofText? word = some k) (g₁ g₂ g₃ : List Filler) (mark : StringMark)
    (s rest : Text) :
    let ts := tokenize (execText word g₁ g₂ (literal mark s) g₃ rest)
    spellings ts =
      (.keyword k, word) :: (.leftParen, ['(']) :: (mark.kind, literal mark s) ::
        (.rightParen, [')']) :: spellings (tokenize rest) ∧
    DynamicSql.stringArgument? ts = some s := by
  intro ts
  have hread := spellings_execText hword g₁ g₂ g₃ mark s rest
  have hstring : mark.kind.isString := by cases mark <;> rfl
  refine ⟨hread, ?_⟩
  rw [DynamicSql.stringArgument?_of_spellings (by simpa using hk) hstring hread,
    DynamicSql.literalBody?_literal]

/-- A text with quotes at its ends, comment marks, a line break and letters of another script, in a
literal between comments that hold quotes themselves. -/
theorem stringArgument?_execText_comments :
    let note : Filler := .line " it's".toList '\n' (List.all_eq_true.mp rfl) rfl
    let comment : Filler := .block "/*'*/*/".toList (by decide)
    let s := "''-- 人\n/*'''a'".toList
    let script := execText "Execute".toList [note] [comment] (literal .lower s) [comment, note]
      " -- end".toList
    script =
        "Execute-- it's\n(/*/*'*/*/n'''''-- 人\n/*''''''a'''/*/*'*/*/-- it's\n) -- end".toList ∧
      Keyword.ofText? "Execute".toList = some .EXECUTE ∧
      spellings (tokenize script) =
        [(.keyword .EXECUTE, "Execute".toList), (.leftParen, ['(']),
          (.unicodeString, "n'''''-- 人\n/*''''''a'''".toList), (.rightParen, [')'])] ∧
      DynamicSql.stringArgument? (tokenize script) = some s := by
  intro note comment s script
  have hword : Keyword.ofText? "Execute".toList = some .EXECUTE := by decide +kernel
  obtain ⟨hread, hruns⟩ := stringArgument?_execText (.inr rfl) hword [note] [comment]
    [comment, note] .lower s " -- end".toList
  refine ⟨by decide +kernel, hword, ?_, hruns⟩
  have hrest : spellings (tokenize " -- end".toList) = [] := by decide +kernel
  rw [hrest] at hread
  exact hread

end SqlMigration
