import SqlMigration.Token.Lexer

/-! # The scanners of the reader

The first character of a token chooses a scanner, which reads the rest of the token off the text
after it. The choice is laid out once here, and what holds of every token is proved scanner by
scanner.
-/

namespace SqlMigration.Token

/-! ## The single scanners -/

/-- The operators and other marks: the first character, the kinds that it makes with a second one,
and its kind alone. -/
def operators : List (Char × List (Char × Kind) × Kind) :=
  [ ('(', [], .leftParen), (')', [], .rightParen), (',', [], .comma), (';', [], .semicolon),
    ('+', [], .plus), ('*', [], .star), ('%', [], .percent), ('&', [], .bitAnd),
    ('|', [], .bitOr), ('^', [], .bitXor), ('~', [], .bitNot), ('=', [], .eq),
    (':', [(':', .doubleColon)], .colon), ('<', [('=', .ltEq), ('>', .notEq)], .lt),
    ('>', [('=', .gtEq)], .gt),
    ('!', [('=', .notEq), ('<', .notCompare), ('>', .notCompare)], .error) ]

/-- The marks that open a quoted part, with those that close it. -/
def quotes : List (Char × Char × Kind) :=
  [('\'', '\'', .string), ('[', ']', .bracketed), ('"', '"', .doubleQuoted)]

/-- The characters that have a scanner of their own, but for line ends. -/
def marks : List Char :=
  ['-', '/', '@', '$', '.'] ++ operators.map Prod.fst ++ quotes.map Prod.fst

/-- An operator of two characters, if the next one belongs to it, or of one. -/
def pairOrSingle (pairs : List (Char × Kind)) (single : Kind) (s : Text) : Kind × Nat :=
  match s.head?.bind fun d => pairs.lookup d with
  | some k => (k, 1)
  | none => (single, 0)

theorem pairOrSingle_cases (pairs : List (Char × Kind)) (single : Kind) (s : Text) :
    ((∀ d ∈ s.head?, d ∉ pairs.map Prod.fst) ∧ pairOrSingle pairs single s = (single, 0)) ∨
      ∃ d r k, s = d :: r ∧ (d, k) ∈ pairs ∧ pairOrSingle pairs single s = (k, 1) := by
  cases s with
  | nil => exact .inl ⟨by simp, rfl⟩
  | cons d r =>
      rw [pairOrSingle, List.head?_cons, Option.bind_some]
      cases hfound : pairs.lookup d with
      | none =>
          rw [List.lookup_eq_none_iff] at hfound
          refine .inl ⟨?_, rfl⟩
          rintro e ⟨⟩ he
          obtain ⟨p, hp, rfl⟩ := List.mem_map.mp he
          simpa using hfound p hp
      | some k =>
          obtain ⟨before, after, rfl, -⟩ := List.lookup_eq_some_iff.mp hfound
          exact .inr ⟨d, r, k, rfl, by simp, rfl⟩

/-- A line comment, or the dash alone. -/
def commentOrMinus (s : Text) : Kind × Nat :=
  if s.head? = some '-' then (.lineComment, runLength (fun d => d ≠ '\n' && d ≠ '\r') s)
  else (.minus, 0)

/-- A block comment, or the slash alone. -/
def commentOrSlash (s : Text) : Kind × Nat :=
  if s.head? = some '*' then
    match commentLength? 0 s.tail with
    | some n => (.blockComment, 1 + n)
    | none => (.error, s.length)
  else (.slash, 0)

/-- An amount of money, or a dollar sign that starts nothing. -/
def amountOrStray (s : Text) : Kind × Nat :=
  if s.head?.any Char.isDigit then (.money, runLength (fun d => d.isDigit || d = '.') s)
  else (.error, 0)

/-- A number that starts with its point, or the point alone. -/
def numberOrDot (s : Text) : Kind × Nat :=
  if s.head?.any Char.isDigit then number '.' s else (.dot, 0)

/-- The string after a mark of Unicode, or else what `f` reads. -/
def stringOr (f : Text → Kind × Nat) (s : Text) : Kind × Nat :=
  if s.head? = some '\'' then
    ((delimited '\'' .unicodeString s.tail).1, 1 + (delimited '\'' .unicodeString s.tail).2)
  else f s

/-! ## The choice of a scanner -/

/-- How much blank space goes on after a first blank character. A line end is a token of its
own. -/
inductive BlankScanner (cc : CharClasses) : Char → (Text → Nat) → Prop where
  | lineFeed : BlankScanner cc '\n' fun _ => 0
  | carriageReturn : BlankScanner cc '\r' fun s => if s.head? = some '\n' then 1 else 0
  | inline {c : Char} (h : cc.isBlank c) : BlankScanner cc c (runLength (isInlineBlank cc))

/-- The scanner for a character that is neither blank nor a mark. -/
inductive PlainScanner (cc : CharClasses) (c : Char) : (Text → Kind × Nat) → Prop where
  | number (h : c.isDigit) : PlainScanner cc c (number c)
  | word (hdigit : c.isDigit = false) (h : cc.isLetter c || c = '_' || c = '#') :
      PlainScanner cc c (word cc c)
  | stray (hdigit : c.isDigit = false) (h : (cc.isLetter c || c = '_' || c = '#') = false) :
      PlainScanner cc c fun _ => (.error, 0)

/-- The scanner for the text after a first character. -/
inductive Scanner (cc : CharClasses) : Char → (Text → Kind × Nat) → Prop where
  | blank {c : Char} {f : Text → Nat} (h : BlankScanner cc c f) :
      Scanner cc c fun s => (.blank, f s)
  | dash : Scanner cc '-' commentOrMinus
  | slash : Scanner cc '/' commentOrSlash
  | operator {c : Char} {pairs : List (Char × Kind)} {single : Kind}
      (h : (c, pairs, single) ∈ operators) : Scanner cc c (pairOrSingle pairs single)
  | quoted {c close : Char} {k : Kind} (h : (c, close, k) ∈ quotes) :
      Scanner cc c (delimited close k)
  | atSign : Scanner cc '@' fun s => (.variable, runLength (isNameChar cc) s)
  | amount : Scanner cc '$' amountOrStray
  | point : Scanner cc '.' numberOrDot
  | marked {c : Char} {f : Text → Kind × Nat} (hc : c = 'N' ∨ c = 'n')
      (h : PlainScanner cc c f) : Scanner cc c (stringOr f)
  | plain {c : Char} {f : Text → Kind × Nat} (hmark : c ∉ marks) (hblank : cc.isBlank c = false)
      (h : PlainScanner cc c f) : Scanner cc c f

theorem exists_blankScanner {cc : CharClasses} {c : Char}
    (h : c = '\n' ∨ c = '\r' ∨ cc.isBlank c) :
    ∃ f, BlankScanner cc c f ∧ classify cc c = fun s => (.blank, f s) := by
  unfold classify
  split
  · rename_i hfeed
    rw [hfeed]
    exact ⟨_, .lineFeed, rfl⟩
  split
  · rename_i hreturn
    rw [hreturn]
    exact ⟨_, .carriageReturn, rfl⟩
  · rename_i hfeed hreturn
    have hblank := (h.resolve_left hfeed).resolve_left hreturn
    rw [if_pos hblank]
    exact ⟨_, .inline hblank, rfl⟩

theorem exists_plainScanner (cc : CharClasses) (c : Char) :
    ∃ f, PlainScanner cc c f ∧ ∀ s,
      (if c.isDigit then number c s
        else if cc.isLetter c || c = '_' || c = '#' then word cc c s
        else (.error, 0)) = f s := by
  cases hdigit : c.isDigit with
  | true => exact ⟨_, .number hdigit, fun s => rfl⟩
  | false =>
      cases hword : cc.isLetter c || c = '_' || c = '#' with
      | true => exact ⟨_, .word hdigit hword, fun s => rfl⟩
      | false => exact ⟨_, .stray hdigit hword, fun s => rfl⟩

theorem lookup_cons (d e : Char) (k : Kind) (pairs : List (Char × Kind)) :
    ((e, k) :: pairs).lookup d = if d = e then some k else pairs.lookup d := by
  rw [List.lookup_cons]
  by_cases h : d = e
  · simp [h]
  · simp [h, beq_false_of_ne h]

theorem Scanner.of_operator {cc : CharClasses} {c : Char} (pairs : List (Char × Kind))
    {single : Kind} {f : Text → Kind × Nat} (h : (c, pairs, single) ∈ operators)
    (hnil : f [] = (single, 0))
    (hcons : ∀ d s, f (d :: s) = (pairs.lookup d).elim (single, 0) fun k => (k, 1)) :
    Scanner cc c f := by
  have hf : f = pairOrSingle pairs single := by
    funext s
    cases s with
    | nil => exact hnil
    | cons d s =>
        rw [hcons, pairOrSingle, List.head?_cons, Option.bind_some]
        cases pairs.lookup d <;> rfl
  rw [hf]
  exact .operator h

/-- The reader goes on with the scanner for its character. -/
theorem scanner_classify (cc : CharClasses) (c : Char) : Scanner cc c (classify cc c) := by
  by_cases hblank : c = '\n' ∨ c = '\r' ∨ cc.isBlank c
  · obtain ⟨f, hf, hclass⟩ := exists_blankScanner hblank
    rw [hclass]
    exact .blank hf
  simp only [not_or] at hblank
  unfold classify
  rw [if_neg hblank.1, if_neg hblank.2.1, if_neg hblank.2.2]
  split
  case h_1 => exact .dash
  case h_2 => exact .slash
  case h_15 =>
      refine .of_operator [(':', .doubleColon)] (by decide) rfl fun d s => ?_
      simp only [List.head?_cons, Option.some.injEq, lookup_cons, List.lookup_nil]
      split <;> rfl
  case h_16 =>
      refine .of_operator [('=', .ltEq), ('>', .notEq)] (by decide) rfl fun d s => ?_
      simp only [List.head?_cons, Option.some.injEq, lookup_cons, List.lookup_nil]
      repeat' split
      all_goals rfl
  case h_17 =>
      refine .of_operator [('=', .gtEq)] (by decide) rfl fun d s => ?_
      simp only [List.head?_cons, Option.some.injEq, lookup_cons, List.lookup_nil]
      split <;> rfl
  case h_18 =>
      refine .of_operator [('=', .notEq), ('<', .notCompare), ('>', .notCompare)] (by decide) rfl
        fun d s => ?_
      simp only [List.head?_cons, Option.some.injEq, lookup_cons, List.lookup_nil,
        Bool.or_eq_true, decide_eq_true_eq]
      grind
  case h_19 | h_20 | h_21 => exact .quoted (by decide)
  case h_22 => exact .atSign
  case h_23 => exact .amount
  case h_24 => exact .point
  case h_25 =>
      obtain ⟨f, hf, heq⟩ := exists_plainScanner cc c
      simp only [heq]
      by_cases hc : c = 'N' ∨ c = 'n'
      · have hmark : (c = 'N' || c = 'n') = true := by simpa using hc
        simp only [hmark, Bool.true_and, decide_eq_true_eq]
        exact .marked hc hf
      · have hmark : (c = 'N' || c = 'n') = false := by simpa using hc
        simp only [hmark, Bool.false_and, Bool.false_eq_true, if_false]
        refine .plain ?_ (Bool.eq_false_iff.mpr hblank.2.2) hf
        simp only [marks, operators, quotes, List.map_cons, List.map_nil, List.cons_append,
          List.nil_append, List.mem_cons, List.not_mem_nil, or_false, not_or]
        and_intros <;> assumption
  all_goals exact .of_operator [] (by decide) rfl fun _ _ => rfl

/-- A character that is neither blank nor a mark is read by its plain scanner, but for the mark of
a string. -/
theorem exists_plainScanner_of_not_mem {c : Char} (hmark : c ∉ marks)
    (hblank : Text.isBlank c = false) :
    ∃ f, PlainScanner .unicode c f ∧
      (classify .unicode c = f ∨ (c = 'N' ∨ c = 'n') ∧ classify .unicode c = stringOr f) := by
  have hscanner := scanner_classify .unicode c
  generalize classify .unicode c = f at hscanner ⊢
  cases hscanner with
  | blank h =>
      cases h with
      | lineFeed | carriageReturn => exact absurd hblank (by decide)
      | inline h =>
          have hblank' : Text.isBlank c = true := h
          rw [hblank] at hblank'
          cases hblank'
  | dash | slash | atSign | amount | point => exact absurd (by decide) hmark
  | operator h =>
      refine absurd (List.mem_append_left _ (List.mem_append_right _ ?_)) hmark
      exact List.mem_map_of_mem (f := Prod.fst) h
  | quoted h =>
      refine absurd (List.mem_append_right _ ?_) hmark
      exact List.mem_map_of_mem (f := Prod.fst) h
  | marked hc h => exact ⟨_, h, .inr ⟨hc, rfl⟩⟩
  | plain _ _ h => exact ⟨_, h, .inl rfl⟩

end SqlMigration.Token
