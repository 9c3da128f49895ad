import SqlMigration.Proofs.Text.Ranges
import SqlMigration.Proofs.Token.Cutting
import SqlMigration.Proofs.Token.Spelling

/-! # Texts in which no comment arises by chance

A text flows if its quoted parts and its comments are closed, and if nothing else in it can be
taken for the start of one. The reader may cut a flowing text into other tokens than those it was
put together from: two names side by side become one, and so do two strings. It still finds no
comments besides the given ones.
-/

namespace SqlMigration

namespace Text

/-- The characters that open or close a comment or a quoted part. -/
def markRanges : CharRanges :=
  [ (0x22, 0x22), (0x27, 0x27), (0x2a, 0x2a), (0x2d, 0x2d), (0x2f, 0x2f), (0x5b, 0x5b),
    (0x5d, 0x5d) ]

/-- Whether a character is neither blank nor such a mark. -/
def isBare (c : Char) : Bool := avoids (markRanges ++ blankRanges) c

theorem isBlank_of_isBare {c : Char} (h : isBare c) : isBlank c = false := by
  cases hblank : isBlank c with
  | false => rfl
  | true =>
      obtain ⟨range, hmem, hlo, hhi⟩ := CharRanges.exists_of_holds hblank
      have hapart := List.all_eq_true.mp h range (List.mem_append_right _ hmem)
      simp only [Bool.or_eq_true, decide_eq_true_eq] at hapart
      omega

theorem isBare_of_isAlphanumeric {c : Char} (h : isAlphanumeric c) : isBare c := by
  rcases Bool.or_eq_true_iff.mp h with h | h
  · exact avoids_of_holds (by decide +kernel) h
  · exact avoids_of_holds (by decide +kernel) h

theorem isBare_of_isDigit {c : Char} (h : c.isDigit) : isBare c :=
  avoids_of_isDigit (by decide) h

theorem isBare_of_mem_lower {s : Text} (hs : ∀ c ∈ s, isBare c) : ∀ d ∈ lower s, isBare d :=
  of_mem_lowerAfter (fun _ h => h)
    (by decide +kernel : missesSmall (markRanges ++ blankRanges)) hs

end Text

namespace Token

open Text

theorem isBare_of_isNameChar {c : Char} (h : isNameChar .unicode c) : isBare c := by
  rcases Bool.or_eq_true_iff.mp h with h | h
  · exact isBare_of_isAlphanumeric h
  · have hmark : ['_', '@', '#', '$'].all isBare := by decide
    exact List.all_eq_true.mp hmark c (List.contains_iff_mem.mp h)

theorem isBare_of_isHexDigit {c : Char} (h : isHexDigit c) : isBare c := by
  simp only [isHexDigit, Bool.or_eq_true, Bool.and_eq_true, decide_eq_true_eq, Char.le_def,
    UInt32.le_iff_toNat_le] at h
  rcases h with (h | h) | h
  · exact isBare_of_isDigit h
  · exact avoids_of_misses (by decide : (markRanges ++ blankRanges).misses 97 102) h.1 h.2
  · exact avoids_of_misses (by decide : (markRanges ++ blankRanges).misses 65 70) h.1 h.2

/-! ## Flowing texts -/

/-- What stands before a place in a text, as far as it matters to what may follow. -/
inductive Mode where
  /-- Nothing, a blank character or a block comment: a token starts here. -/
  | apart
  | solid
  | digit
  /-- A digit and the letter of an exponent, of which a dash may be the sign. -/
  | exponent
  | dash
  | slash
  /-- A line comment, which has not ended yet. -/
  | line
  deriving DecidableEq

/-- The mode after a bare character. -/
def Mode.next (m : Mode) (c : Char) : Mode :=
  if c.isDigit || c = '.' then .digit
  else if m = .digit && (c = 'e' || c = 'E') then .exponent
  else .solid

/-- Whether two dashes would start a comment here. -/
def Mode.isBoundary : Mode → Bool
  | .exponent | .dash | .line => false
  | _ => true

theorem Mode.next_of_digit {m : Mode} {c : Char} (h : c.isDigit || c = '.') :
    m.next c = .digit := by
  rw [Mode.next, if_pos h]

/-- The mark that closes the quoted part that the character opens. -/
def closer? : Char → Option Char
  | '\'' => some '\''
  | '"' => some '"'
  | '[' => some ']'
  | _ => none

/-- The text leads from one mode to another, and all its comments are among the given ones. -/
inductive Flow (P : Kind → Text → Prop) : Mode → Text → Mode → Prop where
  | nil {m : Mode} : Flow P m [] m
  | blank {m m' : Mode} {c : Char} {s : Text} (hm : m ≠ .line) (hc : isBlank c)
      (h : Flow P .apart s m') : Flow P m (c :: s) m'
  | lineEnd {m' : Mode} {c : Char} {s : Text} (hc : c = '\n' ∨ c = '\r')
      (h : Flow P .apart s m') : Flow P .line (c :: s) m'
  | bare {m m' : Mode} {c : Char} {s : Text} (hm : m ≠ .line) (hc : isBare c)
      (h : Flow P (m.next c) s m') : Flow P m (c :: s) m'
  | star {m m' : Mode} {s : Text} (hm : m ≠ .line) (hslash : m ≠ .slash)
      (h : Flow P .solid s m') : Flow P m ('*' :: s) m'
  | dash {m m' : Mode} {s : Text} (hm : m ≠ .line) (hdash : m ≠ .dash)
      (h : Flow P .dash s m') : Flow P m ('-' :: s) m'
  | slash {m m' : Mode} {s : Text} (hm : m ≠ .line) (h : Flow P .slash s m') :
      Flow P m ('/' :: s) m'
  | quoted {m m' : Mode} {q close : Char} {body s : Text} (hm : m ≠ .line)
      (hq : closer? q = some close) (hbody : delimitedLength? close body = some body.length)
      (h : Flow P .solid s m') : Flow P m (q :: (body ++ s)) m'
  | block {m m' : Mode} {body s : Text} (hm : m ≠ .line)
      (hP : P .blockComment ('/' :: '*' :: body))
      (hbody : commentLength? 0 body = some body.length) (h : Flow P .apart s m') :
      Flow P m ('/' :: '*' :: (body ++ s)) m'
  | comment {m m' : Mode} {body s : Text} (hm : m.isBoundary)
      (hP : P .lineComment ('-' :: '-' :: body)) (hbody : ∀ c ∈ body, c ≠ '\n' ∧ c ≠ '\r')
      (h : Flow P .line s m') : Flow P m ('-' :: '-' :: (body ++ s)) m'

namespace Flow

variable {P Q : Kind → Text → Prop} {m m' m'' : Mode} {c : Char} {s t : Text}

theorem append (h : Flow P m s m') (h' : Flow P m' t m'') : Flow P m (s ++ t) m'' := by
  induction h with
  | nil => exact h'
  | blank hm hc _ ih => exact .blank hm hc (ih h')
  | lineEnd hc _ ih => exact .lineEnd hc (ih h')
  | bare hm hc _ ih => exact .bare hm hc (ih h')
  | star hm hslash _ ih => exact .star hm hslash (ih h')
  | dash hm hdash _ ih => exact .dash hm hdash (ih h')
  | slash hm _ ih => exact .slash hm (ih h')
  | quoted hm hq hbody _ ih =>
      rw [List.cons_append, List.append_assoc]
      exact .quoted hm hq hbody (ih h')
  | block hm hP hbody _ ih =>
      rw [List.cons_append, List.cons_append, List.append_assoc]
      exact .block hm hP hbody (ih h')
  | comment hm hP hbody _ ih =>
      rw [List.cons_append, List.cons_append, List.append_assoc]
      exact .comment hm hP hbody (ih h')

theorem mono (hPQ : ∀ k s, P k s → Q k s) (h : Flow P m s m') : Flow Q m s m' := by
  induction h with
  | nil => exact .nil
  | blank hm hc _ ih => exact .blank hm hc ih
  | lineEnd hc _ ih => exact .lineEnd hc ih
  | bare hm hc _ ih => exact .bare hm hc ih
  | star hm hslash _ ih => exact .star hm hslash ih
  | dash hm hdash _ ih => exact .dash hm hdash ih
  | slash hm _ ih => exact .slash hm ih
  | quoted hm hq hbody _ ih => exact .quoted hm hq hbody ih
  | block hm hP hbody _ ih => exact .block hm (hPQ _ _ hP) hbody ih
  | comment hm hP hbody _ ih => exact .comment hm (hPQ _ _ hP) hbody ih

/-! ## What the first character says -/

theorem isBare_of_closer? {q close : Char} (h : closer? q = some close) :
    isBare q = false ∧ isBlank q = false := by
  unfold closer? at h
  split at h
  · decide
  · decide
  · decide
  · cases h

theorem of_bare (h : Flow P m (c :: s) m') (hc : isBare c) : Flow P (m.next c) s m' := by
  have hblank := isBlank_of_isBare hc
  cases h with
  | blank _ hc' _ => simp [hc'] at hblank
  | lineEnd hc' _ => rcases hc' with rfl | rfl <;> exact absurd hblank (by decide)
  | bare _ _ h => exact h
  | star _ _ _ | dash _ _ _ | slash _ _ | block _ _ _ _ | comment _ _ _ _ =>
      exact absurd hc (by decide)
  | quoted _ hq _ _ => simp [(isBare_of_closer? hq).1] at hc

theorem of_blank (h : Flow P m (c :: s) m') (hc : isBlank c) : Flow P .apart s m' := by
  cases h with
  | blank _ _ h | lineEnd _ h => exact h
  | bare _ hc' _ => simp [isBlank_of_isBare hc'] at hc
  | star _ _ _ | dash _ _ _ | slash _ _ | block _ _ _ _ | comment _ _ _ _ =>
      exact absurd hc (by decide)
  | quoted _ hq _ _ => simp [(isBare_of_closer? hq).2] at hc

theorem of_dash (h : Flow P m ('-' :: s) m') (hm : m.isBoundary = false) : Flow P .dash s m' := by
  cases h with
  | dash _ _ h => exact h
  | comment hm' _ _ _ => simp [hm] at hm'
  | blank _ hc _ | bare _ hc _ => exact absurd hc (by decide)
  | lineEnd hc _ => rcases hc with hc | hc <;> exact absurd hc (by decide)
  | quoted _ hq _ _ => cases hq

theorem not_closing_bracket : ¬ Flow P m (']' :: s) m' := by
  intro h
  cases h with
  | blank _ hc _ | bare _ hc _ => exact absurd hc (by decide)
  | lineEnd hc _ => rcases hc with hc | hc <;> exact absurd hc (by decide)
  | quoted _ hq _ _ => cases hq

/-! ## Reading on -/

/-- A scanner that stops between two pieces of a flowing text. -/
def Skips (P : Kind → Text → Prop) (f : Text → Nat) : Prop :=
  ∀ ⦃s m m'⦄, Flow P m s m' → ∃ m₂, Flow P m₂ (s.drop (f s)) m'

theorem skips_run {p : Char → Bool} (hp : ∀ c, p c → isBare c ∨ isBlank c) :
    Skips P (runLength p) := by
  intro s m m' h
  induction s generalizing m with
  | nil => exact ⟨m, h⟩
  | cons c s ih =>
      by_cases hc : p c
      · have hlength : runLength p (c :: s) = runLength p s + 1 := by simp [runLength, hc]
        rw [hlength, List.drop_succ_cons]
        rcases hp c hc with hbare | hblank
        · exact ih (h.of_bare hbare)
        · exact ih (h.of_blank hblank)
      · have hlength : runLength p (c :: s) = 0 := by simp [runLength, hc]
        rw [hlength]
        exact ⟨m, h⟩

theorem drop_digits (h : Flow P .digit s m') :
    Flow P .digit (s.drop (runLength Char.isDigit s)) m' := by
  induction s with
  | nil => exact h
  | cons c s ih =>
      by_cases hc : c.isDigit
      · have hlength : runLength Char.isDigit (c :: s) = runLength Char.isDigit s + 1 := by
          simp [runLength, hc]
        rw [hlength, List.drop_succ_cons]
        have hs := h.of_bare (isBare_of_isDigit hc)
        rw [Mode.next_of_digit (by simp [hc])] at hs
        exact ih hs
      · have hlength : runLength Char.isDigit (c :: s) = 0 := by simp [runLength, hc]
        rw [hlength]
        exact h

theorem drop_fraction (h : Flow P .digit s m') :
    Flow P .digit (s.drop (fractionLength c s)) m' := by
  unfold fractionLength
  split
  · rename_i hpoint
    cases s with
    | nil => exact h
    | cons d s =>
        have hd : d = '.' := by simpa using (Bool.and_eq_true_iff.mp hpoint).2
        subst hd
        rw [Nat.add_comm, List.tail_cons, List.drop_succ_cons]
        exact drop_digits (h.of_bare (by decide))
  · exact h

/-- The dash after the letter of an exponent is its sign, so no comment starts with it. -/
theorem drop_exponent (h : Flow P .digit s m') :
    ∃ m₂, Flow P m₂ (s.drop (exponentLength s)) m' := by
  fun_cases exponentLength s with
  | case1 e d s hopen =>
      rw [Nat.add_comm, List.drop_succ_cons, List.drop_succ_cons]
      simp only [Bool.and_eq_true, Bool.or_eq_true, decide_eq_true_eq] at hopen
      have he : isBare e := by rcases hopen.1 with rfl | rfl <;> decide
      have hmode : Mode.digit.next e = .exponent := by rcases hopen.1 with rfl | rfl <;> decide
      have h := h.of_bare he
      rw [hmode] at h
      have hdigits := skips_run (P := P) fun c hc => .inl (isBare_of_isDigit hc)
      rcases hopen.2 with (hdigit | rfl) | rfl
      · exact hdigits (h.of_bare (isBare_of_isDigit hdigit))
      · exact hdigits (h.of_bare (by decide))
      · exact hdigits (h.of_dash rfl)
  | case2 e d s hopen => exact ⟨_, h⟩
  | case3 => exact ⟨_, h⟩

/-- A scanner of a token that is no comment, after its first character. -/
def Advances (P : Kind → Text → Prop) (c : Char) (f : Text → Kind × Nat) : Prop :=
  ∀ ⦃m s m'⦄, Flow P (Mode.next m c) s m' →
    (f s).1.isComment = false ∧ ∃ m₂, Flow P m₂ (s.drop (f s).2) m'

section
variable {k : Kind} {f g : Text → Kind × Nat} (hk : k.isComment = false)
include hk

theorem advances_mark : Advances P c fun _ => (k, 0) := fun _ _ _ h => ⟨hk, _, h⟩

theorem advances_run {p : Char → Bool} (hp : ∀ c, p c → isBare c) :
    Advances P c fun s => (k, runLength p s) :=
  fun _ _ _ h => ⟨hk, skips_run (fun c hc => .inl (hp c hc)) h⟩

end

theorem advances_ite {p : Text → Prop} [DecidablePred p] {f g : Text → Kind × Nat}
    (hf : Advances P c f) (hg : Advances P c g) :
    Advances P c fun s => if p s then f s else g s := by
  intro m s m' h
  by_cases hs : p s
  · simp only [hs, if_true]
    exact hf h
  · simp only [hs, if_false]
    exact hg h

theorem advances_pairOrSingle {pairs : List (Char × Kind)} {single : Kind}
    (hop : (c, pairs, single) ∈ operators) : Advances P c (pairOrSingle pairs single) := by
  have hall : operators.all fun o =>
      !o.2.2.isComment && o.2.1.all fun p => isBare p.1 && !p.2.isComment := by decide
  have hop := List.all_eq_true.mp hall _ hop
  simp only [Bool.and_eq_true, Bool.not_eq_true', List.all_eq_true] at hop
  obtain ⟨hsingle, hpairs⟩ := hop
  intro m s m' h
  rcases pairOrSingle_cases pairs single s with ⟨-, heq⟩ | ⟨d, r, k, rfl, hpair, heq⟩
  · rw [heq]
    exact ⟨hsingle, _, h⟩
  · obtain ⟨hd, hk⟩ := hpairs _ hpair
    rw [heq]
    exact ⟨hk, _, h.of_bare hd⟩

theorem advances_number (hc : c.isDigit || c = '.') : Advances P c (number c) := by
  intro m s m' h
  rw [Mode.next_of_digit hc] at h
  unfold number
  split
  · rename_i hhex
    refine ⟨rfl, ?_⟩
    cases s with
    | nil => exact ⟨_, h⟩
    | cons d s =>
        simp only [Bool.and_eq_true, Bool.or_eq_true, decide_eq_true_eq, List.head?_cons,
          Option.some.injEq] at hhex
        have hd : isBare d := by rcases hhex.2 with rfl | rfl <;> decide
        dsimp only
        rw [Nat.add_comm, List.tail_cons, List.drop_succ_cons]
        exact skips_run (fun _ hc => .inl (isBare_of_isHexDigit hc)) (h.of_bare hd)
  · obtain ⟨m₃, h₃⟩ := drop_exponent (drop_fraction (c := c) (drop_digits h))
    refine ⟨?_, m₃, ?_⟩
    · dsimp only
      split <;> rfl
    · simpa only [List.drop_drop, Nat.add_assoc] using h₃

theorem advances_word : Advances P c (word .unicode c) := by
  intro m s m' h
  refine ⟨?_, skips_run (fun _ hc => .inl (isBare_of_isNameChar hc)) h⟩
  simp only [word, wordKind]
  split <;> rfl

/-! ## Quoted parts and comments -/

/-- A quoted part goes on after its closing mark if that mark follows once more. -/
theorem delimitedLength?_append {close : Char} {body : Text} (s : Text)
    (h : delimitedLength? close body = some body.length) :
    delimitedLength? close (body ++ s) =
      if s.head? = some close then
        (delimitedLength? close s.tail).map (· + (body.length + 1))
      else some body.length := by
  fun_induction delimitedLength? close body with
  | case1 => cases h
  | case2 =>
      cases s with
      | nil => simp [delimitedLength?]
      | cons d s =>
          by_cases hd : d = close
          · simp [delimitedLength?, hd]
          · simp [delimitedLength?, hd]
  | case3 body ih =>
      obtain ⟨n, hn, hlength⟩ := Option.map_eq_some_iff.mp h
      have hbody : delimitedLength? close body = some body.length := by
        rw [hn]
        simpa using hlength
      rw [List.cons_append, List.cons_append, delimitedLength?]
      simp only [if_true, ih hbody]
      split
      · rw [Option.map_map]
        rfl
      · rfl
  | case4 d body hd => simp at h
  | case5 c body hc ih =>
      obtain ⟨n, hn, hlength⟩ := Option.map_eq_some_iff.mp h
      have hbody : delimitedLength? close body = some body.length := by
        rw [hn]
        simpa using hlength
      rw [List.cons_append, delimitedLength?_cons_of_ne hc, ih hbody]
      split
      · rw [Option.map_map]
        rfl
      · rfl

/-- A piece that starts with the mark which closes a quoted part is quoted itself. -/
theorem of_closer {q close : Char} (hq : closer? q = some close)
    (h : Flow P m (close :: s) m') :
    ∃ body rest, s = body ++ rest ∧ delimitedLength? close body = some body.length ∧
      Flow P .solid rest m' := by
  have hquote (hclose : closer? close = some close) :
      ∃ body rest, s = body ++ rest ∧ delimitedLength? close body = some body.length ∧
        Flow P .solid rest m' := by
    obtain ⟨hbare, hblank⟩ := isBare_of_closer? hclose
    generalize hc : close :: s = text at h
    cases h with
    | quoted _ hq' hbody h =>
        cases hc
        rw [hclose] at hq'
        cases hq'
        exact ⟨_, _, rfl, hbody, h⟩
    | nil => cases hc
    | blank _ hc' _ =>
        cases hc
        simp [hc'] at hblank
    | bare _ hc' _ =>
        cases hc
        simp [hc'] at hbare
    | lineEnd hc' _ =>
        cases hc
        rcases hc' with rfl | rfl <;> cases hclose
    | star _ _ _ | dash _ _ _ | slash _ _ | block _ _ _ _ | comment _ _ _ _ =>
        cases hc
        cases hclose
  unfold closer? at hq
  split at hq
  · cases hq
    exact hquote rfl
  · cases hq
    exact hquote rfl
  · cases hq
    exact absurd h not_closing_bracket
  · cases hq

/-- A quoted part that is followed by others of the same kind is read with them. -/
theorem exists_delimitedLength? {q close : Char} {body s : Text} (hq : closer? q = some close)
    (hbody : delimitedLength? close body = some body.length) (h : Flow P m s m') :
    ∃ n, delimitedLength? close (body ++ s) = some n ∧
      ∃ m₂, Flow P m₂ ((body ++ s).drop n) m' := by
  induction hlen : s.length using Nat.strongRecOn generalizing m body s with
  | ind length ih =>
      have hlast := delimitedLength?_append s hbody
      by_cases hs : s.head? = some close
      · obtain ⟨tail, rfl⟩ := List.head?_eq_some_iff.mp hs
        obtain ⟨body', rest, rfl, hbody', h'⟩ := of_closer hq h
        obtain ⟨n, hn, hflow⟩ := ih rest.length (by simp at hlen; omega) hbody' h' rfl
        rw [if_pos hs, List.tail_cons, hn] at hlast
        refine ⟨n + (body.length + 1), hlast, ?_⟩
        rwa [Nat.add_comm n, Nat.add_assoc, List.drop_length_add_append, Nat.add_comm 1,
          List.drop_succ_cons]
      · rw [if_neg hs] at hlast
        exact ⟨body.length, hlast, m, by simpa using h⟩

theorem advances_delimited {q close : Char} {k : Kind} {body : Text} (hk : k.isComment = false)
    (hq : closer? q = some close) (hbody : delimitedLength? close body = some body.length)
    (h : Flow P m s m') :
    (delimited close k (body ++ s)).1.isComment = false ∧
      ∃ m₂, Flow P m₂ ((body ++ s).drop (delimited close k (body ++ s)).2) m' := by
  obtain ⟨n, hn, hflow⟩ := exists_delimitedLength? hq hbody h
  rw [delimited, hn]
  exact ⟨hk, hflow⟩

/-! ## The reader finds the given comments only -/

theorem advances_stringOr {f : Text → Kind × Nat} (hf : Advances P c f) :
    Advances P c (stringOr f) := by
  intro m s m' h
  rw [stringOr]
  split
  · rename_i hquote
    obtain ⟨s, rfl⟩ := List.head?_eq_some_iff.mp hquote
    obtain ⟨body, rest, rfl, hbody, h⟩ := of_closer (q := '\'') rfl h
    simp only [List.tail_cons, Nat.add_comm 1, List.drop_succ_cons]
    exact advances_delimited (q := '\'') rfl rfl hbody h
  · exact hf h

theorem advances_plain {f : Text → Kind × Nat} (h : PlainScanner .unicode c f) :
    Advances P c f := by
  cases h with
  | number hdigit => exact advances_number (by simp [hdigit])
  | word _ _ => exact advances_word
  | stray _ _ => exact advances_mark rfl

/-- A bare character starts a token that is no comment. -/
theorem advances_classify (hc : isBare c) : Advances P c (classify .unicode c) := by
  have hscanner := scanner_classify .unicode c
  generalize classify .unicode c = f at hscanner ⊢
  cases hscanner with
  | blank h =>
      have hblank := h.isBlank_of_mem [] c List.mem_cons_self
      simp [isBlank_of_isBare hc] at hblank
  | dash | slash => exact absurd hc (by decide)
  | operator h => exact advances_pairOrSingle h
  | quoted h =>
      have hall : quotes.all fun q => !isBare q.1 := by decide
      have hquote := List.all_eq_true.mp hall _ h
      simp [hc] at hquote
  | atSign => exact advances_run rfl fun _ => isBare_of_isNameChar
  | amount =>
      refine advances_ite (advances_run rfl ?_) (advances_mark rfl)
      intro d hd
      rcases Bool.or_eq_true_iff.mp hd with hd | hd
      · exact isBare_of_isDigit hd
      · rw [of_decide_eq_true hd]
        decide
  | point => exact advances_ite (advances_number rfl) (advances_mark rfl)
  | marked _ h => exact advances_stringOr (advances_plain h)
  | plain _ _ h => exact advances_plain h

theorem not_dash_dash : ¬ Flow P .dash ('-' :: s) m' := by
  intro h
  cases h with
  | dash _ hdash _ => exact hdash rfl
  | comment hm _ _ _ => cases hm
  | blank _ hc _ | bare _ hc _ => exact absurd hc (by decide)
  | quoted _ hq _ _ => cases hq

theorem not_slash_star : ¬ Flow P .slash ('*' :: s) m' := by
  intro h
  cases h with
  | star _ hslash _ => exact hslash rfl
  | blank _ hc _ | bare _ hc _ => exact absurd hc (by decide)
  | quoted _ hq _ _ => cases hq

theorem classify_dash : classify .unicode '-' = commentOrMinus := rfl

theorem classify_slash : classify .unicode '/' = commentOrSlash := rfl

theorem classify_quote {q close : Char} (hq : closer? q = some close) :
    ∃ k : Kind, k.isComment = false ∧ classify .unicode q = delimited close k := by
  unfold closer? at hq
  split at hq
  · cases hq
    exact ⟨.string, rfl, rfl⟩
  · cases hq
    exact ⟨.doubleQuoted, rfl, rfl⟩
  · cases hq
    exact ⟨.bracketed, rfl, rfl⟩
  · cases hq

/-- A line comment is read to the end of its line. -/
theorem runLength_comment {body : Text} (hbody : ∀ c ∈ body, c ≠ '\n' ∧ c ≠ '\r')
    (h : Flow P .line s m') :
    runLength (fun d => d ≠ '\n' && d ≠ '\r') (body ++ s) = body.length := by
  have hall : ∀ c ∈ body, (c ≠ '\n' && c ≠ '\r') = true := by simpa using hbody
  have hrest : s.takeWhile (fun d => d ≠ '\n' && d ≠ '\r') = [] := by
    cases h with
    | nil => rfl
    | lineEnd hc _ => rcases hc with rfl | rfl <;> rfl
    | blank hm _ _ | bare hm _ _ | star hm _ _ | dash hm _ _ | slash hm _ | quoted hm _ _ _
      | block hm _ _ _ => exact absurd rfl hm
    | comment hm _ _ _ => cases hm
  rw [runLength, List.takeWhile_append_of_pos hall, hrest, List.append_nil]

theorem skips_blank {f : Text → Nat} (hf : BlankScanner .unicode c f) : Skips P f := by
  intro s m m' h
  cases hf with
  | lineFeed => exact ⟨_, h⟩
  | carriageReturn =>
      dsimp only
      split
      · rename_i hs
        obtain ⟨s, rfl⟩ := List.head?_eq_some_iff.mp hs
        exact ⟨_, h.of_blank (by decide)⟩
      · exact ⟨_, h⟩
  | inline _ =>
      refine skips_run ?_ h
      intro d hd
      simp only [isInlineBlank, Bool.and_eq_true] at hd
      exact .inr hd.1.1

/-- A blank character starts a blank token. -/
theorem classify_blank (hc : isBlank c) (h : Flow P .apart s m') :
    (classify .unicode c s).1 = .blank ∧
      ∃ m₂, Flow P m₂ (s.drop (classify .unicode c s).2) m' := by
  have hblank : CharClasses.unicode.isBlank c := hc
  obtain ⟨f, hf, hclass⟩ := exists_blankScanner (.inr (.inr hblank))
  rw [hclass]
  exact ⟨rfl, skips_blank hf h⟩

/-- The first token of a flowing text is no comment but a given one, and what follows it flows. -/
theorem classify_step (h : Flow P m (c :: s) m') :
    ((classify .unicode c s).1.isComment →
      P (classify .unicode c s).1 (c :: s.take (classify .unicode c s).2)) ∧
      ∃ m₂, Flow P m₂ (s.drop (classify .unicode c s).2) m' := by
  have hplain {k : Kind} {n : Nat} (hk : k.isComment = false)
      (h : ∃ m₂, Flow P m₂ (s.drop n) m') :
      (k.isComment → P k (c :: s.take n)) ∧ ∃ m₂, Flow P m₂ (s.drop n) m' :=
    ⟨fun hcomment => by simp [hk] at hcomment, h⟩
  cases h with
  | blank _ hc h =>
      obtain ⟨hk, h⟩ := classify_blank hc h
      exact hplain (by rw [hk]; rfl) h
  | lineEnd hc h =>
      have hblank : isBlank c := by rcases hc with rfl | rfl <;> decide
      obtain ⟨hk, h⟩ := classify_blank hblank h
      exact hplain (by rw [hk]; rfl) h
  | bare _ hc h =>
      obtain ⟨hk, h⟩ := advances_classify hc h
      exact hplain hk h
  | star _ _ h => exact hplain rfl ⟨_, h⟩
  | dash _ _ h =>
      have hs : s.head? ≠ some '-' := by
        intro hs
        obtain ⟨s, rfl⟩ := List.head?_eq_some_iff.mp hs
        exact not_dash_dash h
      rw [classify_dash, commentOrMinus, if_neg hs]
      exact hplain rfl ⟨_, h⟩
  | slash _ h =>
      have hs : s.head? ≠ some '*' := by
        intro hs
        obtain ⟨s, rfl⟩ := List.head?_eq_some_iff.mp hs
        exact not_slash_star h
      rw [classify_slash, commentOrSlash, if_neg hs]
      exact hplain rfl ⟨_, h⟩
  | quoted _ hq hbody h =>
      obtain ⟨k, hk, hclass⟩ := classify_quote hq
      rw [hclass]
      obtain ⟨hk, h⟩ := advances_delimited hk hq hbody h
      exact hplain hk h
  | @block _ _ body s _ hP hbody h =>
      have hclass : classify .unicode '/' ('*' :: (body ++ s)) =
          (.blockComment, body.length + 1) := by
        rw [classify_slash, commentOrSlash, List.head?_cons, if_pos rfl, List.tail_cons,
          commentLength?_append hbody, Nat.add_comm]
      rw [hclass, List.take_succ_cons, List.take_left, List.drop_succ_cons, List.drop_left]
      exact ⟨fun _ => hP, _, h⟩
  | @comment _ _ body s _ hP hbody h =>
      have hdash : ∀ c ∈ '-' :: body, c ≠ '\n' ∧ c ≠ '\r' :=
        List.forall_mem_cons.mpr ⟨by decide, hbody⟩
      have hclass : classify .unicode '-' ('-' :: (body ++ s)) =
          (.lineComment, body.length + 1) := by
        rw [classify_dash, commentOrMinus, List.head?_cons, if_pos rfl, ← List.cons_append,
          runLength_comment hdash h, List.length_cons]
      rw [hclass, List.take_succ_cons, List.take_left, List.drop_succ_cons, List.drop_left]
      exact ⟨fun _ => hP, _, h⟩

end Flow

/-- Every comment in a flowing text is a given one. -/
theorem comments_of_flow {P : Kind → Text → Prop} {m m' : Mode} {start : Nat} {s : Text}
    (h : Flow P m s m') : ∀ t ∈ read .unicode start s, t.kind.isComment → P t.kind t.text := by
  fun_induction read .unicode start s generalizing m with
  | case1 => simp
  | case2 start c s kind n hclass text stop =>
      rename_i ih
      obtain ⟨hcomment, m₂, hrest⟩ := h.classify_step
      rw [hclass] at hcomment hrest
      intro t ht
      rcases List.mem_cons.mp ht with rfl | ht
      · exact hcomment
      · exact ih hrest t ht

end Token

end SqlMigration
