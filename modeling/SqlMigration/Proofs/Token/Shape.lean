import SqlMigration.Proofs.Token.Flow
import SqlMigration.Proofs.Token.Spelling

/-! # The shapes of tokens

What the reader takes for a token of a kind. The text of every token flows by itself; how it may
be followed depends on its kind.
-/

namespace SqlMigration.Token

open Text

/-- The kinds of quoted tokens. -/
def quotedKinds : List Kind := [.string, .unicodeString, .bracketed, .doubleQuoted]

/-- The kinds that can stand next to anything: all but blank space, comments, and the two operators
that open a comment when they are doubled or followed by a star. -/
def isInert (k : Kind) : Bool := !k.isTrivia && k ≠ .minus && k ≠ .slash

/-- The texts of the tokens of a kind. -/
inductive Shape : Kind → Text → Prop where
  | blank {s : Text} (hne : s ≠ []) (h : ∀ c ∈ s, isBlank c) : Shape .blank s
  | lineComment {body : Text} (h : ∀ c ∈ body, c ≠ '\n' ∧ c ≠ '\r') :
      Shape .lineComment ('-' :: '-' :: body)
  | blockComment {body : Text} (h : commentLength? 0 body = some body.length) :
      Shape .blockComment ('/' :: '*' :: body)
  | minus : Shape .minus ['-']
  | slash : Shape .slash ['/']
  | star : Shape .star ['*']
  | bare {k : Kind} {s : Text} (hk : isInert k) (hne : s ≠ []) (h : ∀ c ∈ s, isBare c) : Shape k s
  | exponent {a b : Text} (hne : a ≠ []) (ha : ∀ c ∈ a, isBare c) (hb : ∀ c ∈ b, c.isDigit) :
      Shape .numeric (a ++ '-' :: b)
  | quoted {k : Kind} {before body : Text} {q close : Char} (hk : k ∈ quotedKinds)
      (hbefore : ∀ c ∈ before, isBare c) (hq : closer? q = some close)
      (hbody : delimitedLength? close body = some body.length) :
      Shape k (before ++ q :: body)
  | error {s : Text} : Shape .error s

theorem Shape.isBlank_of_mem {s : Text} (h : Shape .blank s) : ∀ c ∈ s, isBlank c := by
  cases h with
  | blank _ hs => exact hs
  | bare hk _ _ => cases hk
  | quoted hk _ _ _ => exact absurd hk (by decide)

theorem Shape.mem_of_lineComment {s : Text} (h : Shape .lineComment s) : '-' ∈ s := by
  cases h with
  | lineComment _ => exact List.mem_cons_self
  | bare hk _ _ => cases hk
  | quoted hk _ _ _ => exact absurd hk (by decide)

/-- The kinds of words. -/
def isWordKind : Kind → Bool
  | .variable | .identifier | .keyword _ => true
  | _ => false

theorem Shape.isBare_of_mem {k : Kind} {s : Text} (h : Shape k s) (hk : isWordKind k) :
    ∀ c ∈ s, isBare c := by
  cases h with
  | bare _ _ h => exact h
  | quoted hquoted _ _ _ =>
      simp only [quotedKinds, List.mem_cons, List.not_mem_nil, or_false] at hquoted
      rcases hquoted with rfl | rfl | rfl | rfl <;> cases hk
  | blank _ _ | lineComment _ | blockComment _ | minus | slash | star | exponent _ _ _ | error =>
      cases hk

theorem delimitedLength?_le {close : Char} {s : Text} {n : Nat}
    (h : delimitedLength? close s = some n) : n ≤ s.length := by
  fun_induction delimitedLength? close s generalizing n with
  | case1 => cases h
  | case2 => cases h; exact Nat.le_refl 1
  | case3 s ih =>
      obtain ⟨k, hk, rfl⟩ := Option.map_eq_some_iff.mp h
      exact Nat.add_le_add_right (ih hk) 2
  | case4 d s hd =>
      cases h
      exact Nat.le_add_left 1 _
  | case5 c s hc ih =>
      obtain ⟨k, hk, rfl⟩ := Option.map_eq_some_iff.mp h
      exact Nat.add_le_add_right (ih hk) 1

theorem commentLength?_le {depth n : Nat} {s : Text} (h : commentLength? depth s = some n) :
    n ≤ s.length := by
  fun_induction commentLength? depth s generalizing n with
  | case1 => cases h
  | case2 => cases h
  | case3 depth c d s hopen ih =>
      obtain ⟨k, hk, rfl⟩ := Option.map_eq_some_iff.mp h
      exact Nat.add_le_add_right (ih hk) 2
  | case4 c d s hopen hclose =>
      cases h
      exact Nat.le_add_left 2 _
  | case5 c d s hopen hclose depth ih =>
      obtain ⟨k, hk, rfl⟩ := Option.map_eq_some_iff.mp h
      exact Nat.add_le_add_right (ih hk) 2
  | case6 depth c d s hopen hclose ih =>
      obtain ⟨k, hk, rfl⟩ := Option.map_eq_some_iff.mp h
      exact Nat.add_le_add_right (ih hk) 1

/-- A quoted part, cut out at its end, is closed by itself. -/
theorem delimitedLength?_take {close : Char} {s : Text} {n : Nat}
    (h : delimitedLength? close s = some n) :
    delimitedLength? close (s.take n) = some (s.take n).length := by
  have hle := delimitedLength?_le h
  have hlen : (s.take n).length = n := List.length_take_of_le hle
  rw [← List.take_append_drop n s] at h
  have hcut := delimitedLength?_of_append (.nil _) h (by omega)
  rw [List.append_nil] at hcut
  rw [hcut, hlen]

theorem commentLength?_take {s : Text} {n : Nat} (h : commentLength? 0 s = some n) :
    commentLength? 0 (s.take n) = some (s.take n).length := by
  have hle := commentLength?_le h
  have hlen : (s.take n).length = n := List.length_take_of_le hle
  rw [← List.take_append_drop n s] at h
  rw [commentLength?_of_append h (by omega), hlen]

theorem shape_delimited (before : Text) {q close : Char} {k : Kind}
    (hbefore : ∀ c ∈ before, isBare c) (hq : closer? q = some close) (hk : k ∈ quotedKinds)
    (s : Text) :
    Shape (delimited close k s).1 (before ++ q :: s.take (delimited close k s).2) := by
  unfold delimited
  split
  · rename_i n hn
    exact .quoted hk hbefore hq (delimitedLength?_take hn)
  · exact .error

/-- The scanner `f` finds tokens of the right shape that start with `c`. -/
def Shapes (c : Char) (f : Text → Kind × Nat) : Prop :=
  ∀ s, Shape (f s).1 (c :: s.take (f s).2)

theorem isBare_of_mem_fraction {c d : Char} {s : Text} (h : d ∈ s.take (fractionLength c s)) :
    isBare d := by
  rcases eq_point_or_isDigit_of_mem_fraction h with rfl | hdigit
  · decide
  · exact isBare_of_isDigit hdigit

/-- An exponent holds bare characters, but for a sign. -/
theorem take_exponentLength (s : Text) :
    (∀ d ∈ s.take (exponentLength s), isBare d) ∨
      ∃ e b, isBare e ∧ (∀ d ∈ b, d.isDigit) ∧ s.take (exponentLength s) = e :: '-' :: b ∧
        exponentLength s ≠ 0 := by
  fun_cases exponentLength s with
  | case1 e d s hopen =>
      simp only [Bool.and_eq_true, Bool.or_eq_true, decide_eq_true_eq] at hopen
      have he : isBare e := by rcases hopen.1 with rfl | rfl <;> decide
      have hdigits : ∀ d ∈ s.take (runLength Char.isDigit s), d.isDigit :=
        fun _ => of_mem_take_runLength
      have hs : ∀ d ∈ s.take (runLength Char.isDigit s), isBare d :=
        fun d h => isBare_of_isDigit (hdigits d h)
      rw [Nat.add_comm, List.take_succ_cons, List.take_succ_cons]
      rcases hopen.2 with (hdigit | rfl) | rfl
      · left
        exact List.forall_mem_cons.mpr
          ⟨he, List.forall_mem_cons.mpr ⟨isBare_of_isDigit hdigit, hs⟩⟩
      · left
        exact List.forall_mem_cons.mpr ⟨he, List.forall_mem_cons.mpr ⟨by decide, hs⟩⟩
      · right
        exact ⟨e, _, he, hdigits, rfl, by omega⟩
  | case2 e d s hopen => simp
  | case3 => simp

namespace Shapes

variable {c : Char} {k : Kind} {f g : Text → Kind × Nat}

theorem bare (hc : isBare c) (hk : ∀ s, isInert (f s).1)
    (hf : ∀ s : Text, ∀ d ∈ s.take (f s).2, isBare d) : Shapes c f := by
  intro s
  refine .bare (hk s) (List.cons_ne_nil _ _) ?_
  exact List.forall_mem_cons.mpr ⟨hc, hf s⟩

theorem mark (hc : isBare c) (hk : isInert k) : Shapes c fun _ => (k, 0) :=
  bare hc (fun _ => hk) (by simp)

theorem run (hc : isBare c) (hk : isInert k) {p : Char → Bool} (hp : ∀ d, p d → isBare d) :
    Shapes c fun s => (k, runLength p s) :=
  bare hc (fun _ => hk) fun _ d hd => hp d (of_mem_take_runLength hd)

theorem error : Shapes c fun _ => (.error, 0) := fun _ => .error

theorem ite {p : Text → Prop} [DecidablePred p] (hf : Shapes c f) (hg : Shapes c g) :
    Shapes c fun s => if p s then f s else g s := by
  intro s
  by_cases h : p s
  · simpa only [h, if_true] using hf s
  · simpa only [h, if_false] using hg s

theorem pairOrSingle {pairs : List (Char × Kind)} {single : Kind}
    (h : (c, pairs, single) ∈ operators) : Shapes c (pairOrSingle pairs single) := by
  have hall : operators.all fun o =>
      (o = ('*', [], .star) || o.2.2 = .error || (isBare o.1 && isInert o.2.2)) &&
        o.2.1.all fun p => isBare o.1 && isBare p.1 && isInert p.2 := by decide
  have hop := List.all_eq_true.mp hall _ h
  simp only [Bool.and_eq_true, Bool.or_eq_true, decide_eq_true_eq, List.all_eq_true] at hop
  obtain ⟨hsingle, hpairs⟩ := hop
  intro s
  rcases pairOrSingle_cases pairs single s with ⟨-, heq⟩ | ⟨d, r, k, rfl, hpair, heq⟩
  · rw [heq]
    rcases hsingle with (hstar | rfl) | ⟨hc, hk⟩
    · cases hstar
      exact .star
    · exact .error
    · exact .bare hk (List.cons_ne_nil _ _) (by simpa using hc)
  · obtain ⟨⟨hc, hd⟩, hk⟩ := hpairs _ hpair
    rw [heq]
    exact .bare hk (List.cons_ne_nil _ _) (by simpa using ⟨hc, hd⟩)

theorem delimited {close : Char} (hq : closer? c = some close) (hk : k ∈ quotedKinds) :
    Shapes c (delimited close k) :=
  fun s => shape_delimited [] (by simp) hq hk s

theorem word (hc : isBare c) : Shapes c (word .unicode c) := by
  refine bare hc ?_ fun _ _ hd => isBare_of_isNameChar (of_mem_take_runLength hd)
  intro s
  simp only [Token.word, wordKind]
  split <;> rfl

/-- A number holds bare characters, but for the sign of its exponent. -/
theorem number (hc : isBare c) : Shapes c (number c) := by
  intro s
  unfold Token.number
  split
  · rename_i hhex
    refine .bare rfl (List.cons_ne_nil _ _) (List.forall_mem_cons.mpr ⟨hc, ?_⟩)
    cases s with
    | nil => simp
    | cons d s =>
        simp only [Bool.and_eq_true, Bool.or_eq_true, decide_eq_true_eq, List.head?_cons,
          Option.some.injEq] at hhex
        have hd : isBare d := by rcases hhex.2 with rfl | rfl <;> decide
        dsimp only
        rw [Nat.add_comm, List.tail_cons, List.take_succ_cons]
        exact List.forall_mem_cons.mpr
          ⟨hd, fun _ h => isBare_of_isHexDigit (of_mem_take_runLength h)⟩
  · dsimp only
    generalize hrest : s.drop (runLength Char.isDigit s) = rest
    have hdigits : ∀ d ∈ s.take (runLength Char.isDigit s), isBare d :=
      fun _ h => isBare_of_isDigit (of_mem_take_runLength h)
    have hfraction : ∀ d ∈ rest.take (fractionLength c rest), isBare d :=
      fun _ h => isBare_of_mem_fraction h
    rw [Nat.add_assoc, List.take_add, List.take_add, hrest]
    have hwhole : ∀ d ∈ c :: (s.take (runLength Char.isDigit s) ++
        rest.take (fractionLength c rest)), isBare d := by
      intro d hd
      rw [List.mem_cons, List.mem_append] at hd
      rcases hd with rfl | hd | hd
      · exact hc
      · exact hdigits d hd
      · exact hfraction d hd
    rw [← List.append_assoc, ← List.cons_append]
    rcases take_exponentLength (rest.drop (fractionLength c rest)) with hexp | hexp
    · refine .bare (by split <;> rfl) (by simp) ?_
      intro d hd
      rcases List.mem_append.mp hd with hd | hd
      · exact hwhole d hd
      · exact hexp d hd
    · obtain ⟨e, b, he, hb, heq, hpos⟩ := hexp
      have hkind : (c = '.' || fractionLength c rest ≠ 0 ||
          exponentLength (rest.drop (fractionLength c rest)) ≠ 0) = true := by simp [hpos]
      rw [if_pos hkind, heq, List.append_cons _ e]
      refine .exponent (by simp) ?_ hb
      intro d hd
      rcases List.mem_append.mp hd with hd | hd
      · exact hwhole d hd
      · rwa [List.mem_singleton.mp hd]

end Shapes

theorem shape_lineComment {s : Text} (h : s.head? = some '-') :
    Shape .lineComment ('-' :: s.take (runLength (fun d => d ≠ '\n' && d ≠ '\r') s)) := by
  obtain ⟨s, rfl⟩ := List.head?_eq_some_iff.mp h
  have hlength : runLength (fun d => d ≠ '\n' && d ≠ '\r') ('-' :: s) =
      runLength (fun d => d ≠ '\n' && d ≠ '\r') s + 1 := by simp [runLength]
  rw [hlength, List.take_succ_cons]
  refine .lineComment ?_
  intro c hc
  simpa using of_mem_take_runLength hc

theorem shape_blockComment {s : Text} {n : Nat} (h : s.head? = some '*')
    (hn : commentLength? 0 s.tail = some n) : Shape .blockComment ('/' :: s.take (1 + n)) := by
  obtain ⟨s, rfl⟩ := List.head?_eq_some_iff.mp h
  rw [Nat.add_comm, List.take_succ_cons]
  exact .blockComment (commentLength?_take hn)

theorem shapes_commentOrMinus : Shapes '-' commentOrMinus := by
  intro s
  rw [commentOrMinus]
  split
  · rename_i hs
    exact shape_lineComment hs
  · exact .minus

theorem shapes_commentOrSlash : Shapes '/' commentOrSlash := by
  intro s
  rw [commentOrSlash]
  split
  · rename_i hs
    split
    · rename_i n hn
      exact shape_blockComment hs hn
    · exact .error
  · exact .slash

theorem shapes_stringOr {c : Char} {f : Text → Kind × Nat} (hc : isBare c) (hf : Shapes c f) :
    Shapes c (stringOr f) := by
  intro s
  rw [stringOr]
  split
  · rename_i hquote
    obtain ⟨s, rfl⟩ := List.head?_eq_some_iff.mp hquote
    rw [List.tail_cons, Nat.add_comm, List.take_succ_cons]
    exact shape_delimited [c] (List.forall_mem_singleton.mpr hc) rfl (by decide) s
  · exact hf s

theorem PlainScanner.shapes {c : Char} {f : Text → Kind × Nat} (h : PlainScanner .unicode c f) :
    Shapes c f := by
  cases h with
  | number hdigit => exact .number (isBare_of_isDigit hdigit)
  | word _ hletter =>
      refine .word ?_
      simp only [Bool.or_eq_true, decide_eq_true_eq] at hletter
      rcases hletter with (hletter | rfl) | rfl
      · exact isBare_of_isAlphanumeric (Bool.or_eq_true_iff.mpr (.inl hletter))
      · decide
      · decide
  | stray _ _ => exact .error

theorem shapes_classify (c : Char) : Shapes c (classify .unicode c) := by
  have hscanner := scanner_classify .unicode c
  generalize classify .unicode c = f at hscanner ⊢
  cases hscanner with
  | blank h => exact fun s => .blank (List.cons_ne_nil _ _) (h.isBlank_of_mem s)
  | dash => exact shapes_commentOrMinus
  | slash => exact shapes_commentOrSlash
  | operator h => exact .pairOrSingle h
  | @quoted _ close k h =>
      have hall : quotes.all fun q => closer? q.1 = some q.2.1 && quotedKinds.contains q.2.2 := by
        decide
      have hquote := List.all_eq_true.mp hall _ h
      simp only [Bool.and_eq_true, decide_eq_true_eq, List.contains_iff_mem] at hquote
      exact .delimited hquote.1 hquote.2
  | atSign => exact .run (by decide) rfl fun _ => isBare_of_isNameChar
  | amount =>
      refine .ite (.run (by decide) rfl ?_) .error
      intro d hd
      rcases Bool.or_eq_true_iff.mp hd with hd | hd
      · exact isBare_of_isDigit hd
      · rw [of_decide_eq_true hd]
        decide
  | point => exact .ite (.number (by decide)) (.mark (by decide) rfl)
  | marked hc h => exact shapes_stringOr (by rcases hc with rfl | rfl <;> decide) h.shapes
  | plain _ _ h => exact h.shapes

/-- Every token of a text has the shape of its kind. -/
theorem shape_of_mem_read {start : Nat} {s : Text} {t : Token} (h : t ∈ read .unicode start s) :
    Shape t.kind t.text := by
  fun_induction read .unicode start s with
  | case1 => simp at h
  | case2 start c s kind n hclass text stop ih =>
      rcases List.mem_cons.mp h with rfl | h
      · have hshape := shapes_classify c s
        rwa [hclass] at hshape
      · exact ih h

end SqlMigration.Token
