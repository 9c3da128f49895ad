import SqlMigration.Proofs.Token.Lossless
import SqlMigration.Proofs.Token.Scanner

/-! # Cutting a script between tokens

The reader looks past a token by a character or two: a second delimiter, the sign of an exponent,
the star of a comment. None of this matters once the script is cut between two tokens, or goes on
with the same characters there. A run of tokens, joined and read again, gives the same tokens.
-/

namespace SqlMigration.Token

/-! ## Answers settled by what is taken -/

/-- What the reader sees of the text after a token: its first character, and the one after that if
the first may start an exponent. -/
def peek : Text → Text
  | [] => []
  | c :: s => if c = 'e' || c = 'E' then c :: s.take 1 else [c]

/-- A token that ends before `r` ends before `r'` as well. -/
def Alike (r r' : Text) : Prop := r' = [] ∨ peek r' = peek r

theorem head?_peek (s : Text) : (peek s).head? = s.head? := by
  cases s with
  | nil => rfl
  | cons c s =>
      rw [peek]
      split <;> rfl

namespace Alike

variable {r r' : Text}

theorem nil (r : Text) : Alike r [] := .inl rfl

theorem eq_nil (h : Alike [] r') : r' = [] := by
  rcases h with h | h
  · exact h
  · have hhead := congrArg List.head? h
    rw [head?_peek, head?_peek] at hhead
    exact List.head?_eq_none_iff.mp hhead

/-- What does not hold of the first character of `r` does not hold of that of `r'`. -/
theorem not_head {P : Option Char → Prop} (h : Alike r r') (hnone : ¬ P none) (hr : ¬ P r.head?) :
    ¬ P r'.head? := by
  rcases h with rfl | h
  · exact hnone
  · rwa [← head?_peek, h, head?_peek]

theorem takeWhile_eq_nil {p : Char → Bool} (h : Alike r r') (hr : r.takeWhile p = []) :
    r'.takeWhile p = [] := by
  have hfirst (s : Text) : s.takeWhile p = [] ↔ ¬ s.head?.any p := by
    cases s <;> simp [List.takeWhile_cons]
  rw [hfirst] at hr ⊢
  exact h.not_head (P := fun o => o.any p) (by simp) hr

end Alike

/-- The answer of a scanner `f` is settled by the characters it takes, as many as `taken` reads off
the answer: it stays the same when the text ends anywhere after them, or goes on alike. -/
def Settled {α : Type} (taken : α → Nat) (f : Text → α) : Prop :=
  ∀ s r r' : Text, Alike r r' → taken (f (s ++ r)) ≤ s.length → f (s ++ r') = f (s ++ r)

namespace Settled

variable {α β : Type} {taken : α → Nat} {total : β → Nat}

theorem const (a : α) : Settled taken fun _ => a := fun _ _ _ _ _ => rfl

theorem map {f : Text → α} (hf : Settled taken f) (φ : α → β)
    (hφ : ∀ a, taken a ≤ total (φ a)) : Settled total fun s => φ (f s) := by
  intro s r r' halike h
  exact congrArg φ (hf s r r' halike (Nat.le_trans (hφ _) h))

/-- A scanner that starts after the first character, which is taken as well. -/
theorem tail {f : Text → α} (hf : Settled taken f) (φ : α → β)
    (hφ : ∀ a, taken a + 1 ≤ total (φ a)) : Settled total fun s => φ (f s.tail) := by
  intro s r r' halike h
  cases s with
  | nil =>
      have := Nat.le_trans (hφ (f r.tail)) h
      simp at this
  | cons c s =>
      have hlen := Nat.le_trans (hφ (f (s ++ r))) h
      exact congrArg φ (hf s r r' halike (Nat.le_of_succ_le_succ hlen))

/-- A choice by the next character, where the branch for it takes that character. -/
theorem ite_head {f g : Text → α} {P : Option Char → Prop} [DecidablePred P]
    (hnone : ¬ P none) (hpos : ∀ s, P s.head? → 0 < taken (f s))
    (hf : Settled taken f) (hg : Settled taken g) :
    Settled taken fun s => if P s.head? then f s else g s := by
  intro s r r' halike h
  cases s with
  | nil =>
      by_cases hr : P r.head?
      · have hlen : taken (f r) ≤ 0 := by simpa [hr] using h
        exact absurd (hpos r hr) (Nat.not_lt.mpr hlen)
      · have hlen : taken (g ([] ++ r)) ≤ 0 := by simpa [hr] using h
        simpa [hr, halike.not_head hnone hr] using hg [] r r' halike hlen
  | cons c s =>
      by_cases hc : P (some c)
      · have hlen : taken (f (c :: s ++ r)) ≤ (c :: s).length := by simpa [hc] using h
        simpa [hc] using hf (c :: s) r r' halike hlen
      · have hlen : taken (g (c :: s ++ r)) ≤ (c :: s).length := by simpa [hc] using h
        simpa [hc] using hg (c :: s) r r' halike hlen

/-- One scanner after another. The second knows the answer of the first, and the final answer
counts what both have taken. -/
theorem andThen {f : Text → α} {g : α → Text → β} (hf : Settled taken f)
    (hg : ∀ a, Settled (fun b => total b - taken a) (g a))
    (hle : ∀ a s, taken a ≤ total (g a s)) :
    Settled total fun s => g (f s) (s.drop (taken (f s))) := by
  intro s r r' halike h
  have hfirst : taken (f (s ++ r)) ≤ s.length := Nat.le_trans (hle _ _) h
  have hsame : f (s ++ r') = f (s ++ r) := hf s r r' halike hfirst
  have hdrop (u : Text) :
      (s ++ u).drop (taken (f (s ++ r))) = s.drop (taken (f (s ++ r))) ++ u :=
    List.drop_append_of_le_length hfirst
  simp only [hdrop] at h
  simp only [hsame, hdrop]
  apply hg _ _ _ _ halike
  rw [List.length_drop]
  exact Nat.sub_le_sub_right h _

end Settled

/-! ## Runs and delimiters -/

theorem settled_takeWhile (p : Char → Bool) : Settled List.length (List.takeWhile p) := by
  intro s r r' halike h
  rw [List.takeWhile_append] at h ⊢
  rw [List.takeWhile_append]
  split
  · rename_i hall
    rw [if_pos hall, List.length_append] at h
    have hr : r.takeWhile p = [] := List.eq_nil_of_length_eq_zero (by omega)
    rw [hr, halike.takeWhile_eq_nil hr]
  · rfl

theorem settled_runLength (p : Char → Bool) : Settled id (runLength p) :=
  (settled_takeWhile p).map List.length fun _ => Nat.le_refl _

theorem runLength_pos {p : Char → Bool} {s : Text} (h : s.head?.any p) : 0 < runLength p s := by
  cases s with
  | nil => simp at h
  | cons c s =>
      have hc : p c = true := by simpa using h
      simp [runLength, hc]

theorem delimitedLength?_cons_of_ne {close c : Char} (hc : c ≠ close) (s : Text) :
    delimitedLength? close (c :: s) = (delimitedLength? close s).map (· + 1) := by
  rw [delimitedLength?.eq_def]
  simp only [hc, if_false]

theorem delimitedLength?_pos {close : Char} {s : Text} {n : Nat}
    (h : delimitedLength? close s = some n) : 0 < n := by
  fun_induction delimitedLength? close s generalizing n with
  | case1 => cases h
  | case2 => cases h; exact Nat.one_pos
  | case3 s ih =>
      obtain ⟨k, -, rfl⟩ := Option.map_eq_some_iff.mp h
      omega
  | case4 d s hd => cases h; exact Nat.one_pos
  | case5 c s hc ih =>
      obtain ⟨k, -, rfl⟩ := Option.map_eq_some_iff.mp h
      omega

/-- A closing delimiter ends the text unless it comes once more. -/
theorem delimitedLength?_close (close : Char) (s : Text) :
    delimitedLength? close (close :: s) =
      if s.head? = some close then (delimitedLength? close s.tail).map (· + 2) else some 1 := by
  cases s with
  | nil => simp [delimitedLength?]
  | cons d s => simp [delimitedLength?]

/-- The end of a delimited text is found without what follows it. -/
theorem delimitedLength?_of_append {close : Char} {s r r' : Text} {n : Nat} (halike : Alike r r')
    (h : delimitedLength? close (s ++ r) = some n) (hn : n ≤ s.length) :
    delimitedLength? close (s ++ r') = some n := by
  fun_induction delimitedLength? close s generalizing n with
  | case1 =>
      have := delimitedLength?_pos h
      simp at hn
      omega
  | case2 =>
      -- The closing delimiter is last, so a second one after it would have been taken.
      rw [List.singleton_append, delimitedLength?_close] at h ⊢
      by_cases hr : r.head? = some close
      · rw [if_pos hr] at h
        obtain ⟨k, -, rfl⟩ := Option.map_eq_some_iff.mp h
        simp at hn
      · rw [if_neg hr] at h
        rwa [if_neg (halike.not_head (P := (· = some close)) (by simp) hr)]
  | case3 s ih =>
      simp only [delimitedLength?, List.cons_append, if_true] at h ⊢
      obtain ⟨k, hk, rfl⟩ := Option.map_eq_some_iff.mp h
      rw [ih hk (by simpa using hn)]
      rfl
  | case4 d s hd => simpa [delimitedLength?, hd] using h
  | case5 c s hc ih =>
      rw [List.cons_append, delimitedLength?_cons_of_ne hc] at h ⊢
      obtain ⟨k, hk, rfl⟩ := Option.map_eq_some_iff.mp h
      rw [ih hk (by simpa using hn)]
      rfl

theorem two_le_of_commentLength? {depth : Nat} {s : Text} {n : Nat}
    (h : commentLength? depth s = some n) : 2 ≤ n := by
  fun_induction commentLength? depth s generalizing n with
  | case1 => cases h
  | case2 => cases h
  | case3 depth c d s hopen ih =>
      obtain ⟨k, -, rfl⟩ := Option.map_eq_some_iff.mp h
      omega
  | case4 c d s hopen hclose => cases h; exact Nat.le_refl 2
  | case5 c d s hopen hclose depth ih =>
      obtain ⟨k, -, rfl⟩ := Option.map_eq_some_iff.mp h
      omega
  | case6 depth c d s hopen hclose ih =>
      obtain ⟨k, hk, rfl⟩ := Option.map_eq_some_iff.mp h
      exact Nat.le_succ_of_le (ih hk)

/-- The end of a block comment is found without what follows it. -/
theorem commentLength?_of_append {depth : Nat} {s r : Text} {n : Nat}
    (h : commentLength? depth (s ++ r) = some n) (hn : n ≤ s.length) :
    commentLength? depth s = some n := by
  fun_induction commentLength? depth s generalizing n with
  | case1 =>
      have := two_le_of_commentLength? h
      simp at hn
      omega
  | case2 =>
      have := two_le_of_commentLength? h
      simp at hn
      omega
  | case3 depth c d s hopen ih =>
      rw [List.cons_append, List.cons_append, commentLength?.eq_def] at h
      simp only [hopen, if_true] at h
      obtain ⟨k, hk, rfl⟩ := Option.map_eq_some_iff.mp h
      rw [ih hk (by simpa using hn)]
      rfl
  | case4 c d s hopen hclose =>
      rw [List.cons_append, List.cons_append, commentLength?, if_neg hopen, if_pos hclose] at h
      exact h
  | case5 c d s hopen hclose depth ih =>
      rw [List.cons_append, List.cons_append, commentLength?, if_neg hopen, if_pos hclose] at h
      obtain ⟨k, hk, rfl⟩ := Option.map_eq_some_iff.mp h
      rw [ih hk (by simpa using hn)]
      rfl
  | case6 depth c d s hopen hclose ih =>
      rw [List.cons_append, List.cons_append, commentLength?.eq_def] at h
      simp only [hopen, hclose] at h
      obtain ⟨k, hk, rfl⟩ := Option.map_eq_some_iff.mp h
      rw [ih hk (by simpa using hn)]
      rfl

/-- Where a block comment ends does not depend on what follows it. -/
theorem commentLength?_append {depth n : Nat} {s : Text} (h : commentLength? depth s = some n)
    (r : Text) : commentLength? depth (s ++ r) = some n := by
  fun_induction commentLength? depth s generalizing n with
  | case1 => cases h
  | case2 => cases h
  | case3 depth c d s hopen ih =>
      obtain ⟨k, hk, rfl⟩ := Option.map_eq_some_iff.mp h
      rw [List.cons_append, List.cons_append, commentLength?.eq_def]
      simp only [hopen, if_true, ih hk]
      rfl
  | case4 c d s hopen hclose =>
      cases h
      rw [List.cons_append, List.cons_append, commentLength?, if_neg hopen, if_pos hclose]
  | case5 c d s hopen hclose depth ih =>
      obtain ⟨k, hk, rfl⟩ := Option.map_eq_some_iff.mp h
      rw [List.cons_append, List.cons_append, commentLength?, if_neg hopen, if_pos hclose, ih hk]
      rfl
  | case6 depth c d s hopen hclose ih =>
      obtain ⟨k, hk, rfl⟩ := Option.map_eq_some_iff.mp h
      rw [List.cons_append, List.cons_append, commentLength?.eq_def]
      rw [List.cons_append] at ih
      simp only [hopen, hclose, ih hk]
      rfl

/-! ## Kinds of tokens -/

theorem settled_delimited (close : Char) (kind : Kind) :
    Settled Prod.snd (delimited close kind) := by
  intro s r r' halike h
  unfold delimited at h ⊢
  cases hr : delimitedLength? close (s ++ r) with
  | none =>
      have hlen : s.length + r.length ≤ s.length := by simpa [hr] using h
      obtain rfl : r = [] := List.eq_nil_of_length_eq_zero (by omega)
      rw [halike.eq_nil, hr]
  | some n =>
      rw [hr] at h
      rw [delimitedLength?_of_append halike hr h]

/-- The scanner of a block comment, from the star that opens it. -/
theorem settled_comment :
    Settled Prod.snd fun s : Text =>
      match commentLength? 0 s.tail with
      | some n => (Kind.blockComment, 1 + n)
      | none => (Kind.error, s.length) := by
  intro s r r' halike h
  cases hr : commentLength? 0 (s ++ r).tail with
  | none =>
      have hlen : s.length + r.length ≤ s.length := by simpa [hr] using h
      obtain rfl : r = [] := List.eq_nil_of_length_eq_zero (by omega)
      rw [halike.eq_nil]
  | some n =>
      have hlen : 1 + n ≤ s.length := by simpa [hr] using h
      cases s with
      | nil => simp at hlen
      | cons c s =>
          have hs : commentLength? 0 s = some n :=
            commentLength?_of_append hr (by simp at hlen; omega)
          simp only [List.cons_append, List.tail_cons, commentLength?_append hs]

/-- Whether the two characters start an exponent. -/
def startsExponent (e c : Char) : Bool := (e = 'e' || e = 'E') && (c.isDigit || c = '+' || c = '-')

theorem exponentLength_cons_cons (e c : Char) (s : Text) :
    exponentLength (e :: c :: s) =
      if startsExponent e c then 2 + runLength Char.isDigit s else 0 := rfl

theorem exponentLength_cons (e : Char) (s : Text) :
    exponentLength (e :: s) =
      if s.head?.any (startsExponent e) then 2 + runLength Char.isDigit s.tail else 0 := by
  cases s <;> simp [exponentLength, startsExponent]

/-- The characters that start an exponent are among those that are seen. -/
theorem exponentLength_of_alike {r r' : Text} (halike : Alike r r') (h : exponentLength r = 0) :
    exponentLength r' = 0 := by
  rcases halike with rfl | hpeek
  · rfl
  cases r' with
  | nil => rfl
  | cons e r' =>
      rw [exponentLength_cons, if_neg]
      intro hopen
      obtain ⟨c, hc, hstarts⟩ := (Option.any_eq_true _ _).mp hopen
      obtain ⟨r', rfl⟩ := List.head?_eq_some_iff.mp hc
      have he : (e = 'e' || e = 'E') = true := (Bool.and_eq_true_iff.mp hstarts).1
      rw [peek, if_pos he] at hpeek
      rcases r with _ | ⟨d, _ | ⟨b, r⟩⟩
      · cases hpeek
      · simp [peek] at hpeek
      · rw [peek] at hpeek
        split at hpeek
        · cases hpeek
          rw [exponentLength_cons_cons, if_pos hstarts] at h
          omega
        · cases hpeek

theorem settled_exponentLength : Settled id exponentLength := by
  intro s r r' halike h
  rcases s with _ | ⟨e, _ | ⟨c, s⟩⟩
  · have hr : exponentLength r = 0 := Nat.le_zero.mp h
    exact (exponentLength_of_alike halike hr).trans hr.symm
  · rw [List.singleton_append, exponentLength_cons] at h ⊢
    rw [List.singleton_append, exponentLength_cons]
    by_cases hopen : r.head?.any (startsExponent e)
    · -- An exponent would take two characters at least.
      rw [if_pos hopen, id, List.length_singleton] at h
      omega
    · rw [if_neg hopen, if_neg]
      exact halike.not_head (P := fun o => o.any (startsExponent e)) (by simp) hopen
  · simp only [List.cons_append, exponentLength_cons_cons] at h ⊢
    by_cases hopen : startsExponent e c
    · rw [if_pos hopen] at h
      have hrun : runLength Char.isDigit (s ++ r') = runLength Char.isDigit (s ++ r) := by
        apply settled_runLength _ _ _ _ halike
        simp only [id, List.length_cons] at h ⊢
        omega
      rw [if_pos hopen, if_pos hopen, hrun]
    · rw [if_neg hopen, if_neg hopen]

theorem settled_fractionLength (c : Char) : Settled id (fractionLength c) := by
  refine Settled.ite_head (P := fun o => (c ≠ '.' && o = some '.') = true) (by simp) ?_ ?_
    (.const 0)
  · intro s _
    exact Nat.add_pos_left Nat.one_pos _
  · exact (settled_runLength Char.isDigit).tail (1 + ·) fun n => Nat.le_of_eq (Nat.add_comm n 1)

/-- The digits, the fraction and the exponent of a number are scanned one after another. -/
theorem settled_number (c : Char) : Settled Prod.snd (number c) := by
  let kind (fraction exponent : Nat) : Kind :=
    if c = '.' || fraction ≠ 0 || exponent ≠ 0 then .numeric else .integer
  have hexponent (digits fraction : Nat) :
      Settled (fun b => b.2 - digits - fraction) fun s =>
        (kind fraction (exponentLength s), digits + fraction + exponentLength s) := by
    refine settled_exponentLength.map
      (fun exponent => (kind fraction exponent, digits + fraction + exponent)) ?_
    intro exponent
    simp only [id]
    omega
  have hfraction (digits : Nat) : Settled (fun b => b.2 - digits) fun s =>
      (kind (fractionLength c s) (exponentLength (s.drop (fractionLength c s))),
        digits + fractionLength c s + exponentLength (s.drop (fractionLength c s))) := by
    refine (settled_fractionLength c).andThen (g := fun fraction s =>
      (kind fraction (exponentLength s), digits + fraction + exponentLength s))
      (hexponent digits) ?_
    intro fraction s
    simp only [id]
    omega
  unfold number
  refine Settled.ite_head
    (P := fun o => (c = '0' && (o = some 'x' || o = some 'X')) = true) (by simp) ?_ ?_ ?_
  · intro s _
    exact Nat.add_pos_left Nat.one_pos _
  · exact (settled_runLength isHexDigit).tail (fun n => (Kind.binary, 1 + n))
      fun n => Nat.le_of_eq (Nat.add_comm n 1)
  · refine (settled_runLength Char.isDigit).andThen (g := fun digits s =>
      (kind (fractionLength c s) (exponentLength (s.drop (fractionLength c s))),
        digits + fractionLength c s + exponentLength (s.drop (fractionLength c s)))) hfraction ?_
    intro digits s
    simp only [id]
    omega

theorem settled_word (cc : CharClasses) (c : Char) : Settled Prod.snd (word cc c) := by
  refine (settled_takeWhile (isNameChar cc)).map
    (fun tail => (wordKind (c :: tail), tail.length)) ?_
  intro tail
  exact Nat.le_refl _

theorem number_point_pos {s : Text} (h : s.head?.any Char.isDigit) : 0 < (number '.' s).2 := by
  have hrun := runLength_pos h
  simp only [number]
  exact Nat.add_pos_left (Nat.add_pos_left hrun _) _

/-- A second character that belongs to an operator is taken, and another one is not seen. -/
theorem settled_pairOrSingle (pairs : List (Char × Kind)) (single : Kind) :
    Settled Prod.snd (pairOrSingle pairs single) := by
  intro s r r' halike h
  cases s with
  | cons d s => rfl
  | nil =>
      have hr : r.head?.bind (fun d => pairs.lookup d) = none := by
        cases hfound : r.head?.bind fun d => pairs.lookup d with
        | none => rfl
        | some k =>
            rw [List.nil_append, pairOrSingle, hfound] at h
            exact absurd h (by simp)
      have hr' : r'.head?.bind (fun d => pairs.lookup d) = none := by
        refine Option.not_isSome_iff_eq_none.mp ?_
        exact halike.not_head (P := fun o => (o.bind fun d => pairs.lookup d).isSome) (by simp)
          (by rw [hr]; simp)
      rw [List.nil_append, List.nil_append, pairOrSingle, pairOrSingle, hr, hr']

theorem settled_commentOrMinus : Settled Prod.snd commentOrMinus := by
  refine .ite_head (P := (· = some '-')) (by simp) ?_ ?_ (.const _)
  · intro s hs
    exact runLength_pos (by simp [hs])
  · exact (settled_runLength _).map (Prod.mk Kind.lineComment) fun _ => Nat.le_refl _

theorem settled_commentOrSlash : Settled Prod.snd commentOrSlash := by
  refine .ite_head (P := (· = some '*')) (by simp) ?_ settled_comment (.const _)
  intro s hs
  split
  · exact Nat.add_pos_left Nat.one_pos _
  · exact List.length_pos_of_mem (List.mem_of_mem_head? hs)

theorem settled_amountOrStray : Settled Prod.snd amountOrStray := by
  refine .ite_head (P := fun o => o.any Char.isDigit = true) (by simp) ?_ ?_ (.const _)
  · intro s hs
    obtain ⟨d, hd, hdigit⟩ := (Option.any_eq_true _ _).mp hs
    exact runLength_pos (by simp [hd, hdigit])
  · exact (settled_runLength _).map (Prod.mk Kind.money) fun _ => Nat.le_refl _

theorem settled_numberOrDot : Settled Prod.snd numberOrDot :=
  .ite_head (P := fun o => o.any Char.isDigit = true) (by simp) (fun s => number_point_pos)
    (settled_number '.') (.const _)

theorem settled_stringOr {f : Text → Kind × Nat} (hf : Settled Prod.snd f) :
    Settled Prod.snd (stringOr f) := by
  refine .ite_head (P := (· = some '\'')) (by simp) ?_ ?_ hf
  · intro s _
    exact Nat.add_pos_left Nat.one_pos _
  · refine (settled_delimited '\'' .unicodeString).tail (fun b => (b.1, 1 + b.2)) ?_
    intro b
    exact Nat.le_of_eq (Nat.add_comm b.2 1)

theorem BlankScanner.settled {cc : CharClasses} {c : Char} {f : Text → Nat}
    (h : BlankScanner cc c f) : Settled id f := by
  cases h with
  | lineFeed => exact .const 0
  | carriageReturn =>
      exact .ite_head (P := (· = some '\n')) (by simp) (fun _ _ => Nat.one_pos) (.const 1) (.const 0)
  | inline _ => exact settled_runLength _

theorem PlainScanner.settled {cc : CharClasses} {c : Char} {f : Text → Kind × Nat}
    (h : PlainScanner cc c f) : Settled Prod.snd f := by
  cases h with
  | number _ => exact settled_number c
  | word _ _ => exact settled_word cc c
  | stray _ _ => exact .const _

/-- The kind and the length of a token are settled by its own characters. -/
theorem settled_classify (cc : CharClasses) (c : Char) : Settled Prod.snd (classify cc c) := by
  have hscanner := scanner_classify cc c
  generalize classify cc c = f at hscanner ⊢
  cases hscanner with
  | blank h => exact h.settled.map (Prod.mk Kind.blank) fun _ => Nat.le_refl _
  | dash => exact settled_commentOrMinus
  | slash => exact settled_commentOrSlash
  | operator _ => exact settled_pairOrSingle _ _
  | quoted _ => exact settled_delimited _ _
  | atSign => exact (settled_runLength _).map (Prod.mk Kind.variable) fun _ => Nat.le_refl _
  | amount => exact settled_amountOrStray
  | point => exact settled_numberOrDot
  | marked _ h => exact settled_stringOr h.settled
  | plain _ _ h => exact h.settled

/-! ## Runs of tokens -/

/-- The token `d` bytes further on. -/
def shift (d : Nat) (t : Token) : Token :=
  { t with span := ⟨t.span.start + d, t.span.stop + d⟩ }

variable (cc : CharClasses)

theorem read_add (start d : Nat) (s : Text) :
    read cc (start + d) s = (read cc start s).map (shift d) := by
  fun_induction read cc start s with
  | case1 start => simp
  | case2 start c s kind n hclass text stop ih =>
      have hstop : start + d + Text.byteLength (c :: s.take n) = stop + d :=
        Nat.add_right_comm _ _ _
      rw [read_cons, hclass, List.map_cons, ← ih]
      simp only [hstop]
      rfl

/-- The first few tokens are read again from their own text. -/
theorem read_joinText_of_eq_append {start : Nat} {s : Text} {ts us : List Token}
    (h : read cc start s = ts ++ us) : read cc start (joinText ts) = ts := by
  induction ts generalizing start s with
  | nil => simp
  | cons t ts ih =>
      cases s with
      | nil => simp at h
      | cons c s =>
          rw [read_cons, List.cons_append] at h
          obtain ⟨rfl, hrest⟩ := List.cons.inj h
          generalize hn : (classify cc c s).2 = n at hrest
          have hdrop : s.drop n = joinText ts ++ joinText us := by
            rw [← joinText_append, ← hrest, joinText_read]
          by_cases hle : n ≤ s.length
          · have hs : s.take n ++ joinText ts ++ joinText us = s := by
              rw [List.append_assoc, ← hdrop, List.take_append_drop]
            have hlen : (s.take n).length = n := List.length_take_of_le hle
            have hclass : classify cc c (s.take n ++ joinText ts) = classify cc c s := by
              have hsettled := settled_classify cc c (s.take n ++ joinText ts) _ _
                (.nil (joinText us))
              rw [hs, hn, List.length_append, hlen, List.append_nil] at hsettled
              exact hsettled (Nat.le_add_right _ _)
            rw [joinText_cons, List.cons_append, read_cons]
            simp only [hclass, hn, List.take_left' hlen, List.drop_left' hlen]
            rw [ih hrest]
          · -- The first token reaches the end of the script, so that it is the only one.
            have hnil : s.drop n = [] := List.drop_of_length_le (Nat.le_of_not_le hle)
            rw [hnil, read_nil] at hrest
            obtain ⟨rfl, -⟩ := List.append_eq_nil_iff.mp hrest.symm
            rw [joinText_cons, joinText_nil, List.append_nil,
              List.take_of_length_le (Nat.le_of_not_le hle), read_cons]
            simp only [hn, hnil, read_nil, List.take_of_length_le (Nat.le_of_not_le hle)]

/-- A run of tokens is read again from its own text, up to its place in the script. -/
theorem map_shift_read_joinText {s : Text} {before ts after : List Token}
    (h : read cc 0 s = before ++ ts ++ after) :
    (read cc 0 (joinText ts)).map (shift (joinText before).byteLength) = ts := by
  rw [List.append_assoc] at h
  have hfrom := read_of_eq_append cc h
  rw [← read_add]
  exact read_joinText_of_eq_append cc hfrom.symm

/-- The tokens from `a` up to `b`, joined and read again, have the same kinds and texts, and their
spans are those in the script less the start of token `a`. -/
theorem read_joinText_slice (s : Text) (a b : Nat) :
    let ts := read cc 0 s
    let slice := (ts.take b).drop a
    (read cc 0 (joinText slice)).map (shift (ts[a]?.elim 0 fun t => t.span.start)) = slice := by
  intro ts slice
  have hts : ts = (ts.take b).take a ++ slice ++ ts.drop b := by
    rw [List.take_append_drop, List.take_append_drop]
  cases hslice : slice with
  | nil => simp
  | cons t rest =>
      have ht : ts[a]? = some t := by
        have hhead : (ts.take b)[a]? = some t := by
          rw [← List.head?_drop]
          exact congrArg List.head? hslice
        rw [List.getElem?_take] at hhead
        split at hhead
        · exact hhead
        · cases hhead
      have hstart : t.span.start = (joinText ((ts.take b).take a)).byteLength := by
        rw [hslice, List.append_assoc, List.cons_append] at hts
        rw [span_start_of_eq_append cc hts, Nat.zero_add]
      rw [ht, ← hslice]
      simp only [Option.elim_some, hstart]
      exact map_shift_read_joinText cc hts

end SqlMigration.Token
