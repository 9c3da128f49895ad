import SqlMigration.Proofs.Text.Solid
import SqlMigration.Proofs.Token.Scanner

/-! # How tokens are spelled

Blank tokens hold blank characters only, and the tokens of a statement end in a character that is
neither blank nor a semicolon.
-/

namespace SqlMigration.Token

open Text

/-- How the tokens of a kind are spelled, as far as it tells their ends. -/
inductive Spelled : Kind → Text → Prop where
  | blank {s : Text} (h : ∀ c ∈ s, isBlank c) : Spelled .blank s
  | loose {k : Kind} {s : Text} (hk : k.isComment || k = .error || k = .semicolon) : Spelled k s
  | delimited {k : Kind} {s : Text} (hvariable : k ≠ .variable) (hblank : k ≠ .blank)
      (h : endsSolid s) : Spelled k s
  | solid {k : Kind} {s : Text} (hblank : k ≠ .blank) (hne : s ≠ [])
      (h : ∀ c ∈ s, isSolid c) : Spelled k s

theorem of_mem_take_runLength {p : Char → Bool} {s : Text} {c : Char}
    (h : c ∈ s.take (runLength p s)) : p c := by
  rw [runLength, ← List.prefix_iff_eq_take.mp (List.takeWhile_prefix p)] at h
  exact List.all_eq_true.mp List.all_takeWhile c h

theorem isSolid_of_isNameChar {c : Char} (h : isNameChar .unicode c) : isSolid c := by
  rcases Bool.or_eq_true_iff.mp h with h | h
  · exact isSolid_of_isAlphanumeric h
  · have hmark : ['_', '@', '#', '$'].all isSolid := by decide
    exact List.all_eq_true.mp hmark c (List.contains_iff_mem.mp h)

theorem isSolid_of_isHexDigit {c : Char} (h : isHexDigit c) : isSolid c := by
  simp only [isHexDigit, Bool.or_eq_true, Bool.and_eq_true, decide_eq_true_eq, Char.le_def,
    UInt32.le_iff_toNat_le] at h
  rcases h with (h | h) | h
  · exact isSolid_of_isDigit h
  · exact isSolid_of_isSolidRange (by decide : isSolidRange 97 102) h.1 h.2
  · exact isSolid_of_isSolidRange (by decide : isSolidRange 65 70) h.1 h.2

theorem isSolid_of_mem_exponent {s : Text} {c : Char} (h : c ∈ s.take (exponentLength s)) :
    isSolid c := by
  fun_cases exponentLength s with
  | case1 e d s hopen =>
      simp only [exponentLength, hopen, if_true] at h
      rw [Nat.add_comm, List.take_succ_cons, List.take_succ_cons] at h
      simp only [Bool.and_eq_true, Bool.or_eq_true, decide_eq_true_eq] at hopen
      rcases List.mem_cons.mp h with rfl | h
      · rcases hopen.1 with rfl | rfl <;> decide
      rcases List.mem_cons.mp h with rfl | h
      · rcases hopen.2 with (hdigit | rfl) | rfl
        · exact isSolid_of_isDigit hdigit
        · decide
        · decide
      · exact isSolid_of_isDigit (of_mem_take_runLength h)
  | case2 e d s hopen => simp [exponentLength, hopen] at h
  | case3 => simp_all [exponentLength]

theorem eq_point_or_isDigit_of_mem_fraction {c d : Char} {s : Text}
    (h : d ∈ s.take (fractionLength c s)) : d = '.' ∨ d.isDigit := by
  rw [fractionLength] at h
  split at h
  · rename_i hpoint
    cases s with
    | nil => simp at h
    | cons e s =>
        rw [List.tail_cons, Nat.add_comm, List.take_succ_cons] at h
        rcases List.mem_cons.mp h with rfl | h
        · simp at hpoint
          exact .inl hpoint.2
        · exact .inr (of_mem_take_runLength h)
  · simp at h

theorem isSolid_of_mem_fraction {c d : Char} {s : Text} (h : d ∈ s.take (fractionLength c s)) :
    isSolid d := by
  rcases eq_point_or_isDigit_of_mem_fraction h with rfl | hdigit
  · decide
  · exact isSolid_of_isDigit hdigit

theorem isSolid_of_mem_number {c d : Char} {s : Text} (h : d ∈ s.take (number c s).2) :
    isSolid d := by
  simp only [number] at h
  split at h
  · rename_i hhex
    cases s with
    | nil => simp at h
    | cons e s =>
        rw [List.tail_cons, Nat.add_comm, List.take_succ_cons] at h
        rcases List.mem_cons.mp h with rfl | h
        · simp at hhex
          rcases hhex.2 with rfl | rfl <;> decide
        · exact isSolid_of_isHexDigit (of_mem_take_runLength h)
  · rw [Nat.add_assoc, List.take_add, List.take_add, List.mem_append, List.mem_append] at h
    rcases h with h | h | h
    · exact isSolid_of_isDigit (of_mem_take_runLength h)
    · exact isSolid_of_mem_fraction h
    · exact isSolid_of_mem_exponent h

theorem getLast?_take_delimitedLength? {close : Char} {s : Text} {n : Nat}
    (h : delimitedLength? close s = some n) : (s.take n).getLast? = some close := by
  fun_induction delimitedLength? close s generalizing n with
  | case1 => cases h
  | case2 => cases h; rfl
  | case3 s ih =>
      obtain ⟨k, hk, rfl⟩ := Option.map_eq_some_iff.mp h
      rw [List.take_succ_cons, List.take_succ_cons, List.getLast?_cons, List.getLast?_cons, ih hk]
      rfl
  | case4 d s hd => cases h; rfl
  | case5 c s hc ih =>
      obtain ⟨k, hk, rfl⟩ := Option.map_eq_some_iff.mp h
      rw [List.take_succ_cons, List.getLast?_cons, ih hk]
      rfl

theorem spelled_delimited {close : Char} {k : Kind} (hclose : isSolid close)
    (hvariable : k ≠ .variable) (hblank : k ≠ .blank) (before s : Text) :
    Spelled (delimited close k s).1 (before ++ s.take (delimited close k s).2) := by
  unfold delimited
  split
  · rename_i n hn
    refine .delimited hvariable hblank (endsSolid_append _ ?_)
    rw [endsSolid, getLast?_take_delimitedLength? hn]
    exact hclose
  · exact .loose rfl

/-- The scanner `f` tells how a token is spelled that starts with `c`. -/
def Spells (c : Char) (f : Text → Kind × Nat) : Prop :=
  ∀ s, Spelled (f s).1 (c :: s.take (f s).2)

namespace Spells

variable {c : Char} {k : Kind} {f g : Text → Kind × Nat}

theorem loose (h : ∀ s, (f s).1.isComment || (f s).1 = .error || (f s).1 = .semicolon) :
    Spells c f := fun s => .loose (h s)

theorem solid (hc : isSolid c) (hk : ∀ s, (f s).1 ≠ .blank)
    (hf : ∀ s : Text, ∀ d ∈ s.take (f s).2, isSolid d) : Spells c f := by
  intro s
  refine .solid (hk s) (List.cons_ne_nil _ _) ?_
  intro d hd
  rcases List.mem_cons.mp hd with rfl | hd
  · exact hc
  · exact hf s d hd

theorem mark (hc : isSolid c) (hk : k ≠ .blank) : Spells c fun _ => (k, 0) :=
  solid hc (fun _ => hk) (by simp)

theorem run (hc : isSolid c) (hk : k ≠ .blank) {p : Char → Bool} (hp : ∀ d, p d → isSolid d) :
    Spells c fun s => (k, runLength p s) :=
  solid hc (fun _ => hk) fun _ d hd => hp d (of_mem_take_runLength hd)

theorem ite {P : Text → Prop} [DecidablePred P] (hf : Spells c f) (hg : Spells c g) :
    Spells c fun s => if P s then f s else g s := by
  intro s
  by_cases h : P s
  · simpa only [h, if_true] using hf s
  · simpa only [h, if_false] using hg s

theorem pairOrSingle {pairs : List (Char × Kind)} {single : Kind}
    (h : (c, pairs, single) ∈ operators) : Spells c (pairOrSingle pairs single) := by
  have hall : operators.all fun o =>
      (isSolid o.1 || o.2.2 = .semicolon) && o.2.2 ≠ .blank &&
        o.2.1.all fun p => isSolid o.1 && isSolid p.1 && p.2 ≠ .blank := by decide
  have hop := List.all_eq_true.mp hall _ h
  simp only [Bool.and_eq_true, Bool.or_eq_true, decide_eq_true_eq, List.all_eq_true] at hop
  obtain ⟨⟨hsingle, hblank⟩, hpairs⟩ := hop
  intro s
  rcases pairOrSingle_cases pairs single s with ⟨-, heq⟩ | ⟨d, r, k, rfl, hpair, heq⟩
  · rw [heq]
    rcases hsingle with hc | rfl
    · exact .solid hblank (List.cons_ne_nil _ _) (by simpa using hc)
    · exact .loose rfl
  · obtain ⟨⟨hc, hd⟩, hk⟩ := hpairs _ hpair
    rw [heq]
    exact .solid hk (List.cons_ne_nil _ _) (by simpa using ⟨hc, hd⟩)

theorem delimited {close : Char} (hclose : isSolid close) (hvariable : k ≠ .variable)
    (hblank : k ≠ .blank) : Spells c (delimited close k) :=
  fun s => spelled_delimited hclose hvariable hblank [c] s

theorem number (hc : isSolid c) : Spells c (number c) := by
  refine solid hc ?_ fun _ _ => isSolid_of_mem_number
  intro s
  simp only [Token.number]
  split
  · simp
  · split <;> simp

theorem word (hc : isSolid c) : Spells c (word .unicode c) := by
  refine solid hc ?_ fun _ _ hd => isSolid_of_isNameChar (of_mem_take_runLength hd)
  intro s
  simp only [Token.word, wordKind]
  split <;> simp

end Spells

/-- Blank tokens hold blank characters only. -/
theorem BlankScanner.isBlank_of_mem {c : Char} {f : Text → Nat} (h : BlankScanner .unicode c f)
    (s : Text) : ∀ d ∈ c :: s.take (f s), isBlank d := by
  cases h with
  | lineFeed => exact List.forall_mem_singleton.mpr (by decide)
  | carriageReturn =>
      refine List.forall_mem_cons.mpr ⟨by decide, ?_⟩
      dsimp only
      split
      · rename_i hs
        obtain ⟨s, rfl⟩ := List.head?_eq_some_iff.mp hs
        exact List.forall_mem_singleton.mpr (by decide)
      · simp
  | inline hblank =>
      refine List.forall_mem_cons.mpr ⟨hblank, ?_⟩
      intro d hd
      have hd := of_mem_take_runLength hd
      simp only [isInlineBlank, Bool.and_eq_true] at hd
      exact hd.1.1

theorem PlainScanner.spells {c : Char} {f : Text → Kind × Nat} (h : PlainScanner .unicode c f) :
    Spells c f := by
  cases h with
  | number hdigit => exact .number (isSolid_of_isDigit hdigit)
  | word _ hletter =>
      apply Spells.word
      simp only [Bool.or_eq_true, decide_eq_true_eq] at hletter
      rcases hletter with (hletter | rfl) | rfl
      · exact isSolid_of_isAlphanumeric (Bool.or_eq_true_iff.mpr (.inl hletter))
      · decide
      · decide
  | stray _ _ => exact .loose fun _ => rfl

theorem spells_classify (c : Char) : Spells c (classify .unicode c) := by
  have hscanner := scanner_classify .unicode c
  generalize classify .unicode c = f at hscanner ⊢
  cases hscanner with
  | blank h => exact fun s => .blank (h.isBlank_of_mem s)
  | dash => exact .ite (.loose fun _ => rfl) (.mark (by decide) (by decide))
  | slash =>
      refine .ite (.loose ?_) (.mark (by decide) (by decide))
      intro s
      split <;> rfl
  | operator h => exact .pairOrSingle h
  | quoted h =>
      simp only [quotes, List.mem_cons, List.not_mem_nil, or_false, Prod.mk.injEq] at h
      rcases h with ⟨rfl, rfl, rfl⟩ | ⟨rfl, rfl, rfl⟩ | ⟨rfl, rfl, rfl⟩
      all_goals exact .delimited (by decide) (by decide) (by decide)
  | atSign => exact .run (by decide) (by decide) fun _ => isSolid_of_isNameChar
  | amount =>
      refine .ite (.run (by decide) (by decide) ?_) (.loose fun _ => rfl)
      intro d hd
      rcases Bool.or_eq_true_iff.mp hd with hd | hd
      · exact isSolid_of_isDigit hd
      · rw [of_decide_eq_true hd]
        decide
  | point => exact .ite (.number (by decide)) (.mark (by decide) (by decide))
  | marked _ h =>
      refine .ite ?_ h.spells
      intro s
      cases s with
      | nil => exact .loose rfl
      | cons d s =>
          simp only [List.tail_cons, Nat.add_comm 1, List.take_succ_cons]
          exact spelled_delimited (by decide) (by decide) (by decide) [c, d] s
  | plain _ _ h => exact h.spells

namespace Spelled

variable {t : Token}

theorem isBlank_of_mem (h : Spelled t.kind t.text) (hkind : t.kind = .blank) :
    ∀ c ∈ t.text, isBlank c := by
  rw [hkind] at h
  cases h with
  | blank h => exact h
  | loose hk => simp [Kind.isComment] at hk
  | delimited _ hblank _ => exact absurd rfl hblank
  | solid hblank _ _ => exact absurd rfl hblank

theorem isSolid_of_mem (h : Spelled t.kind t.text) (hkind : t.kind = .variable) :
    ∀ c ∈ t.text, isSolid c := by
  rw [hkind] at h
  cases h with
  | loose hk => simp [Kind.isComment] at hk
  | delimited hvariable _ _ => exact absurd rfl hvariable
  | solid _ _ h => exact h

theorem endsSolid_text (h : Spelled t.kind t.text) (htrivia : t.isTrivia = false)
    (herror : t.kind ≠ .error) (hsemicolon : t.kind ≠ .semicolon) : endsSolid t.text := by
  rw [Token.isTrivia, Kind.isTrivia, Bool.or_eq_false_iff] at htrivia
  generalize t.kind = k at *
  cases h with
  | blank h => simp at htrivia
  | loose hk => simp [htrivia.2, herror, hsemicolon] at hk
  | delimited _ _ h => exact h
  | solid _ hne h => exact endsSolid_of_forall hne h

end Spelled

theorem spelled_of_mem_read {start : Nat} {s : Text} {t : Token} (h : t ∈ read .unicode start s) :
    Spelled t.kind t.text := by
  fun_induction read .unicode start s with
  | case1 start => simp at h
  | case2 start c s kind n hclass text stop ih =>
      rcases List.mem_cons.mp h with rfl | h
      · have hspelled := spells_classify c s
        rwa [hclass] at hspelled
      · exact ih h

end SqlMigration.Token
