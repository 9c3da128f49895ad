import SqlMigration.Proofs.Text.Trimming
import SqlMigration.Text.Parens

/-! # Parentheses that balance

Whether the parentheses of a text balance can be counted over its beginnings: none of them closes
more than it opens, and the whole text closes all that it opens. What stands in quotes does not
count. The scan that keeps the number of open parentheses finds out just that.
-/

namespace SqlMigration.Text

/-- The characters outside quotes, where `quoted` says whether a quote is open at the start. -/
def outsideQuotes (quoted : Bool) : Text → Text
  | [] => []
  | c :: s =>
      if c = '\'' then outsideQuotes (!quoted) s
      else if quoted then outsideQuotes quoted s
      else c :: outsideQuotes quoted s

/-- The text closes only parentheses that are open, `depth` of them from the start, and leaves none
open. -/
structure ClosesAll (depth : Nat) (s : Text) : Prop where
  le : ∀ p, p <+: s → p.count ')' ≤ depth + p.count '('
  eq : s.count ')' = depth + s.count '('

/-- The parentheses of the text outside quotes balance. -/
def Balanced (s : Text) : Prop := ClosesAll 0 (outsideQuotes false s)

section
variable {depth : Nat} {s : Text}

theorem closesAll_nil : ClosesAll depth [] ↔ depth = 0 := by
  constructor
  · intro h
    simpa using h.eq.symm
  · rintro rfl
    refine ⟨fun p hp => ?_, rfl⟩
    rw [List.prefix_nil.mp hp]
    simp

/-- The beginnings of a text are the empty one and those that its first character starts. -/
theorem forall_beginning_cons {c : Char} {q : Text → Prop} :
    (∀ p, p <+: c :: s → q p) ↔ q [] ∧ ∀ p, p <+: s → q (c :: p) := by
  constructor
  · intro h
    exact ⟨h [] (List.nil_prefix), fun p hp => h _ ((List.prefix_cons_inj c).mpr hp)⟩
  · rintro ⟨hnil, hcons⟩ p hp
    rcases List.prefix_cons_iff.mp hp with rfl | ⟨r, rfl, hr⟩
    · exact hnil
    · exact hcons r hr

theorem closesAll_open : ClosesAll depth ('(' :: s) ↔ ClosesAll (depth + 1) s := by
  have hcount (p : Text) : depth + ('(' :: p).count '(' = depth + 1 + p.count '(' := by
    simp [Nat.add_right_comm, Nat.add_assoc]
  have hclose (p : Text) : ('(' :: p).count ')' = p.count ')' := by simp
  constructor
  · rintro ⟨hle, heq⟩
    refine ⟨fun p hp => ?_, by rw [← hclose, ← hcount, heq]⟩
    rw [← hclose, ← hcount]
    exact (forall_beginning_cons.mp hle).2 p hp
  · rintro ⟨hle, heq⟩
    refine ⟨forall_beginning_cons.mpr ⟨by simp, fun p hp => ?_⟩, by rw [hclose, hcount, heq]⟩
    rw [hclose, hcount]
    exact hle p hp

theorem closesAll_close : ClosesAll depth (')' :: s) ↔ depth ≠ 0 ∧ ClosesAll (depth - 1) s := by
  have hcount (p : Text) : (')' :: p).count '(' = p.count '(' := by simp
  have hclose (p : Text) : (')' :: p).count ')' = p.count ')' + 1 := by simp
  constructor
  · rintro ⟨hle, heq⟩
    have hle := (forall_beginning_cons.mp hle).2
    have hopen : 1 ≤ depth := by simpa using hle [] List.nil_prefix
    simp only [hcount, hclose] at hle heq
    refine ⟨by omega, fun p hp => ?_, by omega⟩
    have hp := hle p hp
    omega
  · rintro ⟨hne, hle, heq⟩
    refine ⟨forall_beginning_cons.mpr ⟨by simp, fun p hp => ?_⟩, ?_⟩
    · have hp := hle p hp
      rw [hcount, hclose]
      omega
    · rw [hcount, hclose]
      omega

theorem closesAll_cons {c : Char} (hopen : c ≠ '(') (hclose : c ≠ ')') :
    ClosesAll depth (c :: s) ↔ ClosesAll depth s := by
  have hcount (p : Text) : (c :: p).count '(' = p.count '(' := List.count_cons_of_ne hopen
  have hclosed (p : Text) : (c :: p).count ')' = p.count ')' := List.count_cons_of_ne hclose
  constructor
  · rintro ⟨hle, heq⟩
    refine ⟨fun p hp => ?_, by rwa [hcount, hclosed] at heq⟩
    rw [← hcount p, ← hclosed p]
    exact (forall_beginning_cons.mp hle).2 p hp
  · rintro ⟨hle, heq⟩
    refine ⟨forall_beginning_cons.mpr ⟨by simp, fun p hp => ?_⟩, by rwa [hcount, hclosed]⟩
    rw [hcount, hclosed]
    exact hle p hp

end

/-- The scan accepts a text if all of it is closed. -/
theorem balancedFrom_iff (depth : Nat) (quoted : Bool) (s : Text) :
    balancedFrom depth quoted s ↔ ClosesAll depth (outsideQuotes quoted s) := by
  induction s generalizing depth quoted with
  | nil => simp [balancedFrom, outsideQuotes, closesAll_nil]
  | cons c s ih =>
      rw [balancedFrom, outsideQuotes]
      by_cases hquote : c = '\''
      · rw [if_pos hquote, if_pos hquote, ih]
      rw [if_neg hquote, if_neg hquote]
      cases quoted with
      | true => simp [ih]
      | false =>
          by_cases hopen : c = '('
          · subst hopen
            simp [ih, closesAll_open]
          by_cases hclose : c = ')'
          · subst hclose
            simp [ih, closesAll_close]
          · simp [hopen, hclose, ih, closesAll_cons hopen hclose]

theorem balanced_iff (s : Text) : Balanced s ↔ balancedFrom 0 false s :=
  (balancedFrom_iff 0 false s).symm

instance (s : Text) : Decidable (Balanced s) := decidable_of_iff _ (balanced_iff s).symm

/-- A blank character at the end changes nothing. -/
theorem balancedFrom_append_space (depth : Nat) (quoted : Bool) (s : Text) :
    balancedFrom depth quoted (s ++ [' ']) = balancedFrom depth quoted s := by
  induction s generalizing depth quoted with
  | nil => simp [balancedFrom]
  | cons c s ih => simp only [List.cons_append, balancedFrom, ih]

/-- A text in parentheses loses them if it balances between them. -/
theorem stripParens_between (s : Text) :
    stripParens ('(' :: (s ++ [')'])) =
      if balancedFrom 0 false s then trim s else '(' :: (s ++ [')']) := by
  have htrim : trim ('(' :: (s ++ [')'])) = '(' :: (s ++ [')']) :=
    trimWhere_between (by decide) (by decide) s
  have hbetween : betweenParens? ('(' :: (s ++ [')'])) = some s := by
    simp [betweenParens?, dropFinal?]
  simp only [stripParens, htrim, hbetween]

end SqlMigration.Text
