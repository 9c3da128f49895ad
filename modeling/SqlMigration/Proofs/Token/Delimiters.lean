import SqlMigration.Proofs.Token.Cutting

/-! # Delimiters that are left open

A delimiter that is written twice stands for itself, so that a quoted part stays open exactly as
long as its closing delimiter comes in pairs. Block comments nest, and one stays open as long as no
more comments have been closed in it than opened.
-/

namespace SqlMigration

/-- A text with each occurrence of a delimiter written twice. -/
def Text.doubled (mark : Char) (s : Text) : Text :=
  s.flatMap fun c => if c = mark then [mark, mark] else [c]

namespace Text

theorem doubled_cons_self (mark : Char) (s : Text) :
    doubled mark (mark :: s) = mark :: mark :: doubled mark s := by
  simp [doubled]

theorem doubled_cons_of_ne {mark c : Char} (hc : c ≠ mark) (s : Text) :
    doubled mark (c :: s) = c :: doubled mark s := by
  simp [doubled, hc]

end Text

/-- The mark of a Unicode string, which may be missing. -/
inductive StringMark where
  | none | upper | lower
  deriving DecidableEq, Repr

namespace StringMark

def text : StringMark → Text
  | none => []
  | upper => ['N']
  | lower => ['n']

/-- The kind of the literals with this mark. -/
def kind : StringMark → Kind
  | none => .string
  | _ => .unicodeString

end StringMark

namespace Token

open Text

/-! ## Quoted parts -/

/-- The scan for a closing delimiter passes over doubled ones. -/
theorem delimitedLength?_doubled_append (close : Char) (s r : Text) :
    delimitedLength? close (doubled close s ++ r) =
      (delimitedLength? close r).map (· + (doubled close s).length) := by
  induction s with
  | nil => simp [doubled]
  | cons c s ih =>
      by_cases hc : c = close
      · subst hc
        rw [doubled_cons_self, List.cons_append, List.cons_append, delimitedLength?_close]
        simp only [List.head?_cons, if_true, List.tail_cons, ih, Option.map_map, List.length_cons]
        rfl
      · rw [doubled_cons_of_ne hc, List.cons_append, delimitedLength?_cons_of_ne hc, ih,
          Option.map_map]
        rfl

/-- A quoted part that is never closed holds its delimiter in pairs only. -/
theorem delimitedLength?_eq_none_iff {close : Char} {s : Text} :
    delimitedLength? close s = none ↔ ∃ r, s = doubled close r := by
  constructor
  · intro h
    fun_induction delimitedLength? close s with
    | case1 => exact ⟨[], rfl⟩
    | case2 => cases h
    | case3 s ih =>
        obtain ⟨r, rfl⟩ := ih (Option.map_eq_none_iff.mp h)
        exact ⟨close :: r, (doubled_cons_self close r).symm⟩
    | case4 => cases h
    | case5 c s hc ih =>
        obtain ⟨r, rfl⟩ := ih (Option.map_eq_none_iff.mp h)
        exact ⟨c :: r, (doubled_cons_of_ne hc r).symm⟩
  · rintro ⟨r, rfl⟩
    have hscan := delimitedLength?_doubled_append close r []
    rwa [List.append_nil] at hscan

/-! ## Comments -/

/-- The marks of comments in a text, from left to right and without overlap: `true` for one that
opens a comment and `false` for one that closes it. -/
def commentMarks : Text → List Bool
  | '/' :: '*' :: s => true :: commentMarks s
  | '*' :: '/' :: s => false :: commentMarks s
  | _ :: s => commentMarks s
  | [] => []

/-- Whether at each of the marks at least as many comments have been opened as closed, when `depth`
more were open at the start. -/
def StaysOpen (depth : Nat) (marks : List Bool) : Prop :=
  ∀ before, before <+: marks → before.count false ≤ depth + before.count true

theorem staysOpen_nil (depth : Nat) : StaysOpen depth [] := by
  intro before hbefore
  rw [List.prefix_nil.mp hbefore]
  exact Nat.zero_le _

theorem staysOpen_cons {depth : Nat} {mark : Bool} {marks : List Bool} :
    StaysOpen depth (mark :: marks) ↔
      ∀ before, before <+: marks →
        (mark :: before).count false ≤ depth + (mark :: before).count true := by
  constructor
  · intro h before hbefore
    exact h _ ((List.prefix_cons_inj mark).mpr hbefore)
  · intro h before hbefore
    rcases List.prefix_cons_iff.mp hbefore with rfl | ⟨rest, rfl, hrest⟩
    · exact Nat.zero_le _
    · exact h rest hrest

theorem staysOpen_open {depth : Nat} {marks : List Bool} :
    StaysOpen depth (true :: marks) ↔ StaysOpen (depth + 1) marks := by
  rw [staysOpen_cons]
  refine forall₂_congr fun before _ => ?_
  simp only [List.count_cons_self, List.count_cons_of_ne (by decide : true ≠ false)]
  omega

theorem staysOpen_close {depth : Nat} {marks : List Bool} :
    StaysOpen (depth + 1) (false :: marks) ↔ StaysOpen depth marks := by
  rw [staysOpen_cons]
  refine forall₂_congr fun before _ => ?_
  simp only [List.count_cons_self, List.count_cons_of_ne (by decide : false ≠ true)]
  omega

theorem not_staysOpen_close {marks : List Bool} : ¬ StaysOpen 0 (false :: marks) := by
  intro h
  have hone := h [false] ⟨marks, rfl⟩
  simp at hone

theorem commentMarks_of_not_mark {c d : Char} (s : Text) (hopen : ¬ (c = '/' && d = '*') = true)
    (hclose : ¬ (c = '*' && d = '/') = true) :
    commentMarks (c :: d :: s) = commentMarks (d :: s) := by
  rw [commentMarks.eq_def]
  split
  · rename_i heq
    cases heq
    exact absurd rfl hopen
  · rename_i heq
    cases heq
    exact absurd rfl hclose
  · rename_i heq
    cases heq
    rfl
  · rename_i heq
    cases heq

/-- A comment is never closed exactly if its marks leave it open. -/
theorem commentLength?_eq_none_iff {depth : Nat} {s : Text} :
    commentLength? depth s = none ↔ StaysOpen depth (commentMarks s) := by
  fun_induction commentLength? depth s with
  | case1 depth => simpa [commentMarks] using staysOpen_nil depth
  | case2 depth c => simpa [commentMarks] using staysOpen_nil depth
  | case3 depth c d s hopen ih =>
      obtain ⟨rfl, rfl⟩ : c = '/' ∧ d = '*' := by simpa using hopen
      rw [Option.map_eq_none_iff, ih, commentMarks, staysOpen_open]
  | case4 c d s hopen hclose =>
      obtain ⟨rfl, rfl⟩ : c = '*' ∧ d = '/' := by simpa using hclose
      rw [commentMarks]
      simpa using not_staysOpen_close
  | case5 c d s hopen hclose depth ih =>
      obtain ⟨rfl, rfl⟩ : c = '*' ∧ d = '/' := by simpa using hclose
      rw [Option.map_eq_none_iff, ih, commentMarks, staysOpen_close]
  | case6 depth c d s hopen hclose ih =>
      rw [Option.map_eq_none_iff, ih, commentMarks_of_not_mark s hopen hclose]

end Token

end SqlMigration
