import SqlMigration.Proofs.Name.Normal

/-! # Normalising in rounds

A name is normalised in rounds: each takes off what it finds at the ends, and one that finds nothing
is the last. Main statement: the rounds come to an end at a part of the lower-case name that has
neither blanks, delimiters, a Unicode mark nor the `dbo` schema at its ends, and normalising leaves
that part as it is.
-/

namespace SqlMigration

namespace Text

variable {p : Char → Bool} {s : Text}

theorem isInfix_trimWhere (p : Char → Bool) (s : Text) : trimWhere p s <:+: s :=
  (isPrefix_trimEndWhere p _).isInfix.trans (List.dropWhile_suffix p).isInfix

theorem last_trimWhere {c : Char} (h : c ∈ (trimWhere p s).getLast?) : p c = false := by
  rw [trimWhere, trimEndWhere, List.getLast?_reverse] at h
  have hnot := List.head?_dropWhile_not p (s.dropWhile p).reverse
  rw [Option.mem_def.mp h] at hnot
  simpa using hnot

/-- A text that is not trimmed has nothing of the class at its ends. -/
theorem ends_of_trimWhere_eq (h : trimWhere p s = s) {c : Char}
    (hc : c ∈ s.head? ∨ c ∈ s.getLast?) : p c = false := by
  rw [← h] at hc
  rcases hc with hc | hc
  · exact head_trimWhere hc
  · exact last_trimWhere hc

end Text

namespace Name

open Text

/-- One round: the qualifiers are taken off, and then blanks, delimiters and a Unicode mark. -/
def strip (s : Text) : Text := trimQuotes (dropSchema s)

/-- The rounds from a text to what is left of it. A round that changes nothing is not counted, and
no other follows it. -/
inductive Rounds : Text → Nat → Text → Prop where
  | done {s : Text} (h : strip s = s) : Rounds s 0 s
  | again {s r : Text} {n : Nat} (h : strip s ≠ s) (hrest : Rounds (strip s) n r) :
      Rounds s (n + 1) r

/-- A name with nothing at its ends that normalising takes off. -/
structure Bare (r : Text) : Prop where
  blank : ∀ c, c ∈ r.head? ∨ c ∈ r.getLast? → isBlank c = false
  quote : ∀ c, c ∈ r.head? ∨ c ∈ r.getLast? → c ∉ ['[', ']', '\'', '"']
  schema : ¬ "dbo.".toList <+: r
  mark : ¬ "n'".toList <+: r

theorem isInfix_strip (s : Text) : strip s <:+: s := by
  have hschema := (dropSchema_suffix s).isInfix
  have hblanks : (dropSchema s).trim <:+: dropSchema s := isInfix_trimWhere _ _
  have hquotes := isInfix_trimWhere isQuote (dropSchema s).trim
  have hmark := (dropUnicodeMark_suffix ((dropSchema s).trim.trimWhere isQuote)).isInfix
  exact (isInfix_trimWhere isQuote _).trans
    (hmark.trans (hquotes.trans (hblanks.trans hschema)))

theorem isInfix_settle (s : Text) : settle s <:+: s := by
  fun_induction settle s with
  | case1 s next hlt ih => exact ih.trans (isInfix_strip s)
  | case2 s next hle => exact List.infix_rfl

/-- Each round but the last shortens the text, so that there are no more of them than characters. -/
theorem exists_rounds (s : Text) : ∃ n ≤ s.length, Rounds s n (settle s) := by
  fun_induction settle s with
  | case1 s next hlt ih =>
      obtain ⟨n, hn, hrounds⟩ := ih
      refine ⟨n + 1, by omega, .again ?_ hrounds⟩
      intro hsame
      exact absurd (congrArg List.length hsame) (Nat.ne_of_lt hlt)
  | case2 s next hle =>
      have hnormal := normal_of_length_le (Nat.le_of_not_lt hle)
      exact ⟨0, Nat.zero_le _, .done hnormal.trimQuotes_dropSchema⟩

theorem Normal.bare {r : Text} (h : Normal r) : Bare r where
  blank _ hc := ends_of_trimWhere_eq h.blanks hc
  quote c hc := by
    have hquote := ends_of_trimWhere_eq h.quotes hc
    simpa [isQuote] using hquote
  schema := by
    rintro ⟨s, rfl⟩
    -- The rest is shorter than the name that it should be.
    have hle := (dropSchema_suffix s).length_le
    have hlength := congrArg List.length h.schema
    change (dropSchema s).length = s.length + 4 at hlength
    omega
  mark := by
    rintro ⟨s, rfl⟩
    have hlength := congrArg List.length h.mark
    change s.length = s.length + 2 at hlength
    omega

/-- Normalising ends, at a part of the lower-case name with nothing left to take off, and changes
such a part no more. -/
theorem normalize_ends_bare (s : Text) :
    (∃ n ≤ s.trim.lower.length, Rounds s.trim.lower n (normalize s)) ∧
      Bare (normalize s) ∧ normalize s <:+: s.trim.lower ∧
      normalize (normalize s) = normalize s ∧ render (normalize s) = render s := by
  refine ⟨exists_rounds _, (normal_normalize s).bare, isInfix_settle _, normalize_normalize s, ?_⟩
  rw [render, normalize_normalize, render]

example : normalize " [DBO].[dbo.N'dbo.\"X\"'] ".toList = "x".toList := by
  decide +kernel

end Name

end SqlMigration
