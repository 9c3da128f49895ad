import SqlMigration.Dialect.Postgres
import SqlMigration.Proofs.Expression.CallText

/-! # Texts without tags

A string between dollar signs ends where its tag comes again. A dollar sign that a digit or a dot
follows, as in an amount of money or in a path, is part of no tag. Such texts can be cut, joined and
lower-cased: what is cut off is never that digit or dot.
-/

namespace SqlMigration

namespace Text

/-- Whether a dollar sign in front of the character is part of no tag. -/
def holdsDollar (c : Char) : Bool := c.isDigit || c = '.'

/-- Whether no dollar sign is part of a tag. -/
def tagless : Text → Bool
  | [] => true
  | c :: s => (c ≠ '$' || s.head?.any holdsDollar) && tagless s

/-! ## Cutting and joining -/

theorem tagless_of_not_mem {s : Text} (h : '$' ∉ s) : tagless s := by
  induction s with
  | nil => rfl
  | cons c s ih =>
      rw [List.mem_cons, not_or] at h
      simp [tagless, ih h.2, Ne.symm h.1]

theorem tagless_append {s t : Text} (hs : tagless s) (ht : tagless t) : tagless (s ++ t) := by
  induction s with
  | nil => exact ht
  | cons c s ih =>
      obtain ⟨hc, hs⟩ := Bool.and_eq_true_iff.mp hs
      rw [List.cons_append, tagless, ih hs, Bool.and_true]
      cases s with
      | nil => simp_all
      | cons d s => exact hc

theorem tagless_of_isSuffix {s t : Text} (h : s <:+ t) (ht : tagless t) : tagless s := by
  obtain ⟨r, rfl⟩ := h
  induction r with
  | nil => exact ht
  | cons c r ih => exact ih (Bool.and_eq_true_iff.mp ht).2

/-- An end that starts with no digit or dot can be cut off. -/
theorem tagless_of_append {s b : Text} (h : tagless (s ++ b))
    (hb : ∀ c ∈ b.head?, holdsDollar c = false) : tagless s := by
  induction s with
  | nil => rfl
  | cons c s ih =>
      obtain ⟨hc, hs⟩ := Bool.and_eq_true_iff.mp h
      rw [tagless, ih hs, Bool.and_true]
      cases s with
      | nil =>
          cases b with
          | nil => exact hc
          | cons d b => simpa [hb d rfl] using hc
      | cons d s => exact hc

/-- A class of characters that can be cut off: there is no digit in it and no dot. -/
def Cuttable (p : Char → Bool) : Prop := ∀ c, p c → holdsDollar c = false

theorem mem_of_holdsDollar {c : Char} (h : holdsDollar c) : c ∈ ".0123456789".toList := by
  rcases Bool.or_eq_true_iff.mp h with h | h
  · simp only [Char.isDigit, Bool.and_eq_true, decide_eq_true_eq, ge_iff_le,
      UInt32.le_iff_toNat_le] at h
    have hcode : ∀ n, 48 ≤ n → n ≤ 57 → Char.ofNat n ∈ ".0123456789".toList := by
      intro n hlo hhi
      have hn : n = 48 ∨ n = 49 ∨ n = 50 ∨ n = 51 ∨ n = 52 ∨ n = 53 ∨ n = 54 ∨ n = 55 ∨ n = 56 ∨
          n = 57 := by omega
      rcases hn with rfl | rfl | rfl | rfl | rfl | rfl | rfl | rfl | rfl | rfl <;> decide
    rw [← Char.ofNat_toNat c]
    exact hcode c.toNat h.1 h.2
  · rw [of_decide_eq_true h]
    decide

theorem cuttable_of_all {p : Char → Bool} (h : ".0123456789".toList.all fun c => !p c) :
    Cuttable p := by
  intro c hc
  by_contra hdollar
  have hmem := mem_of_holdsDollar (Bool.not_eq_false _ ▸ hdollar)
  simpa [hc] using List.all_eq_true.mp h c hmem

theorem cuttable_isBlank : Cuttable isBlank := cuttable_of_all (by decide)

section
variable {s : Text} (hs : tagless s)
include hs

theorem tagless_trimEndWhere {p : Char → Bool} (hp : Cuttable p) : tagless (s.trimEndWhere p) := by
  obtain ⟨b, heq, hb⟩ := exists_append_trimEndWhere p s
  rw [heq] at hs
  exact tagless_of_append hs fun c hc => hp c (hb c (List.mem_of_mem_head? hc))

theorem tagless_trimWhere {p : Char → Bool} (hp : Cuttable p) : tagless (s.trimWhere p) :=
  tagless_trimEndWhere (tagless_of_isSuffix (List.dropWhile_suffix p) hs) hp

theorem tagless_trim : tagless s.trim := tagless_trimWhere hs cuttable_isBlank

theorem tagless_trimEnd : tagless s.trimEnd := tagless_trimEndWhere hs cuttable_isBlank

theorem tagless_dropFinal? {c : Char} {r : Text} (hc : holdsDollar c = false)
    (h : s.dropFinal? c = some r) : tagless r := by
  rw [eq_concat_of_dropFinal? h] at hs
  exact tagless_of_append hs (by simpa using hc)

theorem tagless_stripParens : tagless s.stripParens := by
  have htrim := tagless_trim hs
  unfold stripParens
  split
  · rename_i inner hinner
    split
    · rw [eq_of_betweenParens? hinner] at htrim
      have htail := tagless_of_isSuffix (List.suffix_cons '(' (inner ++ [')'])) htrim
      exact tagless_trim (tagless_of_append htail (by rintro c ⟨⟩; rfl))
    · exact htrim
  · exact htrim

end

theorem tagless_flatten {parts : List Text} (h : ∀ s ∈ parts, tagless s) :
    tagless parts.flatten := by
  induction parts with
  | nil => rfl
  | cons s parts ih =>
      obtain ⟨hs, hparts⟩ := List.forall_mem_cons.mp h
      rw [List.flatten_cons]
      exact tagless_append hs (ih hparts)

theorem tagless_intercalate {sep : Text} {parts : List Text} (hsep : tagless sep)
    (h : ∀ s ∈ parts, tagless s) : tagless (sep.intercalate parts) := by
  induction parts with
  | nil => rfl
  | cons s parts ih =>
      obtain ⟨hs, hparts⟩ := List.forall_mem_cons.mp h
      cases parts with
      | nil => simpa using hs
      | cons r parts =>
          rw [List.intercalate_cons_cons]
          exact tagless_append (tagless_append hs hsep) (ih hparts)

theorem splitOn_ne_nil (c : Char) (s : Text) : s.splitOn c ≠ [] := by
  cases s with
  | nil => simp [splitOn]
  | cons d s =>
      unfold splitOn
      split
      · simp
      · split <;> simp

/-- The first part goes up to the mark. -/
theorem exists_append_of_splitOn {c : Char} {s part : Text} {parts : List Text}
    (h : s.splitOn c = part :: parts) : ∃ b, s = part ++ b ∧ ∀ d ∈ b.head?, d = c := by
  induction s generalizing part parts with
  | nil =>
      cases h
      exact ⟨[], rfl, by simp⟩
  | cons d s ih =>
      obtain ⟨first, rest, heq⟩ := List.exists_cons_of_ne_nil (splitOn_ne_nil c s)
      rw [splitOn, heq] at h
      split at h
      · rename_i hd
        cases h
        exact ⟨d :: s, rfl, by simp [hd]⟩
      · cases h
        obtain ⟨b, hs, hb⟩ := ih heq
        exact ⟨b, by rw [hs, List.cons_append], hb⟩

/-- The parts between commas, or between other marks that can be cut off. -/
theorem tagless_of_mem_splitOn {c : Char} (hc : holdsDollar c = false) {s part : Text}
    (hs : tagless s) (h : part ∈ s.splitOn c) : tagless part := by
  induction s with
  | nil =>
      rw [List.mem_singleton.mp h]
      rfl
  | cons d s ih =>
      have htail := (Bool.and_eq_true_iff.mp hs).2
      obtain ⟨first, rest, heq⟩ := List.exists_cons_of_ne_nil (splitOn_ne_nil c (d :: s))
      rw [heq] at h
      rcases List.mem_cons.mp h with rfl | hrest
      · obtain ⟨b, hb, hhead⟩ := exists_append_of_splitOn heq
        rw [hb] at hs
        exact tagless_of_append hs fun e he => hhead e he ▸ hc
      · apply ih htail
        unfold splitOn at heq
        split at heq
        · cases heq
          exact hrest
        · split at heq
          · cases heq
            cases hrest
          · rename_i hsplit
            cases heq
            rw [hsplit]
            exact List.mem_cons_of_mem _ hrest

/-! ## Lower case -/

/-- What follows a dollar sign is the same in lower case. -/
theorem toLower_of_holdsDollar {c : Char} (h : holdsDollar c) : c.toLower = c := by
  have hall : ".0123456789".toList.all fun c => c.toLower = c := by decide
  exact of_decide_eq_true (List.all_eq_true.mp hall c (mem_of_holdsDollar h))

theorem tagless_asciiLower {s : Text} (hs : tagless s) : tagless s.asciiLower := by
  induction s with
  | nil => rfl
  | cons c s ih =>
      obtain ⟨hc, hs⟩ := Bool.and_eq_true_iff.mp hs
      change tagless (c.toLower :: asciiLower s)
      rw [tagless, ih hs, Bool.and_true]
      rcases Bool.or_eq_true_iff.mp hc with hc | hc
      · simp [Expression.toLower_ne (d := '$') (by decide) (of_decide_eq_true hc)]
      · cases s with
        | nil => cases hc
        | cons d s =>
            have hd : holdsDollar d := hc
            simp [asciiLower, toLower_of_holdsDollar hd, hd]

/-- The character is no capital sigma and has no lower case. -/
def isCaseless (c : Char) : Bool := c ≠ 'Σ' && lowerChar c == [c]

theorem lowerAfter_of_isCaseless {c : Char} (h : isCaseless c) (before s : Text) :
    lowerAfter before (c :: s) = c :: lowerAfter (c :: before) s := by
  simp only [isCaseless, Bool.and_eq_true, decide_eq_true_eq, beq_iff_eq] at h
  rw [lowerAfter, if_neg h.1, h.2]
  rfl

theorem isCaseless_of_holdsDollar {c : Char} (h : holdsDollar c) : isCaseless c := by
  have hall : ".0123456789".toList.all isCaseless := by decide +kernel
  exact List.all_eq_true.mp hall c (mem_of_holdsDollar h)

theorem tagless_lowerAfter {s : Text} (before : Text) (hs : tagless s) :
    tagless (lowerAfter before s) := by
  induction s generalizing before with
  | nil => rfl
  | cons c s ih =>
      obtain ⟨hc, htail⟩ := Bool.and_eq_true_iff.mp hs
      by_cases hdollar : c = '$'
      · subst hdollar
        cases s with
        | nil => cases hc
        | cons d s =>
            have hd : holdsDollar d := hc
            have hrest := ih ('$' :: before) htail
            rw [lowerAfter_of_isCaseless (by decide +kernel), tagless, hrest,
              lowerAfter_of_isCaseless (isCaseless_of_holdsDollar hd)]
            simp [hd]
      · have havoids : ∀ d, avoids [(0x24, 0x24)] d → d ≠ '$' := by
          rintro d hd rfl
          exact absurd hd (by decide)
        have hsmall : '$' ∉ lowerChar c :=
          fun hd => of_mem_lowerChar havoids (by decide +kernel) hdollar hd rfl
        rw [lowerAfter]
        apply tagless_append _ (ih _ htail)
        apply tagless_of_not_mem
        split
        · split <;> decide
        · exact hsmall

theorem tagless_lower {s : Text} (hs : tagless s) : tagless s.lower := tagless_lowerAfter [] hs

end Text

/-! ## Names -/

namespace Name

open Text

variable {s : Text} (hs : tagless s)
include hs

theorem tagless_trimQuotes : tagless (trimQuotes s) := by
  have hquote : Cuttable isQuote := cuttable_of_all (by decide)
  apply tagless_trimWhere _ hquote
  apply tagless_of_isSuffix (dropUnicodeMark_suffix _)
  exact tagless_trimWhere (tagless_trim hs) hquote

theorem tagless_settle : tagless (settle s) := by
  fun_induction settle s with
  | case1 s next hlt ih =>
      exact ih (tagless_trimQuotes (tagless_of_isSuffix (dropSchema_suffix s) hs))
  | case2 s next hlt => exact hs

theorem tagless_normalize : tagless (normalize s) :=
  tagless_settle (tagless_lower (tagless_trim hs))

theorem tagless_render : tagless (render s) := by
  have hname := tagless_normalize hs
  unfold render
  dsimp only
  split
  · exact hname
  · exact tagless_append (s := ['"']) rfl (tagless_append hname rfl)

theorem tagless_ofVariable : tagless (ofVariable s) :=
  tagless_lower (tagless_of_isSuffix (List.dropWhile_suffix _) (tagless_trim hs))

end Name

/-! ## Dialects -/

/-- A dialect that brings in no tags. -/
structure Dialect.Tagless (d : Dialect) : Prop where
  mapType {name : Text} {args : List Text} (hname : name.tagless) (hargs : ∀ a ∈ args, a.tagless) :
    (d.mapType name args).tagless
  mapDefault {value : Text} (hvalue : value.tagless) : (d.mapDefault value).tagless

namespace Dialect

open Text

theorem mem_of_spelled? {α : Type} {table : List (String × α)} {s : Text} {a : α}
    (h : spelled? table s = some a) : ∃ name, (name, a) ∈ table := by
  obtain ⟨⟨name, _⟩, hfind, rfl⟩ := Option.map_eq_some_iff.mp h
  exact ⟨name, List.mem_of_find?_eq_some hfind⟩

/-- Whether the text of a shape that takes no arguments is tagless. -/
def TypeShape.isTagless : TypeShape → Bool
  | .fixed text => tagless text.toList
  | _ => true

theorem tagless_lengthArgument {args : List Text} (hargs : ∀ a ∈ args, tagless a) :
    tagless (lengthArgument args) := by
  cases args with
  | nil => rfl
  | cons a args =>
      have ha := tagless_trim (hargs a List.mem_cons_self)
      exact tagless_append (s := ['(']) rfl (tagless_append ha rfl)

theorem tagless_render {shape : TypeShape} {args : List Text} (hshape : shape.isTagless)
    (hargs : ∀ a ∈ args, tagless a) : tagless (shape.render args) := by
  cases shape with
  | fixed text => exact hshape
  | decimal =>
      match args with
      | [] => decide
      | [a] =>
          have ha := tagless_trim (hargs a (by simp))
          exact tagless_append (tagless_append (by decide) ha) rfl
      | a :: b :: args =>
          have ha := tagless_trim (hargs a (by simp))
          have hb := tagless_trim (hargs b (by simp))
          have hfront : tagless ("numeric(".toList ++ a.trim ++ ", ".toList) :=
            tagless_append (tagless_append (by decide) ha) (by decide)
          exact tagless_append (tagless_append hfront hb) rfl
  | character => exact tagless_append (by decide) (tagless_lengthArgument hargs)
  | varying =>
      change tagless (if args.head?.any isUnlimited then "text".toList
        else "varchar".toList ++ lengthArgument args)
      split
      · decide
      · exact tagless_append (by decide) (tagless_lengthArgument hargs)

theorem tagless_postgres : postgres.Tagless where
  mapType {name args} hname hargs := by
    have htable : typeShapes.all fun entry => entry.2.isTagless := by decide
    change tagless (postgresType name args)
    unfold postgresType
    dsimp only
    generalize (name.trim.trimWhere ['[', ']', '"'].contains).asciiLower = spelling
    cases hshape : spelled? typeShapes spelling with
    | none => exact tagless_render (by decide) hargs
    | some shape =>
        obtain ⟨name, hmem⟩ := mem_of_spelled? hshape
        exact tagless_render (List.all_eq_true.mp htable _ hmem) hargs
  mapDefault {value} hvalue := by
    have htable : defaultSpellings.all fun entry => tagless entry.2.toList := by decide
    change tagless (postgresDefault value)
    unfold postgresDefault
    cases hspelled : spelled? defaultSpellings value.trim.asciiLower with
    | none => exact tagless_trim hvalue
    | some text =>
        obtain ⟨name, hmem⟩ := mem_of_spelled? hspelled
        exact List.all_eq_true.mp htable _ hmem

end Dialect

end SqlMigration
