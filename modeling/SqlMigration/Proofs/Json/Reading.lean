import SqlMigration.Json.Parser
import SqlMigration.Json.Printer
import Mathlib.Data.List.DropRight
import Mathlib.Tactic.SplitIfs

/-! # Printed JSON is read back

A value is readable if its printed form is read as that value, wherever it is indented and whatever
stands behind it. Strings, truth values and null are readable. So are the arrays and objects made of
readable values, one level deeper. A number is not: digits may stand behind it.
-/

namespace SqlMigration.Json

/-! ## Strings -/

theorem hex4?_hexDigit {n : Nat} (hn : n < 0x20) (s : Text) :
    hex4? ('0' :: '0' :: hexDigit (n / 16) :: hexDigit (n % 16) :: s) = some (n, s) := by
  have hdigits : ∀ m < 0x20, hexValue? (hexDigit (m / 16)) = some (m / 16) ∧
      hexValue? (hexDigit (m % 16)) = some (m % 16) := by
    decide
  obtain ⟨hhigh, hlow⟩ := hdigits n hn
  have hzero : hexValue? '0' = some 0 := rfl
  have hvalue : ((0 * 16 + 0) * 16 + n / 16) * 16 + n % 16 = n := by omega
  rw [hex4?, hzero, hhigh, hlow]
  simp only [Option.bind_eq_bind, Option.bind_some, hvalue]

theorem unicodeEscape?_hexDigit {c : Char} (hc : c.toNat < 0x20) (s : Text) :
    unicodeEscape? ('0' :: '0' :: hexDigit (c.toNat / 16) :: hexDigit (c.toNat % 16) :: s) =
      some (c, s) := by
  have hhigh : ¬ 0xd800 ≤ c.toNat := by omega
  have hlow : ¬ 0xdc00 ≤ c.toNat := by omega
  rw [unicodeEscape?, hex4?_hexDigit hc]
  simp [hhigh, hlow]

theorem stringStep?_cons {c : Char} (hquote : c ≠ '"') (hslash : c ≠ '\\') (hc : ¬ c.toNat < 0x20)
    (s : Text) : stringStep? (c :: s) = some (some c, s) := by
  simp [stringStep?, hslash, hc]

/-- An escaped character is read in one step, and nothing behind it is touched. -/
theorem stringStep?_escape (c : Char) (s : Text) :
    stringStep? (escape c ++ s) = some (some c, s) := by
  unfold escape
  split_ifs with hquote hslash h h h h h hcontrol
  iterate 7
    · subst c
      rfl
  · have hread := unicodeEscape?_hexDigit hcontrol s
    simp only [List.cons_append, List.nil_append, stringStep?, hread, Option.map_some]
  · exact stringStep?_cons hquote hslash hcontrol s

theorem length_escape_pos (c : Char) : 0 < (escape c).length := by
  unfold escape
  split_ifs <;> exact Nat.succ_pos _

theorem stringTail?_escape (t rest : Text) {fuel : Nat}
    (hfuel : (t.flatMap escape).length < fuel) :
    stringTail? fuel (t.flatMap escape ++ '"' :: rest) = some (t, rest) := by
  induction t generalizing fuel with
  | nil =>
      obtain ⟨fuel, rfl⟩ := Nat.exists_eq_add_one_of_ne_zero (Nat.ne_zero_of_lt hfuel)
      rfl
  | cons c t ih =>
      obtain ⟨fuel, rfl⟩ := Nat.exists_eq_add_one_of_ne_zero (Nat.ne_zero_of_lt hfuel)
      have hpos := length_escape_pos c
      rw [List.flatMap_cons, List.length_append] at hfuel
      have htail : stringTail? fuel (t.flatMap escape ++ '"' :: rest) = some (t, rest) :=
        ih (by omega)
      rw [List.flatMap_cons, List.append_assoc, stringTail?, stringStep?_escape]
      simp only [Option.bind_eq_bind, Option.bind_some, htail]

/-- The text behind the opening quote of a printed string. -/
theorem stringTail?_quoted (t rest : Text) :
    stringTail? ((t.flatMap escape ++ '"' :: rest).length + 1) (t.flatMap escape ++ '"' :: rest) =
      some (t, rest) := by
  refine stringTail?_escape t rest ?_
  rw [List.length_append]
  omega

theorem quoted_append (t rest : Text) :
    quoted t ++ rest = '"' :: (t.flatMap escape ++ '"' :: rest) := by
  simp [quoted]

/-! ## Space -/

theorem skipSpace_skipSpace (s : Text) : skipSpace (skipSpace s) = skipSpace s :=
  List.dropWhile_idempotent _ _

theorem skipSpace_cons {c : Char} (hc : isSpace c = false) (s : Text) :
    skipSpace (c :: s) = c :: s :=
  List.dropWhile_cons_of_neg (by simp [hc])

theorem skipSpace_newline_append (level : Nat) (s : Text) :
    skipSpace (newline level ++ s) = skipSpace s := by
  refine List.dropWhile_append_of_pos fun c hc => ?_
  rw [newline, List.mem_cons, List.mem_replicate] at hc
  rcases hc with rfl | ⟨-, rfl⟩ <;> rfl

theorem value?_skipSpace (fuel depth : Nat) (s : Text) :
    value? fuel depth (skipSpace s) = value? fuel depth s := by
  cases fuel with
  | zero => rfl
  | succ fuel => rw [value?, value?, skipSpace_skipSpace]

theorem items?_skipSpace (fuel depth : Nat) (s : Text) :
    items? fuel depth (skipSpace s) = items? fuel depth s := by
  cases fuel with
  | zero => rfl
  | succ fuel => rw [items?, items?, value?_skipSpace]

theorem fields?_skipSpace (fuel depth : Nat) (s : Text) :
    fields? fuel depth (skipSpace s) = fields? fuel depth s := by
  cases fuel with
  | zero => rfl
  | succ fuel => rw [fields?, fields?, skipSpace_skipSpace]

theorem value?_newline_append (fuel depth level : Nat) (s : Text) :
    value? fuel depth (newline level ++ s) = value? fuel depth s := by
  rw [← value?_skipSpace, skipSpace_newline_append, value?_skipSpace]

theorem value?_space_cons (fuel depth : Nat) (s : Text) :
    value? fuel depth (' ' :: s) = value? fuel depth s := by
  have hspace : skipSpace (' ' :: s) = skipSpace s := rfl
  rw [← value?_skipSpace, hspace, value?_skipSpace]

theorem fields?_newline_append (fuel depth level : Nat) (s : Text) :
    fields? fuel depth (newline level ++ s) = fields? fuel depth s := by
  rw [← fields?_skipSpace, skipSpace_newline_append, fields?_skipSpace]

/-! ## Steps of the reader -/

variable {fuel depth : Nat} {s s' rest : Text}

theorem items?_close (fuel depth : Nat) (s : Text) : items? fuel depth (']' :: s) = none := by
  cases fuel with
  | zero => rfl
  | succ fuel => cases fuel <;> rfl

theorem fields?_close (fuel depth : Nat) (s : Text) : fields? fuel depth ('\x7d' :: s) = none := by
  cases fuel <;> rfl

theorem value?_array {items : List Json} (h : items? fuel depth s = some (items, rest)) :
    value? (fuel + 1) (depth + 1) ('[' :: s) = some (array items, rest) := by
  rw [← items?_skipSpace] at h
  simp (disch := decide) only [value?, skipSpace_cons]
  split
  -- No item starts with the closing bracket.
  · rename_i hclose
    rw [hclose, items?_close] at h
    cases h
  · rw [h, Option.map_some]

theorem value?_object {fields : List (Text × Json)}
    (h : fields? fuel depth s = some (fields, rest)) :
    value? (fuel + 1) (depth + 1) ('\x7b' :: s) = some (object fields, rest) := by
  rw [← fields?_skipSpace] at h
  simp (disch := decide) only [value?, skipSpace_cons]
  split
  · rename_i hclose
    rw [hclose, fields?_close] at h
    cases h
  · rw [h, Option.map_some]

theorem items?_last {item : Json} (h : value? fuel depth s = some (item, s'))
    (hclose : skipSpace s' = ']' :: rest) : items? (fuel + 1) depth s = some ([item], rest) := by
  rw [items?, h]
  simp only [Option.bind_eq_bind, Option.bind_some, hclose]

theorem items?_cons {item : Json} {items : List Json}
    (h : value? fuel depth s = some (item, ',' :: s'))
    (hitems : items? fuel depth s' = some (items, rest)) :
    items? (fuel + 1) depth s = some (item :: items, rest) := by
  rw [items?, h]
  simp (disch := decide) only [Option.bind_eq_bind, Option.bind_some, skipSpace_cons, hitems]

theorem fields?_last {name : Text} {value : Json} (h : value? fuel depth s = some (value, s'))
    (hclose : skipSpace s' = '\x7d' :: rest) :
    fields? (fuel + 1) depth (quoted name ++ ':' :: ' ' :: s) = some ([(name, value)], rest) := by
  have hname := stringTail?_quoted name (':' :: ' ' :: s)
  rw [quoted_append, fields?]
  simp (disch := decide) only [skipSpace_cons, hname, Option.bind_eq_bind, Option.bind_some,
    value?_space_cons, h, hclose]

theorem fields?_cons {name : Text} {value : Json} {fields : List (Text × Json)}
    (h : value? fuel depth s = some (value, ',' :: s'))
    (hfields : fields? fuel depth s' = some (fields, rest)) :
    fields? (fuel + 1) depth (quoted name ++ ':' :: ' ' :: s) =
      some ((name, value) :: fields, rest) := by
  have hname := stringTail?_quoted name (':' :: ' ' :: s)
  rw [quoted_append, fields?]
  simp (disch := decide) only [skipSpace_cons, hname, Option.bind_eq_bind, Option.bind_some,
    value?_space_cons, h, hfields]

/-! ## Readable values -/

/-- A value whose printed form is read back where at least `depth` levels may be opened. Its length
bounds the number of steps that this takes. -/
def Readable (depth : Nat) (j : Json) : Prop :=
  ∀ (level fuel d : Nat) (rest : Text), depth ≤ d → (pretty level j).length < fuel →
    value? fuel d (pretty level j ++ rest) = some (j, rest)

theorem Readable.mono {j : Json} (h : Readable depth j) {d : Nat} (hd : depth ≤ d) : Readable d j :=
  fun level fuel e rest he => h level fuel e rest (hd.trans he)

theorem readable_of_add_one {j : Json}
    (h : ∀ (level fuel d : Nat) (rest : Text), depth ≤ d → (pretty level j).length ≤ fuel →
      value? (fuel + 1) d (pretty level j ++ rest) = some (j, rest)) : Readable depth j := by
  intro level fuel d rest hd hfuel
  obtain ⟨fuel, rfl⟩ := Nat.exists_eq_add_one_of_ne_zero (Nat.ne_zero_of_lt hfuel)
  exact h level fuel d rest hd (Nat.le_of_lt_succ hfuel)

theorem readable_null (depth : Nat) : Readable depth null :=
  readable_of_add_one fun _ _ _ _ _ _ => rfl

theorem readable_bool (depth : Nat) (b : Bool) : Readable depth (bool b) := by
  refine readable_of_add_one fun _ _ _ _ _ _ => ?_
  cases b <;> rfl

theorem readable_string (depth : Nat) (t : Text) : Readable depth (string t) := by
  refine readable_of_add_one fun level fuel d rest _ _ => ?_
  have hread := stringTail?_quoted t rest
  rw [pretty, quoted_append, value?]
  simp (disch := decide) only [skipSpace_cons, hread, Option.map_some]

theorem prettyItems_cons_cons (level : Nat) (item next : Json) (items : List Json) :
    prettyItems level (item :: next :: items) =
      newline level ++ (pretty level item ++ ',' :: prettyItems level (next :: items)) := by
  rw [prettyItems, List.append_assoc]
  simp

theorem prettyFields_cons_cons (level : Nat) (name : Text) (value : Json) (next : Text × Json)
    (fields : List (Text × Json)) :
    prettyFields level ((name, value) :: next :: fields) =
      newline level ++ (quoted name ++ ':' :: ' ' :: (pretty level value ++
        ',' :: prettyFields level (next :: fields))) := by
  rw [prettyFields]
  · simp
  · simp

theorem items?_prettyItems {items : List Json} (hne : items ≠ [])
    (hitems : ∀ item ∈ items, Readable depth item) {d : Nat} (hd : depth ≤ d) (level : Nat)
    (hfuel : (prettyItems level items).length < fuel) (hclose : skipSpace s = ']' :: rest) :
    items? fuel d (prettyItems level items ++ s) = some (items, rest) := by
  induction items generalizing fuel with
  | nil => exact absurd rfl hne
  | cons item items ih =>
      obtain ⟨hitem, hothers⟩ := List.forall_mem_cons.mp hitems
      obtain ⟨fuel, rfl⟩ := Nat.exists_eq_add_one_of_ne_zero (Nat.ne_zero_of_lt hfuel)
      -- The line break pays for the call that reads the item.
      have hline : 0 < (newline level).length := Nat.succ_pos _
      cases items with
      | nil =>
          rw [prettyItems, List.length_append] at hfuel
          rw [prettyItems, List.append_assoc]
          refine items?_last ?_ hclose
          rw [value?_newline_append]
          exact hitem level fuel d s hd (by omega)
      | cons next items =>
          rw [prettyItems_cons_cons, List.length_append, List.length_append,
            List.length_cons] at hfuel
          rw [prettyItems_cons_cons, List.append_assoc, List.append_assoc]
          refine items?_cons ?_ (ih (List.cons_ne_nil _ _) hothers (by omega))
          rw [value?_newline_append]
          exact hitem level fuel d _ hd (by omega)

theorem fields?_prettyFields {fields : List (Text × Json)} (hne : fields ≠ [])
    (hfields : ∀ field ∈ fields, Readable depth field.2) {d : Nat} (hd : depth ≤ d) (level : Nat)
    (hfuel : (prettyFields level fields).length < fuel) (hclose : skipSpace s = '\x7d' :: rest) :
    fields? fuel d (prettyFields level fields ++ s) = some (fields, rest) := by
  induction fields generalizing fuel with
  | nil => exact absurd rfl hne
  | cons field fields ih =>
      obtain ⟨hvalue, hothers⟩ := List.forall_mem_cons.mp hfields
      obtain ⟨name, value⟩ := field
      dsimp only at hvalue
      obtain ⟨fuel, rfl⟩ := Nat.exists_eq_add_one_of_ne_zero (Nat.ne_zero_of_lt hfuel)
      cases fields with
      | nil =>
          simp only [prettyFields, List.length_append, List.length_cons] at hfuel
          simp only [prettyFields, List.append_assoc, List.cons_append]
          rw [fields?_newline_append]
          exact fields?_last (hvalue level fuel d s hd (by omega)) hclose
      | cons next fields =>
          simp only [prettyFields_cons_cons, List.length_append, List.length_cons] at hfuel
          simp only [prettyFields_cons_cons, List.append_assoc, List.cons_append]
          rw [fields?_newline_append]
          exact fields?_cons (hvalue level fuel d _ hd (by omega))
            (ih (List.cons_ne_nil _ _) hothers (by omega))

theorem Readable.array {items : List Json} (h : ∀ item ∈ items, Readable depth item) :
    Readable (depth + 1) (array items) := by
  refine readable_of_add_one fun level fuel d rest hd hfuel => ?_
  obtain ⟨d, rfl⟩ := Nat.exists_eq_add_one_of_ne_zero (Nat.ne_zero_of_lt hd)
  cases items with
  | nil => rfl
  | cons item items =>
      simp only [pretty, List.length_append, List.length_cons] at hfuel
      simp only [pretty, List.append_assoc, List.cons_append]
      refine value?_array (items?_prettyItems (List.cons_ne_nil _ _) h (Nat.le_of_succ_le_succ hd) _
        (by omega) ?_)
      rw [skipSpace_newline_append]
      rfl

theorem Readable.object {fields : List (Text × Json)}
    (h : ∀ field ∈ fields, Readable depth field.2) : Readable (depth + 1) (object fields) := by
  refine readable_of_add_one fun level fuel d rest hd hfuel => ?_
  obtain ⟨d, rfl⟩ := Nat.exists_eq_add_one_of_ne_zero (Nat.ne_zero_of_lt hd)
  cases fields with
  | nil => rfl
  | cons field fields =>
      simp only [pretty, List.length_append, List.length_cons] at hfuel
      simp only [pretty, List.append_assoc, List.cons_append]
      refine value?_object (fields?_prettyFields (List.cons_ne_nil _ _) h
        (Nat.le_of_succ_le_succ hd) _ (by omega) ?_)
      rw [skipSpace_newline_append]
      rfl

/-- A text that holds nothing but a printed value is read as that value. -/
theorem parse?_pretty {j : Json} (h : Readable 127 j) (level : Nat) :
    parse? (pretty level j) = some j := by
  have hread := h level ((pretty level j).length + 1) 127 [] (Nat.le_refl _) (Nat.lt_succ_self _)
  rw [List.append_nil] at hread
  rw [parse?, hread]
  rfl

end SqlMigration.Json
