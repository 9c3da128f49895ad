import SqlMigration.Token.Lexer

/-! # Reading loses nothing

The tokens of a script cover it from end to end. Their texts joined again are the script, and the
span of a token says which UTF-8 bytes of the script its text stands for.
-/

namespace SqlMigration

/-! ## Bytes -/

namespace Text

@[simp] theorem byteLength_nil : byteLength [] = 0 := rfl

@[simp] theorem byteLength_cons (c : Char) (s : Text) :
    byteLength (c :: s) = c.utf8Size + byteLength s := rfl

@[simp] theorem byteLength_append (s r : Text) :
    byteLength (s ++ r) = byteLength s + byteLength r := by
  induction s with
  | nil => simp
  | cons c s ih => simp [ih, Nat.add_assoc]

theorem byteLength_pos {s : Text} (h : s ≠ []) : 0 < byteLength s := by
  cases s with
  | nil => exact absurd rfl h
  | cons c s =>
      rw [byteLength_cons]
      exact Nat.add_pos_left c.utf8Size_pos _

theorem size_utf8Encode (s : Text) : s.utf8Encode.size = s.byteLength := by
  induction s with
  | nil => rfl
  | cons c s ih =>
      rw [List.utf8Encode_cons, ByteArray.size_append, ih, byteLength_cons,
        List.utf8Encode_singleton, List.size_toByteArray, String.length_utf8EncodeChar]

/-- The bytes of a part of a text stand right after the bytes of what comes before it. -/
theorem extract_utf8Encode (before s after : Text) :
    (before ++ s ++ after).utf8Encode.extract before.byteLength
      (before.byteLength + s.byteLength) = s.utf8Encode := by
  have hstop : before.byteLength + s.byteLength = (before ++ s).utf8Encode.size := by
    rw [size_utf8Encode, byteLength_append]
  rw [hstop, List.utf8Encode_append, ByteArray.extract_append_size_left, List.utf8Encode_append]
  apply ByteArray.extract_append_eq_right
  · rw [size_utf8Encode]
  · rw [ByteArray.size_append]

end Text

/-! ## Joined texts -/

@[simp] theorem joinText_nil : joinText [] = [] := rfl

@[simp] theorem joinText_cons (t : Token) (ts : List Token) :
    joinText (t :: ts) = t.text ++ joinText ts := by
  simp [joinText]

@[simp] theorem joinText_append (ts us : List Token) :
    joinText (ts ++ us) = joinText ts ++ joinText us := by
  simp [joinText]

namespace Token

/-- The spans of the tokens follow one another from byte `start` through byte `stop`. -/
def Contiguous (start stop : Nat) : List Token → Prop
  | [] => start = stop
  | t :: ts => t.span.start = start ∧ Contiguous t.span.stop stop ts

/-! ## One step of the reader -/

variable (cc : CharClasses)

@[simp] theorem read_nil (start : Nat) : read cc start [] = [] := by
  rw [read]

/-- The first token takes as many characters as `classify` says, and the rest is read after it. -/
theorem read_cons (start : Nat) (c : Char) (s : Text) :
    read cc start (c :: s) =
      let n := (classify cc c s).2
      let stop := start + Text.byteLength (c :: s.take n)
      ⟨(classify cc c s).1, c :: s.take n, ⟨start, stop⟩⟩ :: read cc stop (s.drop n) := by
  rw [read]

/-! ## What a whole reading preserves -/

theorem text_ne_nil_of_mem_read {start : Nat} {s : Text} {t : Token}
    (h : t ∈ read cc start s) : t.text ≠ [] := by
  fun_induction read cc start s with
  | case1 start => simp at h
  | case2 start c s kind n hclass text stop ih =>
      rcases List.mem_cons.mp h with rfl | h
      · exact List.cons_ne_nil _ _
      · exact ih h

theorem span_stop_of_mem_read {start : Nat} {s : Text} {t : Token}
    (h : t ∈ read cc start s) : t.span.stop = t.span.start + t.text.byteLength := by
  fun_induction read cc start s with
  | case1 start => simp at h
  | case2 start c s kind n hclass text stop ih =>
      rcases List.mem_cons.mp h with rfl | h
      · rfl
      · exact ih h

theorem joinText_read (start : Nat) (s : Text) : joinText (read cc start s) = s := by
  fun_induction read cc start s with
  | case1 start => rfl
  | case2 start c s kind n hclass text stop ih =>
      rw [joinText_cons, ih]
      simp [text]

theorem length_read_le (start : Nat) (s : Text) : (read cc start s).length ≤ s.length := by
  fun_induction read cc start s with
  | case1 start => exact Nat.le_refl 0
  | case2 start c s kind n hclass text stop ih =>
      simp only [List.length_cons, List.length_drop] at ih ⊢
      omega

theorem contiguous_read (start : Nat) (s : Text) :
    Contiguous start (start + s.byteLength) (read cc start s) := by
  fun_induction read cc start s with
  | case1 start => rfl
  | case2 start c s kind n hclass text stop ih =>
      have hsplit : text ++ s.drop n = c :: s := by simp [text]
      have hstop : stop + Text.byteLength (s.drop n) = start + Text.byteLength (c :: s) := by
        rw [← hsplit, Text.byteLength_append]
        exact Nat.add_assoc _ _ _
      rw [hstop] at ih
      exact ⟨rfl, ih⟩

/-- The tokens after the first few are the reading of the text that is left. -/
theorem read_of_eq_append {start : Nat} {s : Text} {ts us : List Token}
    (h : read cc start s = ts ++ us) :
    us = read cc (start + (joinText ts).byteLength) (joinText us) := by
  induction ts generalizing start s with
  | nil =>
      have hs : joinText us = s := by rw [← joinText_read cc start s, h, List.nil_append]
      rw [hs]
      exact h.symm
  | cons t ts ih =>
      cases s with
      | nil => simp at h
      | cons c s =>
          rw [read_cons] at h
          obtain ⟨rfl, hrest⟩ := List.cons.inj h
          rw [joinText_cons, Text.byteLength_append, ← Nat.add_assoc]
          exact ih hrest

theorem span_start_of_eq_append {start : Nat} {s : Text} {t : Token} {ts us : List Token}
    (h : read cc start s = ts ++ t :: us) :
    t.span.start = start + (joinText ts).byteLength := by
  have hread := read_of_eq_append cc h
  have hspans := contiguous_read cc (start + (joinText ts).byteLength) (joinText (t :: us))
  rw [← hread] at hspans
  exact hspans.1

/-- The bytes of the script from the start of a token to its end are those of its text. -/
theorem extract_utf8Encode_of_mem_read {s : Text} {t : Token} (h : t ∈ read cc 0 s) :
    s.utf8Encode.extract t.span.start t.span.stop = t.text.utf8Encode := by
  obtain ⟨ts, us, hread⟩ := List.append_of_mem h
  have hs : joinText ts ++ t.text ++ joinText us = s := by
    rw [← joinText_read cc 0 s, hread]
    simp
  have hstart : t.span.start = (joinText ts).byteLength := by
    rw [span_start_of_eq_append cc hread, Nat.zero_add]
  rw [span_stop_of_mem_read cc h, hstart, ← hs]
  exact Text.extract_utf8Encode _ _ _

end Token

/-- What it means that a list of tokens holds a script from end to end. -/
structure Lossless (s : Text) (ts : List Token) : Prop where
  nonempty : ∀ t ∈ ts, t.text ≠ []
  joined : joinText ts = s
  contiguous : Token.Contiguous 0 s.utf8Encode.size ts
  sliced : ∀ t ∈ ts, s.utf8Encode.extract t.span.start t.span.stop = t.text.utf8Encode

/-- Reading ends after at most one token for each character, and its tokens hold the script. -/
theorem tokenize_lossless (s : Text) :
    (tokenize s).length ≤ s.length ∧ Lossless s (tokenize s) := by
  refine ⟨Token.length_read_le _ 0 s, ?_, Token.joinText_read _ 0 s, ?_, ?_⟩
  · intro t ht
    exact Token.text_ne_nil_of_mem_read _ ht
  · have h := Token.contiguous_read .unicode 0 s
    rw [Nat.zero_add, ← Text.size_utf8Encode] at h
    exact h
  · intro t ht
    exact Token.extract_utf8Encode_of_mem_read _ ht

end SqlMigration
