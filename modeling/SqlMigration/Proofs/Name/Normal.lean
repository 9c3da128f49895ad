import SqlMigration.Proofs.Expression.Tame
import SqlMigration.Proofs.Text.Lowercase
import SqlMigration.Proofs.Text.Trimming

/-! # Normal forms of names

Normalising stops at a text in lower case from which nothing can be taken off any more, and that
leaves such a text as it is.
-/

namespace SqlMigration.Name

open Text

/-- A name from which nothing can be taken off. -/
structure Normal (s : Text) : Prop where
  schema : dropSchema s = s
  blanks : s.trim = s
  quotes : s.trimWhere isQuote = s
  mark : dropUnicodeMark s = s

variable {s : Text}

theorem Normal.trimQuotes_dropSchema (h : Normal s) : trimQuotes (dropSchema s) = s := by
  rw [h.schema, trimQuotes, h.blanks, h.quotes, h.mark, h.quotes]

/-- Where taking off delimiters and qualifiers shortens nothing, each step of it changes nothing. -/
theorem normal_of_length_le (h : s.length ≤ (trimQuotes (dropSchema s)).length) : Normal s := by
  have hschema := dropSchema_suffix s
  have hblanks : (dropSchema s).trim.Sublist (dropSchema s) := trimWhere_sublist _ _
  have hquotes := trimWhere_sublist isQuote (dropSchema s).trim
  have hmark := dropUnicodeMark_suffix ((dropSchema s).trim.trimWhere isQuote)
  have hlast := trimWhere_sublist isQuote (dropUnicodeMark ((dropSchema s).trim.trimWhere isQuote))
  rw [trimQuotes] at h
  have hle₁ := hschema.length_le
  have hle₂ := hblanks.length_le
  have hle₃ := hquotes.length_le
  have hle₄ := hmark.length_le
  have hle₅ := hlast.length_le
  have heq₁ : dropSchema s = s := hschema.eq_of_length (by omega)
  have heq₂ := hblanks.eq_of_length (by omega)
  have heq₃ := hquotes.eq_of_length (by omega)
  have heq₄ := hmark.eq_of_length (by omega)
  rw [heq₁] at heq₂ heq₃ heq₄
  rw [heq₂] at heq₃ heq₄
  rw [heq₃] at heq₄
  exact ⟨heq₁, heq₂, heq₃, heq₄⟩

theorem normal_settle (s : Text) : Normal (settle s) := by
  fun_induction settle s with
  | case1 s next hlt ih => exact ih
  | case2 s next hle => exact normal_of_length_le (Nat.le_of_not_lt hle)

theorem settle_of_normal (h : Normal s) : settle s = s := by
  rw [settle, h.trimQuotes_dropSchema]
  simp

theorem normal_normalize (s : Text) : Normal (normalize s) := normal_settle _

theorem isSmall_of_mem_normalize (s : Text) : ∀ c ∈ normalize s, isSmall c :=
  fun c hc => isSmall_of_mem_lower c ((settle_sublist _).mem hc)

theorem normalize_of_normal (h : Normal s) (hsmall : ∀ c ∈ s, isSmall c) : normalize s = s := by
  rw [normalize, h.blanks, lower_of_isSmall hsmall, settle_of_normal h]

theorem normalize_normalize (s : Text) : normalize (normalize s) = normalize s :=
  normalize_of_normal (normal_normalize s) (isSmall_of_mem_normalize s)

/-- A normal name starts with no delimiter. -/
theorem Normal.isQuote_head (h : Normal s) {c : Char} (hc : c ∈ s.head?) : isQuote c = false :=
  head_trimWhere (by rwa [h.quotes])

/-! ## Quoted names -/

/-- Whether the double quotes of a text come in pairs, each of which stands for one. -/
def quotesPaired : Text → Bool
  | [] => true
  | '"' :: '"' :: s => quotesPaired s
  | c :: s => c ≠ '"' && quotesPaired s

/-- No quoted `dbo` with its dot stands right after a quote. -/
theorem dropSchema_quoted (h : quotesPaired s) :
    dropSchema ('"' :: s ++ ['"']) = '"' :: s ++ ['"'] := by
  unfold dropSchema
  split
  · rename_i heq
    cases heq
  · rename_i heq
    cases heq
  · rename_i rest heq
    have hs : s ++ ['"'] = ['d', 'b', 'o', '"', '.'] ++ rest := List.tail_eq_of_cons_eq heq
    rcases List.eq_nil_or_concat rest with rfl | ⟨r, c, rfl⟩
    · have hlast := congrArg List.getLast? hs
      simp at hlast
    · rw [List.concat_eq_append, ← List.append_assoc] at hs
      rw [(List.append_inj' hs rfl).1] at h
      cases h
  · rfl

/-- Quotes around a normal name are taken off again. -/
theorem normalize_quoted (h : Normal s) (hsmall : ∀ c ∈ s, isSmall c) (hquotes : quotesPaired s) :
    normalize ('"' :: s ++ ['"']) = s := by
  have hquote : isSmall '"' := by decide +kernel
  have hall : ∀ c ∈ '"' :: s ++ ['"'], isSmall c := by
    intro c hc
    rcases List.mem_append.mp hc with hc | hc
    · rcases List.mem_cons.mp hc with rfl | hc
      · exact hquote
      · exact hsmall c hc
    · rwa [List.mem_singleton.mp hc]
  have htrim : Text.trim ('"' :: s ++ ['"']) = '"' :: s ++ ['"'] :=
    trimWhere_between (by decide) (by decide) s
  have hunquoted : Text.trimWhere isQuote ('"' :: s ++ ['"']) = s := by
    have hmark : ∀ c ∈ ['"'], isQuote c := List.all_eq_true.mp rfl
    exact (trimWhere_append hmark hmark).trans h.quotes
  have hnext : trimQuotes (dropSchema ('"' :: s ++ ['"'])) = s := by
    rw [dropSchema_quoted hquotes, trimQuotes, htrim, hunquoted, h.mark, h.quotes]
  rw [normalize, htrim, lower_of_isSmall hall, settle, hnext]
  have hshorter : s.length < ('"' :: s ++ ['"']).length := by
    rw [List.length_append, List.length_cons]
    omega
  exact (if_pos hshorter).trans (settle_of_normal h)

end SqlMigration.Name
