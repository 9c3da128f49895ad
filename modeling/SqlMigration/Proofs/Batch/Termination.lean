import SqlMigration.Proofs.Batch.Inside
import SqlMigration.Proofs.Pattern
import SqlMigration.Proofs.Token.Lossless
import SqlMigration.Proofs.View.Termination

/-! # The conversion of batches ends

The statements inside a statement are shorter than it, measured in characters: a part of it lacks
its first word, and a string of dynamic SQL lacks the quotes. A lexer that loses nothing keeps that
measure when it reads the string. So a batch of so many characters needs no more than so many
levels, and more levels change nothing.
-/

namespace SqlMigration

theorem length_joinText_le {us ts : List Token} (h : us <:+: ts) :
    (joinText us).length ≤ (joinText ts).length := by
  obtain ⟨before, after, rfl⟩ := h
  simp only [joinText_append, List.length_append]
  omega

theorem length_text_le {t : Token} {ts : List Token} (h : t ∈ ts) :
    t.text.length ≤ (joinText ts).length := by
  obtain ⟨before, after, rfl⟩ := List.append_of_mem h
  simp only [joinText_append, joinText_cons, List.length_append]
  omega

/-! ## Dynamic SQL -/

namespace Pattern

/-- What a step captures as written is the text of a token of the list. -/
theorem exists_mem_of_matchStep {p : Pattern} {s : Step} {ts : List Token} {c : Captures} {n : Nat}
    (hs : s.capture = .nothing ∨ s.capture = .raw) (h : p.matchStep s ts = .ok (c, n)) :
    ∀ value ∈ c.values, ∃ t ∈ ts, t.text = value := by
  simp only [matchStep] at h
  split at h
  · cases h
  · rename_i t rest hdrop
    have ht : t ∈ ts := List.mem_of_mem_drop (hdrop ▸ List.mem_cons_self)
    split at h
    · rcases hs with hs | hs
      · simp only [hs] at h
        cases h
        simp
      · simp only [hs] at h
        cases h
        simpa using ⟨t, ht, rfl⟩
    · cases h

theorem exists_mem_of_matchSteps {p : Pattern} {steps : List Step} {ts : List Token}
    {c : Captures} {n : Nat} (hs : ∀ s ∈ steps, s.capture = .nothing ∨ s.capture = .raw)
    (h : p.matchSteps steps ts = .ok (c, n)) : ∀ value ∈ c.values, ∃ t ∈ ts, t.text = value := by
  induction steps generalizing ts c n with
  | nil =>
      cases h
      simp
  | cons s steps ih =>
      obtain ⟨hstep, hsteps⟩ := List.forall_mem_cons.mp hs
      rw [matchSteps] at h
      split at h
      · cases h
      · rename_i c₁ n₁ hfirst
        split at h
        · cases h
        · rename_i c₂ n₂ hrest
          cases h
          intro value hvalue
          rcases List.mem_append.mp hvalue with hvalue | hvalue
          · exact exists_mem_of_matchStep hstep hfirst value hvalue
          · obtain ⟨t, ht, htext⟩ := ih hsteps hrest value hvalue
            exact ⟨t, List.mem_of_mem_drop ht, htext⟩

theorem exists_mem_of_run? {p : Pattern} {ts : List Token} {c : Captures} {n : Nat}
    (htail : p.tail = []) (hs : ∀ s ∈ p.steps, s.capture = .nothing ∨ s.capture = .raw)
    (h : p.run? ts = some (c, n)) : ∀ value ∈ c.values, ∃ t ∈ ts, t.text = value := by
  simp only [run?, run, matchTail_of_tail_eq_nil htail] at h
  split at h
  · cases h
  · split at h
    · cases h
    · rename_i c₁ n₁ hsteps
      cases h
      intro value hvalue
      rcases List.mem_append.mp hvalue with hvalue | hvalue
      · exact exists_mem_of_matchSteps hs hsteps value hvalue
      · cases hvalue

end Pattern

namespace DynamicSql

theorem length_unescape_le (s : Text) : (unescape s).length ≤ s.length := by
  fun_induction unescape s with
  | case1 s ih =>
      simp only [List.length_cons]
      omega
  | case2 c s _ ih =>
      simp only [List.length_cons]
      omega
  | case3 => exact Nat.le_refl 0

/-- A string literal has its quotes besides what it holds. -/
theorem length_lt_of_literalBody? {s body : Text} (h : literalBody? s = some body) :
    body.length < s.length := by
  have hquoted (r : Text) (hr : (Text.dropFinal? '\'' r).map unescape = some body) :
      body.length ≤ r.length := by
    obtain ⟨inner, hinner, rfl⟩ := Option.map_eq_some_iff.mp hr
    rw [Text.dropFinal?] at hinner
    split at hinner
    · cases hinner
      have hle := length_unescape_le r.dropLast
      rw [List.length_dropLast] at hle
      omega
    · cases hinner
  unfold literalBody? at h
  dsimp only at h
  split at h
  · rename_i r hr
    have hlen : r.length < s.length := by
      split at hr
      · cases hr
        simp only [List.length_cons]
        omega
      · cases hr
        simp only [List.length_cons]
        omega
      · subst hr
        exact Nat.lt_succ_self _
    exact Nat.lt_of_le_of_lt (hquoted r h) hlen
  · cases h

/-- The statements in a string are shorter than the statement that runs them. -/
theorem length_lt_of_stringArgument? {ts : List Token} {sql : Text}
    (h : stringArgument? ts = some sql) : sql.length < (joinText ts).length := by
  obtain ⟨literal, harg, hbody⟩ := Option.bind_eq_some_iff.mp h
  obtain ⟨⟨c, n⟩, hrun, hhead⟩ := Option.bind_eq_some_iff.mp harg
  obtain ⟨t, ht, rfl⟩ := Pattern.exists_mem_of_run? rfl (by simp [argumentPattern, Step.kind]) hrun
    literal (List.mem_of_mem_head? hhead)
  exact Nat.lt_of_lt_of_le (length_lt_of_literalBody? hbody) (length_text_le ht)

end DynamicSql

/-- A lexer that loses nothing: what it reads is the whole text, in tokens that are not empty. -/
structure StatementLexer.Lossless (lexer : StatementLexer) : Prop where
  joined {sql : Text} {ts : List Token} (h : lexer.lex sql = .ok ts) : joinText ts = sql
  nonempty {sql : Text} {ts : List Token} (h : lexer.lex sql = .ok ts) : ∀ t ∈ ts, t.text ≠ []

theorem StatementLexer.eq_tokenize_of_lex {sql : Text} {ts : List Token}
    (h : tsql.lex sql = .ok ts) : ts = tokenize sql := by
  simp only [tsql, lexStrict] at h
  split at h
  · cases h
  · cases h
    rfl

theorem StatementLexer.lossless_tsql : StatementLexer.tsql.Lossless := by
  constructor
  · intro sql ts h
    rw [eq_tokenize_of_lex h]
    exact Token.joinText_read _ 0 sql
  · intro sql ts h t ht
    rw [eq_tokenize_of_lex h] at ht
    exact Token.text_ne_nil_of_mem_read _ ht

namespace Batch

variable {s : Setting}

/-- What follows the first significant token of a piece is shorter than the piece. -/
theorem length_joinText_tail_lt {t : Token} {ts : List Token} (h : ∀ u ∈ t :: ts, u.text ≠ []) :
    (joinText (skipTrivia (t :: ts)).tail).length < (joinText (t :: ts)).length := by
  have ht := List.length_pos_iff.mpr (h t List.mem_cons_self)
  have htail : (skipTrivia (t :: ts)).tail <:+ ts := by
    rw [skipTrivia, List.dropWhile_cons]
    split
    · exact (List.tail_suffix _).trans (List.dropWhile_suffix _)
    · exact List.suffix_rfl
  have hle := length_joinText_le htail.isInfix
  rw [joinText_cons, List.length_append]
  omega

/-- What stands inside a piece is shorter than the piece, and has no empty tokens either. -/
theorem Inside.shorter (hlexer : s.lexer.Lossless) {t : Token} {ts us : List Token}
    (h : Inside s (t :: ts) us) (hts : ∀ u ∈ t :: ts, u.text ≠ []) :
    (joinText us).length < (joinText (t :: ts)).length ∧ ∀ u ∈ us, u.text ≠ [] := by
  have hbody : skipTrivia (t :: ts) <:+ t :: ts := List.dropWhile_suffix _
  cases h with
  | part hpart =>
      constructor
      · exact Nat.lt_of_le_of_lt (length_joinText_le hpart) (length_joinText_tail_lt hts)
      · intro u hu
        exact hts u (hbody.subset (List.mem_of_mem_tail (hpart.subset hu)))
  | dynamic hstring hlex =>
      constructor
      · rw [hlexer.joined hlex]
        exact Nat.lt_of_lt_of_le (DynamicSql.length_lt_of_stringArgument? hstring)
          (length_joinText_le hbody.isInfix)
      · exact hlexer.nonempty hlex

/-- The conversion comes to an end whatever was declared before. -/
def Ends {α : Type} (m : ConvertM α) : Prop := ∀ declared, (m.run declared).isSome

theorem composes_ends : Composes Ends where
  pure a := fun _ => rfl
  modify added := fun _ => rfl
  bind {α β m f} hm hf := by
    intro declared
    rw [StateT.run_bind]
    obtain ⟨r, hr⟩ := Option.isSome_iff_exists.mp (hm declared)
    rw [hr]
    exact hf r.1 r.2

/-- With more levels than characters the conversion ends, and how many more there are makes no
difference. -/
theorem convertWithin_ends (hlexer : s.lexer.Lossless) {ts : List Token}
    (hts : ∀ t ∈ ts, t.text ≠ []) {depth depth' : Nat} (hdepth : (joinText ts).length < depth)
    (hdepth' : (joinText ts).length < depth') :
    convertWithin s depth ts = convertWithin s depth' ts ∧ Ends (convertWithin s depth ts) := by
  induction depth generalizing depth' ts with
  | zero => cases hdepth
  | succ depth ih =>
      obtain ⟨depth', rfl⟩ := Nat.exists_eq_succ_of_ne_zero (Nat.ne_zero_of_lt hdepth')
      cases ts with
      | nil => exact composes_ends.lifts.pure _
      | cons t ts =>
          rw [convertWithin, convertWithin]
          generalize Statement.pieceLength s.lexer (t :: ts) - 1 = n
          have hpiece : t :: ts.take n <:+: t :: ts := (List.take_prefix (n + 1) (t :: ts)).isInfix
          refine composes_ends.lifts.bind (composes_ends.lifts.statement ?_) fun text => ?_
          · intro us hus
            obtain ⟨hlt, hne⟩ := hus.shorter hlexer fun u hu => hts u (hpiece.subset hu)
            have hle := length_joinText_le hpiece
            exact ih hne (by omega) (by omega)
          · have hrest : (joinText (ts.drop n)).length < (joinText (t :: ts)).length := by
              have ht := List.length_pos_iff.mpr (hts t List.mem_cons_self)
              have hle := length_joinText_le (List.drop_suffix n ts).isInfix
              rw [joinText_cons, List.length_append]
              omega
            have hne : ∀ u ∈ ts.drop n, u.text ≠ [] := by
              intro u hu
              exact hts u (List.mem_cons_of_mem t (List.mem_of_mem_drop hu))
            refine composes_ends.lifts.bind (ih hne (by omega) (by omega)) fun rest => ?_
            exact composes_ends.lifts.pure _

/-- The conversions of batches and of views both come to an end, on all tokens that are not empty
and with every lexer that loses nothing, wherever that lexer puts its bounds. Further levels change
nothing in their results. -/
theorem conversion_terminates (hlexer : s.lexer.Lossless) {ts : List Token}
    (hts : ∀ t ∈ ts, t.text ≠ []) :
    (∀ declared, ∃ result, (convert s ts).run declared = some result ∧
      ∀ depth, depthBound ts ≤ depth → (convertWithin s depth ts).run declared = some result) ∧
    ∀ out columns depth, ts.length < depth →
      View.convertWithin s.lexer depth out columns ts =
        some (View.convertFrom s.lexer out columns ts) := by
  constructor
  · intro declared
    have hends := (convertWithin_ends hlexer hts (Nat.lt_succ_self _) (Nat.lt_succ_self _)).2
    obtain ⟨result, hresult⟩ := Option.isSome_iff_exists.mp (hends declared)
    refine ⟨result, hresult, fun depth hdepth => ?_⟩
    rw [← hresult, (convertWithin_ends hlexer hts hdepth (Nat.lt_succ_self _)).1]
  · intro out columns depth hdepth
    exact View.convertWithin_eq s.lexer hdepth out columns

/-- Dynamic SQL in dynamic SQL, inside a block that a conditional runs. -/
theorem conversion_terminates_nested :
    let ts := tokenize "IF @a = 1 BEGIN EXEC('EXEC(''DECLARE @b bit'')') END".toList
    StatementLexer.tsql.Lossless ∧ (∀ t ∈ ts, t.text ≠ []) ∧ ts.length < 100 ∧
      (∃ result, (convert {} ts).run [] = some result) ∧
      View.convertWithin .tsql 100 [] {} ts = some (View.convertFrom .tsql [] {} ts) := by
  intro ts
  have hts : ∀ t ∈ ts, t.text ≠ [] := fun t ht => Token.text_ne_nil_of_mem_read _ ht
  have hlen : ts.length < 100 := by decide +kernel
  have hlexer := StatementLexer.lossless_tsql
  obtain ⟨hbatch, hview⟩ := conversion_terminates (s := {}) hlexer hts
  obtain ⟨result, hresult, -⟩ := hbatch []
  exact ⟨hlexer, hts, hlen, ⟨result, hresult⟩, hview [] {} 100 hlen⟩

end Batch

end SqlMigration
