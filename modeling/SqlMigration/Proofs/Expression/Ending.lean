import SqlMigration.Proofs.Expression.Call
import SqlMigration.Proofs.Expression.Tame

/-! # The end of an emitted expression

An expression may lose blank space, and the marks that are cut off with it, if the last of its
tokens that shows in the text is no line comment.
-/

namespace SqlMigration.Expression

open Token

variable {e : Ending}

/-- Whether something that is never cut off is emitted for a token. -/
def isVisible (e : Ending) (t : Token) : Bool :=
  t.kind ≠ .dot && !t.isWord "dbo" && (aloneText t).any fun c => !e.cuts c

/-- Whether the last visible token is no line comment. -/
def holdsEnd (e : Ending) (ts : List Token) : Bool :=
  (ts.reverse.find? (isVisible e)).all fun t => t.kind ≠ .lineComment

theorem exists_visible_of_holdsEnd {t : Token} {ts : List Token} (h : holdsEnd e (t :: ts))
    (ht : isVisible e t) (hline : t.kind = .lineComment) : ∃ u ∈ ts, isVisible e u := by
  by_contra hnone
  have hfind : ts.reverse.find? (isVisible e) = none := by
    simpa using hnone
  simp [holdsEnd, List.find?_append, hfind, ht, hline] at h

theorem holdsEnd_of_suffix {ts us : List Token} (h : us <:+ ts) (hts : holdsEnd e ts) :
    holdsEnd e us := by
  obtain ⟨before, rfl⟩ := h
  unfold holdsEnd at hts ⊢
  rw [List.reverse_append, List.find?_append] at hts
  cases hfind : us.reverse.find? (isVisible e) with
  | none => rfl
  | some u => simpa [hfind] using hts

theorem holdsEnd_of_lineFree {ts : List Token} (h : ∀ t ∈ ts, t.kind ≠ .lineComment) :
    holdsEnd e ts := by
  unfold holdsEnd
  cases hfind : ts.reverse.find? (isVisible e) with
  | none => rfl
  | some t => exact decide_eq_true (h t (List.mem_reverse.mp (List.mem_of_find?_eq_some hfind)))

/-! ## Visible text -/

theorem exists_kept_castText (e : Ending) (args : List Text) :
    ∃ c ∈ castText args, e.cuts c = false := by
  have hopen : 'C' ∈ "CAST(".toList := by decide
  have hkept : e.cuts 'C' = false := by cases e <;> decide
  refine ⟨'C', ?_, hkept⟩
  unfold castText
  simp only [List.mem_append, hopen, true_or]

theorem exists_kept_dateAddText (e : Ending) (args : List Text) :
    ∃ c ∈ dateAddText args, e.cuts c = false := by
  have hsign (negative : Bool) :
      ∃ c ∈ (if negative then " - " else " + ").toList, e.cuts c = false := by
    cases negative with
    | false => exact ⟨'+', by decide, by cases e <;> decide⟩
    | true => exact ⟨'-', by decide, by cases e <;> decide⟩
  obtain ⟨c, hc, hkept⟩ := hsign (splitMinus (Text.stripParens (args[1]?.getD []))).1
  exact ⟨c, List.mem_append_left _ (List.mem_append_right _ hc), hkept⟩

theorem aloneText_of_is {t : Token} {k : Keyword} (h : t.is k) : aloneText t = t.text := by
  have hkind : t.kind = .keyword k := of_decide_eq_true h
  simp [aloneText, tokenText, Token.isWord, Kind.isIdentifier, Kind.identifiers, hkind]

/-- A visible token shows in the text of the one that covers it. -/
theorem exists_kept_emitHead (e : Ending) (t : Token) (ts : List Token)
    (h : ∃ u ∈ t :: ts.take (emitHead t ts).2, isVisible e u) :
    ∃ c ∈ (emitHead t ts).1, e.cuts c = false := by
  have halone (hone : ∃ u ∈ t :: ts.take 0, isVisible e u) :
      ∃ c ∈ aloneText t, e.cuts c = false := by
    obtain ⟨u, hu, hvisible⟩ := hone
    rw [List.take_zero, List.mem_singleton] at hu
    subst hu
    simp only [isVisible, Bool.and_eq_true, List.any_eq_true, Bool.not_eq_true'] at hvisible
    exact hvisible.2
  rw [emitHead] at h ⊢
  split
  · rename_i hconvert
    rw [if_pos hconvert] at h
    split
    · exact exists_kept_castText e _
    · rename_i hcall
      rw [hcall] at h
      rw [← aloneText_of_is hconvert]
      exact halone h
  rename_i hconvert
  rw [if_neg hconvert] at h
  split
  · rename_i hword
    rw [if_pos hword] at h
    split
    · exact exists_kept_dateAddText e _
    · rename_i hcall
      rw [hcall] at h
      rw [aloneText, if_pos hword] at halone
      exact halone h
  rename_i hword
  rw [if_neg hword] at h
  split
  · rename_i hdbo
    rw [if_pos hdbo] at h
    obtain ⟨d, rest, rfl, hdot⟩ := eq_cons_of_startsWithDbo hdbo
    have hname : t.isWord "dbo" := (Bool.and_eq_true_iff.mp hdbo).1
    obtain ⟨u, hu, hvisible⟩ := h
    simp only [List.take_succ_cons, List.take_zero, List.mem_cons, List.not_mem_nil, or_false] at hu
    rcases hu with rfl | rfl
    · simp [isVisible, hname] at hvisible
    · simp [isVisible, hdot] at hvisible
  · rename_i hdbo
    rw [if_neg hdbo] at h
    rw [aloneText, if_neg hword] at halone
    exact halone h

theorem exists_kept_emit {ts : List Token} (h : ∃ u ∈ ts, isVisible e u) :
    ∃ c ∈ emit ts, e.cuts c = false := by
  fun_induction emit ts with
  | case1 => simp at h
  | case2 t ts text n heq ih =>
      have hhead := exists_kept_emitHead e t ts
      rw [heq] at hhead
      obtain ⟨u, hu, hvisible⟩ := h
      rw [← List.take_append_drop n ts, ← List.cons_append] at hu
      rcases List.mem_append.mp hu with hu | hu
      · obtain ⟨c, hc, hkept⟩ := hhead ⟨u, hu, hvisible⟩
        exact ⟨c, List.mem_append_left _ hc, hkept⟩
      · obtain ⟨c, hc, hkept⟩ := ih ⟨u, hu, hvisible⟩
        exact ⟨c, List.mem_append_right _ hc, hkept⟩

/-! ## Blank space and comments -/

theorem isWord_of_isTrivia {t : Token} (h : t.isTrivia) (word : String) :
    t.isWord word = false := by
  simp only [Token.isTrivia, Kind.isTrivia, Bool.or_eq_true, decide_eq_true_eq] at h
  have hname : t.kind.isIdentifier = false := by
    rcases h with h | h
    · rw [h]
      rfl
    · generalize t.kind = k at h ⊢
      cases k with
      | lineComment | blockComment => rfl
      | _ => cases h
  simp [Token.isWord, hname]

theorem aloneText_of_isTrivia {t : Token} (h : t.isTrivia) : aloneText t = t.text := by
  rcases aloneText_cases t with halone | ⟨hkind, -⟩ | ⟨hkind, -⟩ | ⟨hkind, -⟩
  · exact halone
  all_goals simp [Token.isTrivia, hkind, Kind.isTrivia, Kind.isComment] at h

theorem emitHead_of_isTrivia {t : Token} (h : t.isTrivia) (ts : List Token) :
    emitHead t ts = (t.text, 0) := by
  have hconvert : t.is .CONVERT = false := by
    cases hconvert : t.is .CONVERT with
    | false => rfl
    | true => simp [Token.isTrivia, of_decide_eq_true hconvert, Kind.isTrivia, Kind.isComment] at h
  have hstart : startsWithDbo (t :: ts) = false := by
    cases ts <;> simp [startsWithDbo, isWord_of_isTrivia h]
  have htext := aloneText_of_isTrivia h
  rw [aloneText, if_neg (by simp [isWord_of_isTrivia h])] at htext
  simp [emitHead, hconvert, isWord_of_isTrivia h, hstart, htext]

theorem isVisible_of_lineComment {t : Token} (h : Shape t.kind t.text)
    (ht : t.kind = .lineComment) : isVisible e t := by
  have htrivia : t.isTrivia := by
    rw [Token.isTrivia, ht]
    rfl
  rw [ht] at h
  have hkept : t.text.any fun c => !e.cuts c :=
    List.any_eq_true.mpr ⟨'-', h.mem_of_lineComment, by cases e <;> decide⟩
  simp [isVisible, ht, isWord_of_isTrivia htrivia, aloneText_of_isTrivia htrivia, hkept]

theorem not_isVisible_of_blank {t : Token} (h : Shape t.kind t.text) (ht : t.kind = .blank) :
    isVisible e t = false := by
  have htrivia : t.isTrivia := by
    rw [Token.isTrivia, ht]
    rfl
  rw [ht] at h
  have hblank : (t.text.any fun c => !e.cuts c) = false := by
    refine List.any_eq_false.mpr fun c hc => ?_
    simp [e.cuts_of_isBlank (h.isBlank_of_mem c hc)]
  simp [isVisible, aloneText_of_isTrivia htrivia, hblank]

end SqlMigration.Expression
