import SqlMigration.Proofs.Token.Spelling
import SqlMigration.Proofs.View.Aliases
import SqlMigration.Proofs.View.Gap

/-! # How the text of an arm ends

A union takes back a semicolon at the end of what has been written. The text of an arm ends with
neither a semicolon nor a blank character if its last term is written as anything at all, so that
nothing is taken away from it.
-/

namespace SqlMigration

open Text

/-! ## Names and calls -/

theorem Name.endsSolid_render (s : Text) : endsSolid (Name.render s) := by
  simp only [Name.render]
  split
  · rename_i hplain
    generalize Name.normalize s = name at hplain
    cases name with
    | nil => cases hplain
    | cons c name =>
        apply endsSolid_of_forall (List.cons_ne_nil _ _)
        intro d hd
        have hall := List.all_eq_true.mp (Bool.and_eq_true_iff.mp hplain).2 d hd
        rcases Bool.or_eq_true_iff.mp hall with hletter | hmark
        · exact isSolid_of_isAlphanumeric hletter
        · rw [of_decide_eq_true hmark]
          decide
  · exact endsSolid_concat _ (by decide)

theorem Name.endsSolid_ofVariable {s : Text} (hs : ∀ c ∈ s, isSolid c) (h : ofVariable s ≠ []) :
    endsSolid (ofVariable s) := by
  have hmem : ∀ c ∈ s.dropWhile (· = '@'), isSolid c :=
    fun c hc => hs c ((List.dropWhile_sublist _).subset hc)
  rw [ofVariable, trim_of_forall_isSolid hs] at h ⊢
  exact endsSolid_of_forall h (isSolid_of_mem_lowerAfter hmem)

namespace Expression

theorem endsSolid_castText (args : List Text) : endsSolid (castText args) := by
  unfold castText
  exact endsSolid_append _ (by decide)

theorem endsSolid_dateAddText (args : List Text) : endsSolid (dateAddText args) := by
  simp only [dateAddText]
  apply endsSolid_append
  simp only [intervalText]
  split
  · exact endsSolid_concat _ (by decide)
  · exact endsSolid_append _ (by decide)

end Expression

theorem endsSolid_joinText {ts : List Token} (hne : ts ≠ [])
    (h : endsSolid (ts.getLast hne).text) : endsSolid (joinText ts) := by
  rw [← List.dropLast_concat_getLast hne, joinText_append]
  apply endsSolid_append
  simpa using h

namespace Expression

variable {t : Token}

theorem endsSolid_tokenText (ht : Token.Spelled t.kind t.text) (htext : endsSolid t.text)
    (h : tokenText t ≠ []) : endsSolid (tokenText t) := by
  unfold tokenText at h ⊢
  split at h
  · rename_i hkind
    exact Name.endsSolid_ofVariable (ht.isSolid_of_mem hkind) h
  · split
    · exact Name.endsSolid_render _
    · exact htext
  · exact Name.endsSolid_render _
  · exact htext

theorem endsSolid_emitHead {ts : List Token} (ht : Token.Spelled t.kind t.text)
    (htext : endsSolid t.text) (h : (emitHead t ts).1 ≠ []) : endsSolid (emitHead t ts).1 := by
  revert h
  rw [emitHead]
  split
  · intro _
    split
    · exact endsSolid_castText _
    · exact htext
  · split
    · intro _
      split
      · exact endsSolid_dateAddText _
      · exact htext
    · split
      · exact fun h => absurd rfl h
      · exact endsSolid_tokenText ht htext

end Expression

/-! ## Terms -/

namespace View

variable {t : Token} {ts : List Token}

theorem endsSolid_plainText (ht : Token.Spelled t.kind t.text) (htext : endsSolid t.text)
    (h : (plainText t ts).1 ≠ []) : endsSolid (plainText t ts).1 := by
  rw [plainText] at h ⊢
  split
  · exact Name.endsSolid_render _
  · rename_i hname
    rw [if_neg hname] at h
    exact Expression.endsSolid_emitHead ht htext h

theorem endsSolid_of_is {k : Keyword} (hspelled : Token.Spelled t.kind t.text) (h : t.is k) :
    endsSolid t.text := by
  apply hspelled.endsSolid_text (isTrivia_of_is h)
  · simp [kind_of_is h]
  · simp [kind_of_is h]

theorem endsSolid_of_isWord {w : String} (hspelled : Token.Spelled t.kind t.text)
    (h : t.isWord w) : endsSolid t.text := by
  have hident := isIdentifier_of_isWord h
  apply hspelled.endsSolid_text
  · cases ht : t.isTrivia with
    | false => rfl
    | true => simp [isIdentifier_of_isTrivia ht] at hident
  · intro hkind
    simp [hkind, Kind.isIdentifier, Kind.identifiers] at hident
  · intro hkind
    simp [hkind, Kind.isIdentifier, Kind.identifiers] at hident

/-- Tokens as they are read, of which the last one is neither trivia nor a semicolon. -/
structure Ended (ts : List Token) : Prop where
  spelled : ∀ u ∈ ts, Token.Spelled u.kind u.text
  last : ∀ z ∈ ts.getLast?, z.isTrivia = false ∧ z.kind ≠ .error ∧ z.kind ≠ .semicolon

namespace Ended

theorem of_suffix {us : List Token} (h : Ended ts) (hsuffix : us <:+ ts) : Ended us := by
  obtain ⟨before, rfl⟩ := hsuffix
  refine ⟨fun u hu => h.spelled u (List.mem_append_right before hu), fun z hz => h.last z ?_⟩
  simp [List.getLast?_append, Option.mem_def.mp hz]

theorem tail (h : Ended (t :: ts)) : Ended ts := h.of_suffix (List.suffix_cons t ts)

theorem drop (h : Ended (t :: ts)) (n : Nat) : Ended (ts.drop n) :=
  h.tail.of_suffix (List.drop_suffix n ts)

theorem spelled_head (h : Ended (t :: ts)) : Token.Spelled t.kind t.text :=
  h.spelled t List.mem_cons_self

theorem endsSolid_getLast (h : Ended ts) (hne : ts ≠ []) : endsSolid (ts.getLast hne).text := by
  obtain ⟨htrivia, herror, hsemicolon⟩ := h.last _ (List.getLast?_eq_some_getLast hne)
  exact (h.spelled _ (List.getLast_mem hne)).endsSolid_text htrivia herror hsemicolon

theorem endsSolid_head (h : Ended (t :: ts)) (hts : ts = []) : endsSolid t.text := by
  subst hts
  exact h.endsSolid_getLast (List.cons_ne_nil t [])

end Ended

theorem endsSolid_plainTermAt (h : Ended (t :: ts))
    (hall : ts.drop (plainTermAt t ts).rest.length = []) (hwritten : (plainTermAt t ts).text ≠ []) :
    endsSolid (plainTermAt t ts).text := by
  have ht := h.spelled_head
  rw [plainTermAt, drop_length_take, plainLength] at hall
  refine endsSolid_plainText ht ?_ hwritten
  cases hdbo : startsWithDbo (t :: ts) with
  | true => exact endsSolid_of_isWord ht (isWord_of_startsWithDbo hdbo)
  | false =>
      cases hconvert : t.is .CONVERT with
      | true => exact endsSolid_of_is ht hconvert
      | false => exact h.endsSolid_head (by simpa [hdbo, hconvert] using hall)

theorem endsSolid_termAt (xs : List Term) (h : Ended (t :: ts))
    (hall : ts.drop (termAt xs t ts).rest.length = []) (hwritten : (termAt xs t ts).text ≠ []) :
    endsSolid (termAt xs t ts).text := by
  have ht := h.spelled_head
  revert hall hwritten
  fun_cases termAt xs t ts with
  | case1 htop =>
      intro hall _
      have htop := (Bool.and_eq_true_iff.mp htop).1
      rw [drop_length_take, List.drop_eq_nil_iff] at hall
      simp only [Term.text, Term.tokens, List.take_of_length_le hall]
      split
      · exact endsSolid_of_is ht htop
      · exact endsSolid_joinText (List.cons_ne_nil t ts) (h.endsSolid_getLast _)
  | case2 htop hclause =>
      intro hall _
      exact h.endsSolid_head hall
  | case3 htop hclause has u hu hname =>
      intro _ _
      exact endsSolid_append _ (Name.endsSolid_render _)
  | case4 | case5 | case11 | case12 =>
      intro hall hwritten
      exact endsSolid_plainText ht (h.endsSolid_head hall) hwritten
  | case6 htop hclause has hcall =>
      intro _ hwritten
      refine Expression.endsSolid_emitHead ht ?_ hwritten
      rcases Bool.or_eq_true_iff.mp hcall with hconvert | hdate
      · exact endsSolid_of_is ht hconvert
      · exact endsSolid_of_isWord ht hdate
  | case7 | case8 =>
      intro _ hwritten
      exact absurd rfl hwritten
  | case9 | case10 =>
      intro _ _
      exact Name.endsSolid_render _

theorem OpenList.endsSolid_termAt (l : OpenList) {depth : Nat} (h : Ended (t :: ts))
    (hall : ts.drop (l.termAt depth t ts).rest.length = [])
    (hwritten : (l.termAt depth t ts).text ≠ []) : endsSolid (l.termAt depth t ts).text := by
  rcases l.termAt_eq depth t with ⟨-, -, hterm⟩ | hterm
  · rw [hterm] at hall hwritten ⊢
    exact View.endsSolid_termAt l.terms h hall hwritten
  · rw [hterm] at hall hwritten ⊢
    exact endsSolid_plainTermAt h hall hwritten

/-! ## Arms -/

theorem Position.endsSolid_write_add (p : Position) {x : Term} (hx : endsSolid x.text)
    (added : Option Text) : endsSolid ((p.add x).write added) := by
  cases hcontent : x.isContent with
  | true =>
      have hbody : (p.add x).write added = p.body ++ p.trailing ++ x.text ++ aliasText added := by
        simp [Position.write, Position.add, hcontent, Position.put, aliasText]
      rw [hbody]
      cases added with
      | none =>
          rw [aliasText, Option.elim_none, List.append_nil]
          exact endsSolid_append _ hx
      | some name => exact endsSolid_append _ (endsSolid_append _ (Name.endsSolid_render name))
  | false =>
      have htrailing : (p.add x).write added = p.write added ++ x.text := by
        simp [Position.write, Position.add, hcontent, Position.space]
      rw [htrailing]
      exact endsSolid_append _ hx

theorem Columns.endsSolid_write_closing (c : Columns) (k : Nat) {p : Position}
    (hp : ∀ added, endsSolid (p.write added)) : endsSolid (c.write k (closing (some p))).1 := by
  simp only [closing, write]
  split
  · split <;> simpa using hp _
  · simpa using hp _

theorem Columns.endsSolid_write_append {gs : List Fragment}
    (hgs : ∀ (c : Columns) (k : Nat), endsSolid (c.write k gs).1) (c : Columns) (k : Nat)
    (fs : List Fragment) : endsSolid (c.write k (fs ++ gs)).1 := by
  obtain ⟨k', hk⟩ := c.exists_write_append k fs
  rw [hk]
  exact endsSolid_append _ (hgs _ k')

theorem Columns.endsSolid_write_outside (c : Columns) (k : Nat) {x : Term}
    (hx : endsSolid x.text) : endsSolid (c.write k (Part.outside x).fragments).1 := by
  simpa [Part.fragments, write] using hx

/-- A list that has just started, or a position, ends with the token before it. -/
theorem Columns.endsSolid_write_start (c : Columns) (k : Nat) (ht : endsSolid t.text)
    (fs : List Fragment) (hfs : fs = [] ∨ fs = [.listStart]) :
    endsSolid (c.write k (.text t.text :: fs ++ closing (some (position [])))).1 := by
  have hnil : (position []).write none = [] := rfl
  have hcontent : (position []).hasContent = false := rfl
  rcases hfs with rfl | rfl <;> simpa [closing, write, hcontent, hnil] using ht

/-- The last term of an arm that has these parts is written as anything at all. -/
def EndsWritten (parts : List Part) : Prop := ∀ x ∈ lastTerm? parts, x.text ≠ []

instance (parts : List Part) : Decidable (EndsWritten parts) :=
  inferInstanceAs (Decidable (∀ x ∈ lastTerm? parts, x.text ≠ []))

theorem EndsWritten.of_append (ps : List Part) {qs : List Part} (h : EndsWritten (ps ++ qs))
    (hqs : qs ≠ []) : EndsWritten qs := by
  rwa [EndsWritten, lastTerm?_append ps hqs] at h

/-- A list that has just started ends well if what follows does, and with its `SELECT` if nothing
follows. -/
theorem endsSolid_cutFrom_select {ts : List Token} (ht : Token.Spelled t.kind t.text)
    (hselect : t.is .SELECT)
    (hts : ts ≠ [] → ∀ (c : Columns) (k : Nat),
      endsSolid (c.write k ((cutFrom 0 (some { select := t }) ts).flatMap Part.fragments)).1)
    (c : Columns) (k : Nat) :
    endsSolid (c.write k ((cutFrom 0 (some { select := t }) ts).flatMap Part.fragments)).1 := by
  by_cases hnil : ts = []
  · subst hnil
    rw [cutFrom, List.flatMap_singleton, OpenList.fragments_close]
    exact c.endsSolid_write_start k (endsSolid_of_is ht hselect) [.listStart] (.inr rfl)
  · exact hts hnil c k

/-- A term outside select lists ends well if what follows does, and by itself if nothing
follows. -/
theorem endsSolid_outside_cutFrom {depth : Nat} {x : Term} {ts : List Token}
    (hwritten : EndsWritten (.outside x :: cutFrom depth none ts))
    (hx : ts = [] → x.text ≠ [] → endsSolid x.text)
    (hts : ts ≠ [] → EndsWritten (cutFrom depth none ts) → ∀ (c : Columns) (k : Nat),
      endsSolid (c.write k ((cutFrom depth none ts).flatMap Part.fragments)).1)
    (c : Columns) (k : Nat) :
    endsSolid
      (c.write k ((Part.outside x :: cutFrom depth none ts).flatMap Part.fragments)).1 := by
  rw [List.flatMap_cons]
  by_cases hnil : ts = []
  · rw [hnil, cutFrom] at hwritten
    rw [hnil, cutFrom, List.flatMap_nil, List.append_nil]
    exact c.endsSolid_write_outside k (hx hnil (hwritten x rfl))
  · have hrest : EndsWritten (cutFrom depth none ts) :=
      .of_append [.outside x] hwritten (cutFrom_ne_nil depth (.inr hnil))
    exact Columns.endsSolid_write_append (hts hnil hrest) c k _

theorem endsSolid_cutFrom {depth : Nat} (l : Option OpenList) {ts : List Token}
    (h : Ended ts) (hne : ts ≠ []) (hwritten : EndsWritten (cutFrom depth l ts)) (c : Columns)
    (k : Nat) : endsSolid (c.write k ((cutFrom depth l ts).flatMap Part.fragments)).1 := by
  fun_induction cutFrom depth l ts generalizing c k with
  | case1 | case2 => exact absurd rfl hne
  | case3 depth t ts hselect ih =>
      obtain ⟨-, hkeyword⟩ : depth = 0 ∧ t.is .SELECT := by simpa using hselect
      exact endsSolid_cutFrom_select h.spelled_head hkeyword
        (fun hnil => ih h.tail hnil hwritten) c k
  | case4 depth t ts hselect x ih =>
      exact endsSolid_outside_cutFrom hwritten (endsSolid_plainTermAt h) (ih (h.drop _)) c k
  | case5 depth l t ts htrivia ih =>
      have hnil : ts ≠ [] := by
        rintro rfl
        simp [(h.last t rfl).1] at htrivia
      exact ih h.tail hnil hwritten c k
  | case6 depth l t ts htrivia hselect ih =>
      obtain ⟨-, hkeyword⟩ : depth = 0 ∧ t.is .SELECT := by simpa using hselect
      have hrest := EndsWritten.of_append [l.close] hwritten (cutFrom_ne_nil 0 (.inl rfl))
      rw [List.flatMap_cons]
      refine Columns.endsSolid_write_append (fun c k => ?_) c k _
      exact endsSolid_cutFrom_select h.spelled_head hkeyword (fun hnil => ih h.tail hnil hrest) c k
  | case7 depth l t ts htrivia hselect hcomma ih =>
      by_cases hnil : ts = []
      · subst hnil
        have hfragments : (l.next t).close.fragments =
            (l.fragments ++ [.position (position l.terms)]) ++
              ([.text t.text] ++ closing (some (position []))) := by
          rw [OpenList.fragments_close]
          simp [OpenList.next, OpenList.fragments, Item.fragments]
        rw [cutFrom, List.flatMap_singleton, hfragments]
        refine Columns.endsSolid_write_append (fun c k => ?_) c k _
        exact c.endsSolid_write_start k (h.endsSolid_head rfl) [] (.inl rfl)
      · exact ih h.tail hnil hwritten c k
  | case8 depth l t ts htrivia hselect hcomma hends x ih =>
      have hrest := EndsWritten.of_append [l.close] hwritten (List.cons_ne_nil _ _)
      rw [List.flatMap_cons]
      refine Columns.endsSolid_write_append (fun c k => ?_) c k _
      exact endsSolid_outside_cutFrom hrest (endsSolid_plainTermAt h) (ih (h.drop _)) c k
  | case9 depth l t ts htrivia hselect hcomma hends x ih =>
      by_cases hnil : ts.drop x.rest.length = []
      · have hlast : lastTerm? [(l.add x).close] = some x := by
          rw [lastTerm?_close, OpenList.add, List.getLast?_concat]
        rw [hnil, cutFrom] at hwritten
        have hx : endsSolid x.text := l.endsSolid_termAt h hnil (hwritten x hlast)
        rw [hnil, cutFrom, List.flatMap_singleton, OpenList.fragments_close_add]
        refine Columns.endsSolid_write_append (fun c k => ?_) c k _
        exact c.endsSolid_write_closing k ((position l.terms).endsSolid_write_add hx)
      · exact ih (h.drop _) hnil hwritten c k

/-- The text of an arm ends with neither a blank character nor a semicolon, if its last term is
written. -/
theorem Columns.endsSolid_convert (c : Columns) {arm : List Token} (harm : Ended arm)
    (hne : arm ≠ []) (hwritten : EndsWritten (cut arm)) : endsSolid (c.convert arm).1 := by
  rw [convert, read_eq_cut]
  exact endsSolid_cutFrom none harm hne hwritten c 0

end View

end SqlMigration
