import SqlMigration.Proofs.View.Cut

/-! # White space around an arm

What is read before and after an arm is copied, and changes nothing in between. This holds for
every arm that closes its parentheses, but for two ends: `TOP` that has no count, and a name and an
equals sign that have no value. These go on to look for one, and what they pass over is lost.
-/

namespace SqlMigration.View

/-! ## Terms -/

/-- Whether the term passes over all trivia behind it, if nothing else is there. -/
def Term.looksOn (x : Term) : Bool :=
  match x.role with
  | .clause => x.head.is .TOP && (skipTrivia x.rest).isEmpty
  | .target _ => true
  | _ => false

/-- Whether an arm that has these parts ends with a term that looks on. -/
def looksOn (parts : List Part) : Bool := (lastTerm? parts).any Term.looksOn

theorem drop_length_take (ts : List Token) (n : Nat) : ts.drop (ts.take n).length = ts.drop n := by
  rw [List.length_take]
  rcases Nat.le_total n ts.length with hle | hle
  · rw [Nat.min_eq_left hle]
  · rw [Nat.min_eq_right hle, List.drop_of_length_le hle, List.drop_length]

theorem countLength_le (ts : List Token) : countLength ts ≤ ts.length := by
  unfold countLength
  split
  · exact Nat.le_refl _
  · rename_i u rest hskip
    have hlen := triviaLength_add_length_skipTrivia ts
    rw [hskip, List.length_cons] at hlen
    split
    · rename_i hu
      have hgroup := groupEnd_cons_le hu rest
      omega
    · omega

theorem countLength_append {ts : List Token} (hne : skipTrivia ts ≠ [])
    (h : openAfter 0 ts = 0) (us : List Token) : countLength (ts ++ us) = countLength ts := by
  unfold countLength
  rw [skipTrivia_append us hne, triviaLength_append us hne]
  cases hskip : skipTrivia ts with
  | nil => exact absurd hskip hne
  | cons u rest =>
      rw [openAfter_of_skipTrivia 0 hskip] at h
      simp only [List.cons_append]
      by_cases hu : u.kind = .leftParen
      · simp only [Token.depthAfter, hu] at h
        simp only [hu, if_true, groupEnd_append hu h us]
      · simp only [hu, if_false]

theorem openAfter_drop_countLength {ts : List Token} (h : openAfter 0 ts = 0) :
    openAfter 0 (ts.drop (countLength ts)) = 0 := by
  unfold countLength
  split
  · simp
  · rename_i u rest hskip
    obtain ⟨gap, rfl, hgap, hlen, -⟩ := eq_append_of_skipTrivia hskip
    rw [openAfter_of_skipTrivia 0 hskip] at h
    rw [hlen, drop_gap]
    split
    · rename_i hu
      simp only [Token.depthAfter, hu] at h
      obtain ⟨i, -, hend, hrest⟩ := exists_groupEnd hu h
      rwa [hend]
    · rename_i hu
      rwa [depthAfter_zero hu] at h

theorem skipTrivia_ne_nil_of_firstSignificant? {ts : List Token} {p : Token → Bool}
    (h : (firstSignificant? ts).any p) : skipTrivia ts ≠ [] := by
  intro hnil
  simp [firstSignificant?, hnil] at h

/-- What is left after a token behind trivia and the trivia after it. -/
theorem drop_target (ts : List Token) :
    ts.drop (triviaLength ts + 1 + triviaLength (skipTrivia ts).tail) =
      skipTrivia (skipTrivia ts).tail := by
  rw [← List.drop_drop, ← List.drop_drop, drop_triviaLength, List.drop_one, drop_triviaLength]

section Gap

variable {gap : List Token} (hgap : ∀ t ∈ gap, t.isTrivia) {t : Token} {ts : List Token}

include hgap

theorem plainTermAt_append_trivia {depth : Nat} (h : openAfter depth ts = 0) :
    plainTermAt t (ts ++ gap) = plainTermAt t ts := by
  have hlen : plainLength t (ts ++ gap) = plainLength t ts := by
    rw [plainLength, plainLength, startsWithDbo_append_trivia hgap,
      Expression.callLength_append_trivia hgap h]
  have hle : plainLength t ts ≤ ts.length := by
    rw [plainLength]
    split
    · rename_i hdbo
      obtain ⟨d, rest, rfl, -⟩ := eq_cons_of_startsWithDbo hdbo
      exact Nat.le_add_left 1 _
    · split
      · exact Expression.callLength_le ts
      · exact Nat.zero_le _
  rw [plainTermAt, plainTermAt, hlen, List.take_append_of_le_length hle]

/-- Trivia changes the last term of an arm only if that term looks on. -/
theorem termAt_append_trivia (xs : List Term) (hopen : openAfter 0 ts = 0)
    (h : (termAt xs t ts).looksOn = false ∨ ts.drop (termAt xs t ts).rest.length ≠ []) :
    termAt xs t (ts ++ gap) = termAt xs t ts := by
  have hfirst := firstSignificant?_append_trivia hgap ts
  have hdbo' := startsWithDbo_append_trivia hgap t ts
  revert h
  fun_cases termAt xs t ts with
  | case1 htop =>
      intro h
      have hts : skipTrivia ts ≠ [] := by
        intro hnil
        have hcount : countLength ts = ts.length := by simp [countLength, hnil]
        simp [Term.looksOn, (Bool.and_eq_true_iff.mp htop).1, hcount, hnil] at h
      rw [termAt, if_pos htop, countLength_append hts hopen,
        List.take_append_of_le_length (countLength_le ts)]
  | case2 htop hall =>
      intro _
      rw [termAt, if_neg htop, if_pos hall]
  | case3 htop hall has u hu hname =>
      intro _
      have hskip : skipTrivia ts ≠ [] := by
        rintro hnil
        simp [firstSignificant?, hnil] at hu
      have hle : triviaLength ts + 1 ≤ ts.length := triviaLength_lt hskip
      simp only [termAt, if_neg htop, if_neg hall, if_pos has, hfirst, hu, if_pos hname,
        triviaLength_append gap hskip, List.take_append_of_le_length hle]
  | case4 htop hall has u hu hname =>
      intro _
      simp only [termAt, if_neg htop, if_neg hall, if_pos has, hfirst, hu, if_neg hname]
  | case5 htop hall has hnone =>
      intro _
      simp only [termAt, if_neg htop, if_neg hall, if_pos has, hfirst, hnone]
  | case6 htop hall has hcall =>
      intro _
      rw [termAt, if_neg htop, if_neg hall, if_neg has, if_pos hcall,
        Expression.callLength_append_trivia hgap hopen,
        List.take_append_of_le_length (Expression.callLength_le ts)]
  | case7 htop hall has hcall hdbo =>
      intro _
      rw [termAt, if_neg htop, if_neg hall, if_neg has, if_neg hcall, hdbo', if_pos hdbo]
      obtain ⟨d, rest, rfl, -⟩ := eq_cons_of_startsWithDbo hdbo
      rfl
  | case8 htop hall has hcall hdbo hident htarget =>
      intro h
      have hskip := skipTrivia_ne_nil_of_firstSignificant? (Bool.and_eq_true_iff.mp htarget).2
      have hafter : skipTrivia (skipTrivia ts).tail ≠ [] := by
        have hdrop := h.resolve_left (by simp [Term.looksOn])
        rwa [drop_length_take, drop_target] at hdrop
      have htail : (skipTrivia (ts ++ gap)).tail = (skipTrivia ts).tail ++ gap := by
        rw [skipTrivia_append gap hskip, List.tail_append_of_ne_nil hskip]
      have hle : triviaLength ts + 1 + triviaLength (skipTrivia ts).tail ≤ ts.length := by
        have hlen := triviaLength_add_length_skipTrivia ts
        have hlt := triviaLength_lt hskip
        have hrest := triviaLength_lt hafter
        rw [List.length_tail] at hrest
        omega
      rw [termAt, if_neg htop, if_neg hall, if_neg has, if_neg hcall, hdbo', if_neg hdbo,
        if_pos hident, hfirst, if_pos htarget, htail, triviaLength_append gap hskip,
        triviaLength_append gap hafter, List.take_append_of_le_length hle]
  | case9 htop hall has hcall hdbo hident htarget hvalue =>
      intro _
      rw [termAt, if_neg htop, if_neg hall, if_neg has, if_neg hcall, hdbo', if_neg hdbo,
        if_pos hident, hfirst, if_neg htarget, if_pos hvalue]
  | case10 htop hall has hcall hdbo hident htarget hvalue =>
      intro _
      rw [termAt, if_neg htop, if_neg hall, if_neg has, if_neg hcall, hdbo', if_neg hdbo,
        if_pos hident, hfirst, if_neg htarget, if_neg hvalue]
  | case11 htop hall has hcall hdbo hident hstar =>
      intro _
      rw [termAt, if_neg htop, if_neg hall, if_neg has, if_neg hcall, hdbo', if_neg hdbo,
        if_neg hident, if_pos hstar]
  | case12 htop hall has hcall hdbo hident hstar =>
      intro _
      rw [termAt, if_neg htop, if_neg hall, if_neg has, if_neg hcall, hdbo', if_neg hdbo,
        if_neg hident, if_neg hstar]

/-- A term at the end of an arm that looks on takes in the trivia behind it, and is written as it
was without it. -/
theorem termAt_append_of_looksOn (xs : List Term) (h : (termAt xs t ts).looksOn)
    (hall : ts.drop (termAt xs t ts).rest.length = []) (p : Position) :
    (ts ++ gap).drop (termAt xs t (ts ++ gap)).rest.length = [] ∧
      p.add (termAt xs t (ts ++ gap)) = p.add (termAt xs t ts) := by
  have hfirst := firstSignificant?_append_trivia hgap ts
  have hdbo' := startsWithDbo_append_trivia hgap t ts
  revert h hall
  fun_cases termAt xs t ts with
  | case1 htop =>
      intro h hall
      rw [drop_length_take, List.drop_eq_nil_iff] at hall
      have hskip : skipTrivia ts = [] := by
        simpa [Term.looksOn, (Bool.and_eq_true_iff.mp htop).1, List.take_of_length_le hall] using h
      have hskip' : skipTrivia (ts ++ gap) = [] := skipTrivia_append_trivia hgap hskip
      have hcount : countLength (ts ++ gap) = (ts ++ gap).length := by
        simp [countLength, hskip']
      rw [termAt, if_pos htop, hcount, List.take_length, List.drop_length,
        List.take_of_length_le hall]
      refine ⟨rfl, ?_⟩
      simp [Position.add_clause, Term.text, hskip, hskip']
  | case8 htop hall' has hcall hdbo hident htarget =>
      intro _ hall
      have hskip := skipTrivia_ne_nil_of_firstSignificant? (Bool.and_eq_true_iff.mp htarget).2
      rw [drop_length_take, drop_target] at hall
      have hafter : skipTrivia (skipTrivia (ts ++ gap)).tail = [] := by
        rw [skipTrivia_append gap hskip, List.tail_append_of_ne_nil hskip]
        exact skipTrivia_append_trivia hgap hall
      rw [termAt, if_neg htop, if_neg hall', if_neg has, if_neg hcall, hdbo', if_neg hdbo,
        if_pos hident, hfirst, if_pos htarget, drop_length_take, drop_target]
      exact ⟨hafter, by rw [Position.add_target, Position.add_target]⟩
  | case2 htop hall' =>
      intro h _
      simp_all [Term.looksOn]
  | case3 | case4 | case5 | case6 | case7 | case9 | case10 | case11 | case12 =>
      intro h _
      cases h

end Gap

theorem openAfter_drop_plainTermAt {depth : Nat} (t : Token) {ts : List Token}
    (h : openAfter depth ts = 0) :
    openAfter depth (ts.drop (plainTermAt t ts).rest.length) = 0 := by
  rw [plainTermAt, drop_length_take, plainLength]
  split
  · rename_i hdbo
    rwa [openAfter_drop_qualifier hdbo]
  · split
    · exact Expression.openAfter_drop_callLength h
    · exact h

theorem openAfter_drop_termAt (xs : List Term) (t : Token) {ts : List Token}
    (h : openAfter 0 ts = 0) : openAfter 0 (ts.drop (termAt xs t ts).rest.length) = 0 := by
  -- A token that opens no parenthesis leaves none open.
  have hskip {u : Token} {rest : List Token} (hskip : skipTrivia ts = u :: rest)
      (hu : u.kind ≠ .leftParen) : openAfter 0 rest = 0 ∧ ts.drop (triviaLength ts + 1) = rest := by
    obtain ⟨gap, rfl, -, hlen, -⟩ := eq_append_of_skipTrivia hskip
    rw [openAfter_of_skipTrivia 0 hskip, depthAfter_zero hu] at h
    exact ⟨h, by rw [hlen]; exact drop_gap gap u rest 0⟩
  fun_cases termAt xs t ts with
  | case1 htop =>
      rw [drop_length_take]
      exact openAfter_drop_countLength h
  | case2 | case4 | case5 | case9 | case10 | case11 | case12 => exact h
  | case3 htop hall has u hu hname =>
      rw [drop_length_take]
      cases hts : skipTrivia ts with
      | nil => simp [firstSignificant?, hts] at hu
      | cons v rest =>
          obtain rfl : v = u := by simpa [firstSignificant?, hts] using hu
          have hleft : v.kind ≠ .leftParen := by
            intro hkind
            simp [hkind, Kind.isIdentifier, Kind.identifiers, Kind.isString] at hname
          obtain ⟨hrest, hdrop⟩ := hskip hts hleft
          rwa [hdrop]
  | case6 htop hall has hcall =>
      rw [drop_length_take]
      exact Expression.openAfter_drop_callLength h
  | case7 htop hall has hcall hdbo =>
      rwa [drop_length_take, openAfter_drop_qualifier hdbo]
  | case8 htop hall has hcall hdbo hident htarget =>
      rw [drop_length_take]
      cases hts : skipTrivia ts with
      | nil => simp [firstSignificant?, hts] at htarget
      | cons v rest =>
          have hkind : v.kind = .eq := by
            simpa [firstSignificant?, hts] using (Bool.and_eq_true_iff.mp htarget).2
          obtain ⟨hrest, hdrop⟩ := hskip hts (by simp [hkind])
          rw [← List.drop_drop, hdrop, List.tail_cons]
          rwa [drop_triviaLength, openAfter_skipTrivia]

/-! ## Arms -/

variable {t : Token} {ts : List Token}

namespace OpenList

/-- A list takes its next term with regard to the position, or by itself. -/
theorem termAt_eq (l : OpenList) (depth : Nat) (t : Token) :
    (depth = 0 ∧ t.depthAfter 0 = 0 ∧ l.termAt depth t = View.termAt l.terms t) ∨
      l.termAt depth t = plainTermAt t := by
  cases hfree : depth = 0 && t.kind ≠ .leftParen && t.kind ≠ .rightParen with
  | true =>
      left
      obtain ⟨⟨rfl, hleft⟩, hright⟩ :
          (depth = 0 ∧ t.kind ≠ .leftParen) ∧ t.kind ≠ .rightParen := by simpa using hfree
      refine ⟨rfl, by simp [Token.depthAfter], ?_⟩
      funext ts
      exact if_pos hfree
  | false =>
      right
      funext ts
      exact if_neg (by rw [hfree]; exact Bool.false_ne_true)

variable (l : OpenList) {depth : Nat} {gap : List Token}

theorem termAt_append_trivia (hgap : ∀ t ∈ gap, t.isTrivia) (hopen : openAfter depth (t :: ts) = 0)
    (h : (l.termAt depth t ts).looksOn = false ∨ ts.drop (l.termAt depth t ts).rest.length ≠ []) :
    l.termAt depth t (ts ++ gap) = l.termAt depth t ts := by
  rw [openAfter_cons] at hopen
  rcases l.termAt_eq depth t with ⟨rfl, hfree, hterm⟩ | hterm
  · rw [hfree] at hopen
    rw [hterm] at h ⊢
    exact View.termAt_append_trivia hgap l.terms hopen h
  · rw [hterm]
    exact plainTermAt_append_trivia hgap hopen

theorem openAfter_drop_termAt (hopen : openAfter depth (t :: ts) = 0) :
    openAfter (t.depthAfter depth) (ts.drop (l.termAt depth t ts).rest.length) = 0 := by
  rw [openAfter_cons] at hopen
  rcases l.termAt_eq depth t with ⟨rfl, hfree, hterm⟩ | hterm
  · rw [hfree] at hopen
    rw [hterm, hfree]
    exact View.openAfter_drop_termAt l.terms t hopen
  · rw [hterm]
    exact openAfter_drop_plainTermAt t hopen

theorem fragments_close :
    l.close.fragments = l.fragments ++ closing (some (position l.terms)) := by
  simp [OpenList.close, Part.fragments, OpenList.fragments, Item.fragments, closing]

theorem fragments_close_add (x : Term) :
    (l.add x).close.fragments = l.fragments ++ closing (some ((position l.terms).add x)) := by
  rw [fragments_close, add, position_concat]
  rfl

/-- A list whose last term looks on is closed as it is without the trivia behind it. -/
theorem fragments_close_add_append (hgap : ∀ t ∈ gap, t.isTrivia)
    (h : (l.termAt depth t ts).looksOn) (hall : ts.drop (l.termAt depth t ts).rest.length = []) :
    (ts ++ gap).drop (l.termAt depth t (ts ++ gap)).rest.length = [] ∧
      (l.add (l.termAt depth t (ts ++ gap))).close.fragments =
        (l.add (l.termAt depth t ts)).close.fragments := by
  rcases l.termAt_eq depth t with ⟨-, -, hterm⟩ | hterm
  · rw [hterm] at h hall ⊢
    obtain ⟨hdrop, hadd⟩ := termAt_append_of_looksOn hgap l.terms h hall (position l.terms)
    rw [fragments_close_add, fragments_close_add, hadd]
    exact ⟨hdrop, rfl⟩
  · rw [hterm] at h
    cases h

end OpenList

theorem length_rest_le {x : Term} (h : x.Starts t ts) : x.rest.length ≤ ts.length :=
  h.rest_prefix.length_le

namespace Columns

/-- Fragments are written one after another; of the first ones only the number of positions and
the names matter for the others. -/
theorem exists_write_append (c : Columns) (k : Nat) (fs : List Fragment) :
    ∃ k', ∀ gs, c.write k (fs ++ gs) =
      ((c.write k fs).1 ++ ((c.write k fs).2.write k' gs).1, ((c.write k fs).2.write k' gs).2) := by
  induction fs generalizing c k with
  | nil => exact ⟨k, fun gs => rfl⟩
  | cons f fs ih =>
      cases f with
      | text s =>
          obtain ⟨k', hk⟩ := ih c k
          exact ⟨k', fun gs => by simp [write, hk gs]⟩
      | listStart =>
          obtain ⟨k', hk⟩ := ih c 0
          exact ⟨k', fun gs => by simp [write, hk gs]⟩
      | listEnd =>
          obtain ⟨k', hk⟩ := ih { c with first := false } k
          exact ⟨k', fun gs => by simp [write, hk gs]⟩
      | position p =>
          cases hcontent : p.hasContent with
          | false =>
              obtain ⟨k', hk⟩ := ih c k
              exact ⟨k', fun gs => by simp [write, hcontent, hk gs]⟩
          | true =>
              cases hfirst : c.first with
              | true =>
                  obtain ⟨k', hk⟩ := ih { c with names := c.names ++ [p.name?] } k
                  rw [hfirst] at hk
                  exact ⟨k', fun gs => by simp [write, hcontent, hfirst, hk gs]⟩
              | false =>
                  obtain ⟨k', hk⟩ := ih c (k + 1)
                  exact ⟨k', fun gs => by simp [write, hcontent, hfirst, hk gs]⟩

theorem write_closing_space (c : Columns) (k : Nat) (p : Position) (s : Text) :
    c.write k (closing (some (p.space s))) =
      ((c.write k (closing (some p))).1 ++ s, (c.write k (closing (some p))).2) := by
  have halias : c.aliasFor? k (p.space s) = c.aliasFor? k p := rfl
  have hname : (p.space s).name? = p.name? := rfl
  have htext (added : Option Text) : (p.space s).write added = p.write added ++ s := by
    simp [Position.write, Position.space]
  have hcontent : (p.space s).hasContent = p.hasContent := rfl
  simp only [closing, write, hcontent, halias, hname, htext]
  split
  · split <;> simp
  · simp

end Columns

theorem cutFrom_none_trivia (ht : t.isTrivia) (depth : Nat) (ts : List Token) :
    cutFrom depth none (t :: ts) = .outside ⟨.value, t, []⟩ :: cutFrom depth none ts := by
  rw [cutFrom, if_neg (by simp [is_of_isTrivia ht])]
  simp only [plainTermAt_of_isTrivia ht, depthAfter_of_isTrivia ht]
  rfl

theorem cutFrom_some_trivia (ht : t.isTrivia) (depth : Nat) (l : OpenList) (ts : List Token) :
    cutFrom depth (some l) (t :: ts) = cutFrom depth (some (l.add ⟨.gap, t, []⟩)) ts := by
  rw [cutFrom, if_pos ht]

theorem fragments_outside_trivia (ht : t.isTrivia) :
    (Part.outside ⟨.value, t, []⟩).fragments = [.text t.text] := by
  have htext : (Term.mk .value t []).text = t.text := plainText_of_isTrivia ht
  rw [Part.fragments, htext]

/-- Trivia before an arm is written there. -/
theorem write_trivia_cutFrom (c : Columns) (k : Nat) {gap : List Token}
    (hgap : ∀ t ∈ gap, t.isTrivia) (ts : List Token) :
    c.write k ((cutFrom 0 none (gap ++ ts)).flatMap Part.fragments) =
      (joinText gap ++ (c.write k ((cutFrom 0 none ts).flatMap Part.fragments)).1,
        (c.write k ((cutFrom 0 none ts).flatMap Part.fragments)).2) := by
  induction gap with
  | nil => rfl
  | cons t gap ih =>
      obtain ⟨ht, hgap⟩ := List.forall_mem_cons.mp hgap
      rw [List.cons_append, cutFrom_none_trivia ht, List.flatMap_cons, fragments_outside_trivia ht,
        List.singleton_append, Columns.write, ih hgap, joinText_cons, List.append_assoc]

/-- Trivia at the end of an arm is written there. -/
theorem write_cutFrom_trivia (c : Columns) (k : Nat) (l : Option OpenList) {gap : List Token}
    (hgap : ∀ t ∈ gap, t.isTrivia) :
    c.write k ((cutFrom 0 l gap).flatMap Part.fragments) =
      ((c.write k ((cutFrom 0 l []).flatMap Part.fragments)).1 ++ joinText gap,
        (c.write k ((cutFrom 0 l []).flatMap Part.fragments)).2) := by
  cases l with
  | none =>
      have h := write_trivia_cutFrom c k hgap []
      rw [List.append_nil] at h
      rw [h, cutFrom]
      simp [Columns.write]
  | some l =>
      induction gap generalizing l with
      | nil => simp
      | cons t gap ih =>
          obtain ⟨ht, hgap⟩ := List.forall_mem_cons.mp hgap
          obtain ⟨k', hk⟩ := c.exists_write_append k l.fragments
          rw [cutFrom_some_trivia ht, ih hgap]
          simp only [cutFrom, List.flatMap_cons, List.flatMap_nil, List.append_nil]
          rw [OpenList.fragments_close_add, OpenList.fragments_close, Position.add_gap, hk,
            hk, Columns.write_closing_space]
          simp only [joinText_cons, List.append_assoc]

/-- Trivia behind the tokens of an arm is written behind their text, unless the last term looks
on. -/
def WritesGap (gap : List Token) (depth : Nat) (l : Option OpenList) (ts : List Token) : Prop :=
  ∀ (c : Columns) (k : Nat),
    c.write k ((cutFrom depth l (ts ++ gap)).flatMap Part.fragments) =
      ((c.write k ((cutFrom depth l ts).flatMap Part.fragments)).1 ++
          (if looksOn (cutFrom depth l ts) then [] else joinText gap),
        (c.write k ((cutFrom depth l ts).flatMap Part.fragments)).2)

section WritesGap

variable {gap : List Token} {depth depth' : Nat} {l l' : Option OpenList} {ts' : List Token}

theorem looksOn_append (ps : List Part) {qs : List Part} (hqs : qs ≠ []) :
    looksOn (ps ++ qs) = looksOn qs := by
  rw [looksOn, looksOn, lastTerm?_append ps hqs]

theorem looksOn_cutFrom_none (depth : Nat) : looksOn (cutFrom depth none []) = false := by
  rw [cutFrom]
  rfl

theorem looksOn_cutFrom_some (depth : Nat) (l : OpenList) :
    looksOn (cutFrom depth (some l) []) = l.terms.getLast?.any Term.looksOn := by
  rw [cutFrom, looksOn, lastTerm?_close]

/-- What holds of the tokens after the parts `ps` holds with these. -/
theorem WritesGap.of_parts (ps : List Part) (h : WritesGap gap depth' l' ts')
    (hparts : cutFrom depth l ts = ps ++ cutFrom depth' l' ts')
    (hparts' : cutFrom depth l (ts ++ gap) = ps ++ cutFrom depth' l' (ts' ++ gap))
    (hlook : looksOn (ps ++ cutFrom depth' l' ts') = looksOn (cutFrom depth' l' ts')) :
    WritesGap gap depth l ts := by
  intro c k
  obtain ⟨k', hk⟩ := c.exists_write_append k (ps.flatMap Part.fragments)
  rw [hparts', hparts, hlook, List.flatMap_append, List.flatMap_append, hk, hk, h]
  simp only [List.append_assoc]

theorem looksOn_outside (x : Term) (hx : x.looksOn = false) (ps : List Part) (ts : List Token) :
    looksOn (ps ++ [.outside x] ++ cutFrom depth none ts) = looksOn (cutFrom depth none ts) := by
  by_cases hnil : ts = []
  · subst hnil
    rw [cutFrom, List.append_nil, looksOn_append ps (List.cons_ne_nil _ _)]
    exact hx
  · exact looksOn_append _ (cutFrom_ne_nil depth (.inr hnil))

/-- A list whose last term looks on passes over the trivia behind it. -/
theorem WritesGap.of_looksOn {l : OpenList} (hgap : ∀ t ∈ gap, t.isTrivia)
    (hcut : ∀ us, cutFrom depth (some l) (t :: us) =
      cutFrom depth' (some (l.add (l.termAt depth t us)))
        (us.drop (l.termAt depth t us).rest.length))
    (hlook : (l.termAt depth t ts).looksOn)
    (hall : ts.drop (l.termAt depth t ts).rest.length = []) :
    WritesGap gap depth (some l) (t :: ts) := by
  obtain ⟨hdrop, hfragments⟩ := l.fragments_close_add_append hgap hlook hall
  have hlooks : looksOn [(l.add (l.termAt depth t ts)).close] := by
    rw [looksOn, lastTerm?_close, OpenList.add, List.getLast?_concat]
    exact hlook
  intro c k
  rw [List.cons_append, hcut, hcut, hdrop, hall, cutFrom, cutFrom, hlooks]
  simp only [List.flatMap_singleton, hfragments, if_true, List.append_nil]

theorem writesGap_cutFrom (hgap : ∀ t ∈ gap, t.isTrivia) (hopen : openAfter depth ts = 0)
    (hend : ts = [] → looksOn (cutFrom depth l []) = false) : WritesGap gap depth l ts := by
  fun_induction cutFrom depth l ts with
  | case1 depth =>
      obtain rfl : depth = 0 := hopen
      intro c k
      rw [hend rfl]
      exact write_cutFrom_trivia c k none hgap
  | case2 depth l =>
      obtain rfl : depth = 0 := hopen
      intro c k
      rw [hend rfl]
      exact write_cutFrom_trivia c k (some l) hgap
  | case3 depth t ts hselect ih =>
      obtain ⟨rfl, hkeyword⟩ : depth = 0 ∧ t.is .SELECT := by simpa using hselect
      rw [openAfter_cons, depthAfter_of_is hkeyword] at hopen
      have hcut (us : List Token) :
          cutFrom 0 none (t :: us) = [] ++ cutFrom 0 (some { select := t }) us := by
        rw [cutFrom, if_pos hselect, List.nil_append]
      exact (ih hopen fun _ => looksOn_cutFrom_some 0 _).of_parts [] (hcut ts) (hcut _) rfl
  | case4 depth t ts hselect x ih =>
      have hx : plainTermAt t (ts ++ gap) = x := plainTermAt_append_trivia hgap hopen
      have hle : x.rest.length ≤ ts.length := length_rest_le (starts_plainTermAt t ts)
      have hcut (us : List Token) : cutFrom depth none (t :: us) =
          [.outside (plainTermAt t us)] ++
            cutFrom (t.depthAfter depth) none (us.drop (plainTermAt t us).rest.length) := by
        rw [cutFrom, if_neg hselect]
        rfl
      refine (ih (openAfter_drop_plainTermAt t hopen) fun _ => looksOn_cutFrom_none _).of_parts
        [.outside x] (hcut ts) ?_ (looksOn_outside x rfl [] _)
      rw [List.cons_append, hcut, hx, List.drop_append_of_le_length hle]
  | case5 depth l t ts htrivia ih =>
      rw [openAfter_cons, depthAfter_of_isTrivia htrivia] at hopen
      have hcut (us : List Token) := cutFrom_some_trivia htrivia depth l us
      refine (ih hopen fun _ => ?_).of_parts [] (hcut ts) (hcut _) rfl
      rw [looksOn_cutFrom_some, OpenList.add, List.getLast?_concat]
      rfl
  | case6 depth l t ts htrivia hselect ih =>
      obtain ⟨rfl, hkeyword⟩ : depth = 0 ∧ t.is .SELECT := by simpa using hselect
      rw [openAfter_cons, depthAfter_of_is hkeyword] at hopen
      have hcut (us : List Token) : cutFrom 0 (some l) (t :: us) =
          [l.close] ++ cutFrom 0 (some { select := t }) us := by
        rw [cutFrom, if_neg htrivia, if_pos hselect]
        rfl
      exact (ih hopen fun _ => looksOn_cutFrom_some 0 _).of_parts [l.close] (hcut ts) (hcut _)
        (looksOn_append _ (cutFrom_ne_nil 0 (.inl rfl)))
  | case7 depth l t ts htrivia hselect hcomma ih =>
      obtain ⟨rfl, hkind⟩ : depth = 0 ∧ t.kind = .comma := by simpa using hcomma
      have hdepth : t.depthAfter 0 = 0 := by simp [Token.depthAfter, hkind]
      rw [openAfter_cons, hdepth] at hopen
      have hcut (us : List Token) :
          cutFrom 0 (some l) (t :: us) = [] ++ cutFrom 0 (some (l.next t)) us := by
        rw [cutFrom, if_neg htrivia, if_neg hselect, if_pos hcomma, List.nil_append]
      exact (ih hopen fun _ => looksOn_cutFrom_some 0 _).of_parts [] (hcut ts) (hcut _) rfl
  | case8 depth l t ts htrivia hselect hcomma hends x ih =>
      have hx : plainTermAt t (ts ++ gap) = x := plainTermAt_append_trivia hgap hopen
      have hle : x.rest.length ≤ ts.length := length_rest_le (starts_plainTermAt t ts)
      have hcut (us : List Token) : cutFrom depth (some l) (t :: us) =
          [l.close, .outside (plainTermAt t us)] ++
            cutFrom (t.depthAfter depth) none (us.drop (plainTermAt t us).rest.length) := by
        rw [cutFrom, if_neg htrivia, if_neg hselect, if_neg hcomma, if_pos hends]
        rfl
      refine (ih (openAfter_drop_plainTermAt t hopen) fun _ => looksOn_cutFrom_none _).of_parts
        [l.close, .outside x] (hcut ts) ?_ (looksOn_outside x rfl [l.close] _)
      rw [List.cons_append, hcut, hx, List.drop_append_of_le_length hle]
  | case9 depth l t ts htrivia hselect hcomma hends x ih =>
      have hcut (us : List Token) : cutFrom depth (some l) (t :: us) =
          cutFrom (t.depthAfter depth) (some (l.add (l.termAt depth t us)))
            (us.drop (l.termAt depth t us).rest.length) := by
        rw [cutFrom, if_neg htrivia, if_neg hselect, if_neg hcomma, if_neg hends]
      by_cases hlast : x.looksOn ∧ ts.drop x.rest.length = []
      · exact WritesGap.of_looksOn hgap hcut hlast.1 hlast.2
      · have hstays : x.looksOn = false ∨ ts.drop x.rest.length ≠ [] := by
          cases hlook : x.looksOn with
          | false => exact .inl rfl
          | true => exact .inr fun hall => hlast ⟨hlook, hall⟩
        have hx : l.termAt depth t (ts ++ gap) = x := l.termAt_append_trivia hgap hopen hstays
        have hle : x.rest.length ≤ ts.length := length_rest_le (l.starts_termAt depth t ts)
        refine (ih (l.openAfter_drop_termAt hopen) fun hnil => ?_).of_parts [] (hcut ts) ?_ rfl
        · rw [looksOn_cutFrom_some, OpenList.add, List.getLast?_concat]
          exact hstays.resolve_right (not_not_intro hnil)
        · rw [List.cons_append, hcut, hx, List.drop_append_of_le_length hle, List.nil_append]

end WritesGap

/-- White space and comments around an arm stay where they are, unless the last term of the arm
looks on. -/
theorem Columns.convert_gap (c : Columns) {before arm after : List Token}
    (harm : openAfter 0 arm = 0) (hbefore : ∀ t ∈ before, t.isTrivia)
    (hafter : ∀ t ∈ after, t.isTrivia) :
    c.convert (before ++ arm ++ after) =
      (joinText before ++ (c.convert arm).1 ++
          (if looksOn (cut arm) then [] else joinText after), (c.convert arm).2) := by
  have hwrite : WritesGap after 0 none arm :=
    writesGap_cutFrom hafter harm fun _ => looksOn_cutFrom_none 0
  rw [convert, convert, read_eq_cut, read_eq_cut, cut, cut, List.append_assoc,
    write_trivia_cutFrom c 0 hbefore, hwrite]
  simp only [List.append_assoc]

end SqlMigration.View
