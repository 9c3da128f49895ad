import SqlMigration.Proofs.Token.Shape
import SqlMigration.Text.Parens

/-! # Cutting and joining flowing texts

A text may be trimmed, taken out of its parentheses and put between other texts. If it holds line
comments, it may lose its end as long as it keeps something after the last of them.
-/

namespace SqlMigration

namespace Text

theorem exists_append_trimEndWhere (p : Char → Bool) (s : Text) :
    ∃ b, s = trimEndWhere p s ++ b ∧ ∀ c ∈ b, p c := by
  refine ⟨(s.reverse.takeWhile p).reverse, ?_, ?_⟩
  · rw [trimEndWhere, ← List.reverse_append, List.takeWhile_append_dropWhile, List.reverse_reverse]
  · intro c hc
    exact List.all_eq_true.mp List.all_takeWhile c (List.mem_reverse.mp hc)

theorem trimEndWhere_sublist (p : Char → Bool) (s : Text) : (trimEndWhere p s).Sublist s := by
  obtain ⟨b, hs, -⟩ := exists_append_trimEndWhere p s
  conv => rhs; rw [hs]
  exact List.sublist_append_left _ _

theorem trimWhere_sublist (p : Char → Bool) (s : Text) : (trimWhere p s).Sublist s :=
  (trimEndWhere_sublist p _).trans (List.dropWhile_sublist p)

/-- Whether a dash right after the text may be taken for the sign of an exponent, in the text
itself or in what stands before it. -/
def takesDash (s : Text) : Bool :=
  match s.reverse with
  | [] => true
  | [c] => c = 'e' || c = 'E'
  | c :: d :: _ => (c = 'e' || c = 'E') && (d.isDigit || d = '.')

theorem eq_concat_of_dropFinal? {c : Char} {s r : Text} (h : dropFinal? c s = some r) :
    s = r ++ [c] := by
  unfold dropFinal? at h
  split at h
  · rename_i hlast
    cases h
    obtain ⟨r, rfl⟩ := List.getLast?_eq_some_iff.mp hlast
    rw [List.dropLast_concat]
  · cases h

theorem eq_of_betweenParens? {s inner : Text} (h : betweenParens? s = some inner) :
    s = '(' :: (inner ++ [')']) := by
  unfold betweenParens? at h
  split at h
  · rw [eq_concat_of_dropFinal? h]
  · cases h

end Text

namespace Token

open Text

theorem getLast?_commentLength? {depth : Nat} {s : Text}
    (h : commentLength? depth s = some s.length) : s.getLast? = some '/' := by
  fun_induction commentLength? depth s with
  | case1 => cases h
  | case2 => cases h
  | case3 depth c d s hopen ih =>
      obtain ⟨n, hn, hlength⟩ := Option.map_eq_some_iff.mp h
      have hs : commentLength? (depth + 1) s = some s.length := by
        rw [hn]
        simpa using hlength
      rw [List.getLast?_cons, List.getLast?_cons, ih hs]
      rfl
  | case4 c d s hopen hclose =>
      have hs : s = [] := by simpa using h
      simp only [Bool.and_eq_true, decide_eq_true_eq] at hclose
      rw [hs, hclose.2]
      rfl
  | case5 c d s hopen hclose depth ih =>
      obtain ⟨n, hn, hlength⟩ := Option.map_eq_some_iff.mp h
      have hs : commentLength? depth s = some s.length := by
        rw [hn]
        simpa using hlength
      rw [List.getLast?_cons, List.getLast?_cons, ih hs]
      rfl
  | case6 depth c d s hopen hclose ih =>
      obtain ⟨n, hn, hlength⟩ := Option.map_eq_some_iff.mp h
      have hs : commentLength? depth (d :: s) = some (d :: s).length := by
        rw [hn]
        simpa using hlength
      rw [List.getLast?_cons, ih hs]
      rfl

theorem getLast?_delimitedLength? {close : Char} {s : Text}
    (h : delimitedLength? close s = some s.length) : s.getLast? = some close := by
  have hlast := getLast?_take_delimitedLength? h
  rwa [List.take_length] at hlast

namespace Mode

/-- Whether a mode restricts line comments at most. -/
def isFirm : Mode → Bool
  | .dash | .slash | .line => false
  | _ => true

theorem isFirm_next (m : Mode) (c : Char) : (m.next c).isFirm := by
  unfold next
  split
  · rfl
  · split <;> rfl

theorem ne_line_of_isFirm {m : Mode} (h : m.isFirm) : m ≠ .line := by
  rintro rfl
  cases h

theorem next_ne_line (m : Mode) (c : Char) : m.next c ≠ .line := ne_line_of_isFirm (isFirm_next m c)

end Mode

/-- Line comments are not among the given ones. -/
def LineFree (P : Kind → Text → Prop) : Prop := ∀ s, ¬ P .lineComment s

namespace Flow

variable {P : Kind → Text → Prop} {m m' m₀ : Mode} {c : Char} {s a b : Text}

theorem ne_line (hP : LineFree P) (hm : m ≠ .line) (h : Flow P m s m') : m' ≠ .line := by
  induction h with
  | nil => exact hm
  | blank _ _ _ ih | lineEnd _ _ ih | star _ _ _ ih | dash _ _ _ ih | slash _ _ ih
    | quoted _ _ _ _ ih | block _ _ _ _ ih => exact ih (by decide)
  | @bare m _ c _ _ _ _ ih => exact ih (m.next_ne_line c)
  | comment _ hcomment _ _ => exact absurd hcomment (hP _)

/-- Without line comments, it does not matter which firm mode a text starts in. -/
theorem rebase (hP : LineFree P) (hm : m ≠ .line) (hfirm : m₀.isFirm) (h : Flow P m s m') :
    ∃ m₁, Flow P m₀ s m₁ := by
  have hne := Mode.ne_line_of_isFirm hfirm
  induction h generalizing m₀ with
  | nil => exact ⟨m₀, .nil⟩
  | blank _ hc h _ => exact ⟨_, .blank hne hc h⟩
  | lineEnd _ _ _ => exact absurd rfl hm
  | @bare m _ c _ _ hc _ ih =>
      obtain ⟨m₁, h₁⟩ := ih (m.next_ne_line c) (m₀.isFirm_next c) (m₀.next_ne_line c)
      exact ⟨m₁, .bare hne hc h₁⟩
  | star _ _ h _ =>
      refine ⟨_, .star hne ?_ h⟩
      rintro rfl
      cases hfirm
  | dash _ _ h _ =>
      refine ⟨_, .dash hne ?_ h⟩
      rintro rfl
      cases hfirm
  | slash _ h _ => exact ⟨_, .slash hne h⟩
  | quoted _ hq hbody h _ => exact ⟨_, .quoted hne hq hbody h⟩
  | block _ hcomment hbody h _ => exact ⟨_, .block hne hcomment hbody h⟩
  | comment _ hcomment _ _ => exact absurd hcomment (hP _)

theorem not_isBare_closer {q close : Char} (h : closer? q = some close) :
    isBlank close = false ∧ isBare close = false := by
  unfold closer? at h
  split at h
  · cases h; decide
  · cases h; decide
  · cases h; decide
  · cases h

/-- A piece that ends in neither a blank nor a bare character is cut off whole or not at all. -/
theorem eq_append_of_cut {body rest : Text} {mark : Char} (hlast : body.getLast? = some mark)
    (hmark : isBlank mark = false ∧ isBare mark = false) (heq : body ++ rest = a ++ b)
    (hb : ∀ c ∈ b, isBlank c ∨ isBare c) : ∃ a', a = body ++ a' ∧ rest = a' ++ b := by
  rcases List.append_eq_append_iff.mp heq with ⟨a', ha, hrest⟩ | ⟨cut, hbody, hb'⟩
  · exact ⟨a', ha, hrest⟩
  · cases cut with
    | nil => exact ⟨[], by simpa using hbody.symm, by simpa using hb'.symm⟩
    | cons d cut =>
        have hmem : mark ∈ b := by
          have hcut : (d :: cut).getLast? = some mark := by
            rw [hbody, List.getLast?_append, List.getLast?_cons, Option.some_or] at hlast
            rw [List.getLast?_cons, hlast]
          rw [hb']
          exact List.mem_append_left _ (List.mem_of_getLast? hcut)
        rcases hb mark hmem with h | h
        · simp [hmark.1] at h
        · simp [hmark.2] at h

theorem exists_of_cons {m₂ : Mode} (hstep : ∀ {s m'}, Flow P m₂ s m' → Flow P m (c :: s) m')
    (ih : ∀ {a}, a ++ b = s → ∃ m₁, Flow P m₂ a m₁) (htext : a ++ b = c :: s) :
    ∃ m₁, Flow P m a m₁ := by
  cases a with
  | nil => exact ⟨m, .nil⟩
  | cons d a =>
      rw [List.cons_append, List.cons.injEq] at htext
      obtain ⟨m₁, h₁⟩ := ih htext.2
      exact ⟨m₁, htext.1 ▸ hstep h₁⟩

/-- The start of a text flows if only blank and bare characters are cut off its end. -/
theorem of_append (hP : LineFree P) (h : Flow P m (a ++ b) m')
    (hb : ∀ c ∈ b, isBlank c ∨ isBare c) : ∃ m₁, Flow P m a m₁ := by
  generalize htext : a ++ b = text at h
  induction h generalizing a with
  | nil =>
      obtain ⟨rfl, rfl⟩ := List.append_eq_nil_iff.mp htext
      exact ⟨_, .nil⟩
  | blank hm hc _ ih => exact exists_of_cons (.blank hm hc) ih htext
  | lineEnd hc _ ih => exact exists_of_cons (.lineEnd hc) ih htext
  | bare hm hc _ ih => exact exists_of_cons (.bare hm hc) ih htext
  | star hm hslash _ ih => exact exists_of_cons (.star hm hslash) ih htext
  | dash hm hdash _ ih => exact exists_of_cons (.dash hm hdash) ih htext
  | slash hm _ ih => exact exists_of_cons (.slash hm) ih htext
  | quoted hm hq hbody _ ih =>
      cases a with
      | nil => exact ⟨_, .nil⟩
      | cons d a =>
          rw [List.cons_append, List.cons.injEq] at htext
          obtain ⟨a, rfl, hrest⟩ := eq_append_of_cut (getLast?_delimitedLength? hbody)
            (not_isBare_closer hq) htext.2.symm hb
          obtain ⟨m₁, h₁⟩ := ih hrest.symm
          exact ⟨m₁, htext.1 ▸ .quoted hm hq hbody h₁⟩
  | @block _ _ body rest hm hcomment hbody _ ih =>
      cases a with
      | nil => exact ⟨_, .nil⟩
      | cons d a =>
          rw [List.cons_append, List.cons.injEq] at htext
          have hlast : ('*' :: body).getLast? = some '/' := by
            rw [List.getLast?_cons, getLast?_commentLength? hbody]
            rfl
          obtain ⟨a, rfl, hrest⟩ := eq_append_of_cut hlast (by decide) htext.2.symm hb
          obtain ⟨m₁, h₁⟩ := ih hrest.symm
          exact ⟨m₁, htext.1 ▸ .block hm hcomment hbody h₁⟩
  | comment _ hcomment _ _ => exact absurd hcomment (hP _)

/-- A text between two marks that it does not hold is quoted. -/
theorem quote {q : Char} (hq : closer? q = some q) (hs : q ∉ s) (hm : m ≠ .line) :
    Flow P m (q :: s ++ [q]) .solid := by
  have hbody : delimitedLength? q (s ++ [q]) = some (s ++ [q]).length := by
    induction s with
    | nil => simp [delimitedLength?]
    | cons c s ih =>
        have hc : c ≠ q := fun h => hs (h ▸ List.mem_cons_self)
        have hrest : q ∉ s := fun h => hs (List.mem_cons_of_mem _ h)
        rw [List.cons_append, delimitedLength?_cons_of_ne hc, ih hrest]
        rfl
  simpa using Flow.quoted (P := P) hm hq hbody .nil

end Flow

/-! ## Runs of characters -/

theorem Flow.bares {P : Kind → Text → Prop} {m : Mode} {s : Text} (hm : m ≠ .line)
    (hs : ∀ c ∈ s, isBare c) : Flow P m s (s.foldl Mode.next m) := by
  induction s generalizing m with
  | nil => exact .nil
  | cons c s ih =>
      obtain ⟨hc, hs⟩ := List.forall_mem_cons.mp hs
      exact .bare hm hc (ih (m.next_ne_line c) hs)

theorem Mode.isFirm_foldl_next {m : Mode} {s : Text} (hs : s ≠ []) :
    (s.foldl Mode.next m).isFirm := by
  obtain ⟨r, c, rfl⟩ := (List.eq_nil_or_concat s).resolve_left hs
  rw [List.concat_eq_append, List.foldl_append]
  exact Mode.isFirm_next _ c

theorem Mode.foldl_next_ne_line {m : Mode} {s : Text} (hm : m ≠ .line) :
    s.foldl Mode.next m ≠ .line := by
  by_cases hs : s = []
  · rwa [hs]
  · exact ne_line_of_isFirm (isFirm_foldl_next hs)

theorem Mode.foldl_next_digits {m : Mode} {s : Text} (hne : s ≠ []) (hs : ∀ c ∈ s, c.isDigit) :
    s.foldl Mode.next m = .digit := by
  obtain ⟨r, c, rfl⟩ := (List.eq_nil_or_concat s).resolve_left hne
  rw [List.concat_eq_append] at hs ⊢
  rw [List.foldl_append]
  exact next_of_digit (by simp [hs c (by simp)])

theorem Mode.isBoundary_next {m : Mode} {c : Char} (h : m = .digit → (c = 'e' || c = 'E') = false) :
    (m.next c).isBoundary := by
  unfold Mode.next
  split
  · rfl
  · split
    · rename_i hletter
      simp only [Bool.and_eq_true, decide_eq_true_eq] at hletter
      exact absurd hletter.2 (by simp [h hletter.1])
    · rfl

theorem Mode.isBoundary_foldl_next {m : Mode} {s : Text} (hs : s.takesDash = false) :
    (s.foldl Mode.next m).isBoundary := by
  have hreverse : s = s.reverse.reverse := s.reverse_reverse.symm
  unfold takesDash at hs
  split at hs
  · cases hs
  · rename_i c hrev
    rw [hreverse, hrev]
    exact isBoundary_next fun _ => hs
  · rename_i c d r hrev
    rw [hreverse, hrev, List.reverse_cons, List.reverse_cons, List.foldl_append, List.foldl_append]
    refine isBoundary_next fun hdigit => ?_
    rcases Bool.and_eq_false_iff.mp hs with hc | hd
    · exact hc
    · change Mode.next _ d = .digit at hdigit
      unfold Mode.next at hdigit
      rw [if_neg (by simp [hd])] at hdigit
      split at hdigit <;> cases hdigit

theorem Flow.blanks {P : Kind → Text → Prop} {m : Mode} {s : Text} (hm : m ≠ .line) (hne : s ≠ [])
    (hs : ∀ c ∈ s, isBlank c) : Flow P m s .apart := by
  induction s generalizing m with
  | nil => exact absurd rfl hne
  | cons c s ih =>
      obtain ⟨hc, hs⟩ := List.forall_mem_cons.mp hs
      by_cases hnil : s = []
      · subst hnil
        exact .blank hm hc .nil
      · exact .blank hm hc (ih (by decide) hnil hs)

/-! ## Fixed texts -/

/-- The mode after a character outside quotes and comments, if it may stand there. -/
def Mode.step? (m : Mode) (c : Char) : Option Mode :=
  if m = .line then none
  else if isBlank c then some .apart
  else if isBare c then some (m.next c)
  else if c = '-' && m ≠ .dash then some .dash
  else if c = '*' && m ≠ .slash then some .solid
  else none

/-- The mode after a text that holds neither quotes nor comments. -/
def Mode.run? (m : Mode) : Text → Option Mode
  | [] => some m
  | c :: s => (m.step? c).bind fun m => m.run? s

theorem Flow.of_run? {P : Kind → Text → Prop} {m m' : Mode} {s : Text} (h : m.run? s = some m') :
    Flow P m s m' := by
  induction s generalizing m with
  | nil =>
      cases h
      exact .nil
  | cons c s ih =>
      obtain ⟨m₁, hstep, hrun⟩ := Option.bind_eq_some_iff.mp h
      have hrest := ih hrun
      unfold Mode.step? at hstep
      split at hstep
      · cases hstep
      rename_i hm
      split at hstep
      · rename_i hc
        cases hstep
        exact .blank hm hc hrest
      split at hstep
      · rename_i hc
        cases hstep
        exact .bare hm hc hrest
      split at hstep
      · rename_i hc
        simp only [Bool.and_eq_true, decide_eq_true_eq] at hc
        cases hstep
        exact hc.1 ▸ .dash hm hc.2 hrest
      split at hstep
      · rename_i hc
        simp only [Bool.and_eq_true, decide_eq_true_eq] at hc
        cases hstep
        exact hc.1 ▸ .star hm hc.2 hrest
      · cases hstep

/-- Whether a text leads to the same mode wherever it stands outside line comments. -/
def leadsTo (m' : Mode) (s : Text) : Bool :=
  [Mode.apart, .solid, .digit, .exponent, .dash, .slash].all fun m => m.run? s = some m'

theorem Flow.of_leadsTo {P : Kind → Text → Prop} {m m' : Mode} {s : Text} (h : leadsTo m' s)
    (hm : m ≠ .line) : Flow P m s m' := by
  refine .of_run? (of_decide_eq_true (List.all_eq_true.mp h m ?_))
  cases m with
  | line => exact absurd rfl hm
  | _ => decide

/-! ## Starting anew -/

theorem Mode.next_eq_or {m₀ : Mode} (h : m₀ = .apart ∨ m₀ = .solid) (m : Mode) (c : Char) :
    m₀.next c = m.next c ∨ m₀.next c = .solid := by
  have hdigit : m₀ ≠ .digit := by rcases h with rfl | rfl <;> decide
  unfold Mode.next
  by_cases hc : (c.isDigit || c = '.') = true
  · left
    rw [if_pos hc, if_pos hc]
  · right
    simp [hc, hdigit]

/-- A text may stand at the start and after something solid if it may stand anywhere. -/
theorem Flow.restart {P : Kind → Text → Prop} {m m' m₀ : Mode} {s : Text} (h : Flow P m s m')
    (hm : m ≠ .line) (hm' : m' ≠ .line) (hstart : m₀ = .apart ∨ m₀ = .solid) :
    ∃ m₁, m₁ ≠ .line ∧ Flow P m₀ s m₁ := by
  induction h generalizing m₀ with
  | nil =>
      refine ⟨m₀, ?_, .nil⟩
      rcases hstart with rfl | rfl <;> decide
  | @bare m m' c s _ hc h ih =>
      have hne : m₀ ≠ .line := by rcases hstart with rfl | rfl <;> decide
      rcases Mode.next_eq_or hstart m c with heq | heq
      · exact ⟨m', hm', .bare hne hc (heq ▸ h)⟩
      · obtain ⟨m₁, hm₁, h₁⟩ := ih (m.next_ne_line c) hm' (.inr heq)
        exact ⟨m₁, hm₁, .bare hne hc h₁⟩
  | lineEnd _ _ _ => exact absurd rfl hm
  | blank _ hc h _ => rcases hstart with rfl | rfl <;> exact ⟨_, hm', .blank (by decide) hc h⟩
  | star _ _ h _ => rcases hstart with rfl | rfl <;> exact ⟨_, hm', .star (by decide) (by decide) h⟩
  | dash _ _ h _ => rcases hstart with rfl | rfl <;> exact ⟨_, hm', .dash (by decide) (by decide) h⟩
  | slash _ h _ => rcases hstart with rfl | rfl <;> exact ⟨_, hm', .slash (by decide) h⟩
  | quoted _ hq hbody h _ =>
      rcases hstart with rfl | rfl <;> exact ⟨_, hm', .quoted (by decide) hq hbody h⟩
  | block _ hP hbody h _ =>
      rcases hstart with rfl | rfl <;> exact ⟨_, hm', .block (by decide) hP hbody h⟩
  | comment _ hP hbody h _ =>
      rcases hstart with rfl | rfl <;> exact ⟨_, hm', .comment rfl hP hbody h⟩

/-! ## Texts that can lose their ends -/

/-- What is cut off the end of a text besides blank space: the semicolons after a query, or the
parentheses around an argument. -/
inductive Ending where
  | query
  | argument

def Ending.mark : Ending → Char
  | .query => ';'
  | .argument => ')'

def Ending.cuts (e : Ending) (c : Char) : Bool := isBlank c || c = e.mark

theorem Ending.isBlank_or_isBare {e : Ending} {c : Char} (h : e.cuts c) : isBlank c ∨ isBare c := by
  rcases Bool.or_eq_true_iff.mp h with h | h
  · exact .inl h
  · right
    rw [of_decide_eq_true h]
    cases e <;> decide

theorem Ending.cuts_of_isBlank (e : Ending) {c : Char} (h : isBlank c) : e.cuts c := by
  simp [Ending.cuts, h]

/-- However much is cut off the end of the text, the rest flows and does not end in a line
comment. -/
def Sturdy (e : Ending) (P : Kind → Text → Prop) (m : Mode) (s : Text) : Prop :=
  ∀ ⦃a b : Text⦄, s = a ++ b → (∀ c ∈ b, e.cuts c) → ∃ m', m' ≠ .line ∧ Flow P m a m'

namespace Sturdy

variable {e : Ending} {P Q : Kind → Text → Prop} {m m' : Mode} {c : Char} {r s : Text}

theorem mono (hPQ : ∀ k s, P k s → Q k s) (h : Sturdy e P m s) : Sturdy e Q m s := by
  intro a b hs hb
  obtain ⟨m', hm', hflow⟩ := h hs hb
  exact ⟨m', hm', hflow.mono hPQ⟩

theorem flow (h : Sturdy e P m s) : ∃ m', m' ≠ .line ∧ Flow P m s m' :=
  h (List.append_nil s).symm (by simp)

theorem nil (hm : m ≠ .line) : Sturdy e P m [] := by
  intro a b hs _
  rw [(List.append_eq_nil_iff.mp hs.symm).1]
  exact ⟨m, hm, .nil⟩

theorem of_flow (hP : LineFree P) (hm : m ≠ .line) (h : Flow P m s m') : Sturdy e P m s := by
  intro a b hs hb
  subst hs
  obtain ⟨m₁, h₁⟩ := h.of_append hP fun c hc => Ending.isBlank_or_isBare (hb c hc)
  exact ⟨m₁, h₁.ne_line hP hm, h₁⟩

theorem of_leadsTo (h : leadsTo m' s) (hm : m ≠ .line) : Sturdy e P m s := by
  have hnone : LineFree fun _ _ => False := fun _ h => h
  exact (of_flow hnone hm (.of_leadsTo h hm)).mono fun _ _ h => h.elim

theorem append (hr : Sturdy e P m r) (hflow : Flow P m r m') (hs : Sturdy e P m' s) :
    Sturdy e P m (r ++ s) := by
  intro a b heq hb
  rcases List.append_eq_append_iff.mp heq with ⟨a', rfl, ha'⟩ | ⟨b', hr', rfl⟩
  · obtain ⟨m₁, hm₁, h₁⟩ := hs ha' hb
    exact ⟨m₁, hm₁, hflow.append h₁⟩
  · exact hr hr' fun c hc => hb c (List.mem_append_left _ hc)

/-- The start of a text is safe if something after it is never cut off. -/
theorem append_of_kept (hflow : Flow P m r m') (hs : Sturdy e P m' s)
    (hkept : ∃ c ∈ s, e.cuts c = false) : Sturdy e P m (r ++ s) := by
  obtain ⟨c, hc, hkept⟩ := hkept
  intro a b heq hb
  rcases List.append_eq_append_iff.mp heq with ⟨a', rfl, ha'⟩ | ⟨b', -, rfl⟩
  · obtain ⟨m₁, hm₁, h₁⟩ := hs ha' hb
    exact ⟨m₁, hm₁, hflow.append h₁⟩
  · simp [hb c (List.mem_append_right _ hc)] at hkept

theorem of_append (h : Sturdy e P m (r ++ s)) (hs : ∀ c ∈ s, e.cuts c) : Sturdy e P m r := by
  intro a b hr hb
  refine h (b := b ++ s) (by rw [hr, List.append_assoc]) ?_
  exact List.forall_mem_append.mpr ⟨hb, hs⟩

/-! A text that can stand at the start can be taken out of what encloses it. -/

theorem tail (h : Sturdy e P .apart (c :: s)) (hc : isBlank c ∨ isBare c) :
    Sturdy e P .apart s := by
  intro a b hs hb
  obtain ⟨m', hm', hflow⟩ := h (a := c :: a) (by rw [hs, List.cons_append]) hb
  rcases hc with hc | hc
  · exact ⟨m', hm', hflow.of_blank hc⟩
  · exact (hflow.of_bare hc).restart (Mode.next_ne_line _ c) hm' (.inl rfl)

theorem trim (h : Sturdy e P .apart s) : Sturdy e P .apart s.trim := by
  have hdrop : Sturdy e P .apart (s.dropWhile isBlank) := by
    induction s with
    | nil => exact h
    | cons c s ih =>
        rw [List.dropWhile_cons]
        split
        · rename_i hc
          exact ih (h.tail (.inl hc))
        · exact h
  obtain ⟨b, heq, hb⟩ := exists_append_trimEndWhere isBlank (s.dropWhile isBlank)
  rw [heq] at hdrop
  exact hdrop.of_append fun c hc => e.cuts_of_isBlank (hb c hc)

theorem stripParens (h : Sturdy .argument P .apart s) :
    Sturdy .argument P .apart s.stripParens := by
  have htrim := h.trim
  unfold Text.stripParens
  split
  · rename_i inner hinner
    split
    · rw [eq_of_betweenParens? hinner] at htrim
      have hclosed := htrim.tail (.inr (by decide))
      refine trim (hclosed.of_append ?_)
      simp [Ending.cuts, Ending.mark]
    · exact htrim
  · exact htrim

end Sturdy

end Token

end SqlMigration
