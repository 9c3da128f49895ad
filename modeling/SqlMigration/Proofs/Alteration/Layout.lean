import Mathlib.Logic.Relation
import SqlMigration.Proofs.Alteration.Scan
import SqlMigration.Proofs.Statement.Layout

/-! # Alterations do not depend on layout

Blank space and comments can be put into an alteration and taken out of it without a change of its
meaning. There are two limits. A `dbo` qualifier counts only while it is attached to its name, so
nothing is moved next to a dot. And a parenthesis that is never closed reaches to the end of the
list, trivia included, so every parenthesis has to be closed.
-/

namespace SqlMigration

/-! ## Parentheses that close -/

/-- Whether every parenthesis that opens is closed. -/
def parensClose : List Token → Bool
  | [] => true
  | t :: ts => Column.closes (t :: ts) && parensClose ts

section
variable {t : Token} {ts rest : List Token}

theorem parensClose_drop (h : parensClose ts) (n : Nat) : parensClose (ts.drop n) := by
  induction ts generalizing n with
  | nil => rwa [List.drop_nil]
  | cons t ts ih =>
      cases n with
      | zero => exact h
      | succ n => exact ih (Bool.and_eq_true_iff.mp h).2 n

theorem parensClose_of_skipTrivia (h : parensClose ts) (hskip : skipTrivia ts = t :: rest) :
    Column.closes (t :: rest) ∧ parensClose rest := by
  rw [← drop_triviaLength] at hskip
  have hdrop := parensClose_drop h (triviaLength ts)
  rw [hskip] at hdrop
  exact Bool.and_eq_true_iff.mp hdrop

theorem parensClose_significant (ts : List Token) :
    parensClose (significant ts) = parensClose ts := by
  induction ts with
  | nil => rfl
  | cons t ts ih =>
      cases ht : t.isTrivia with
      | true =>
          have hkind : t.kind ≠ .leftParen := by
            intro hkind
            rw [Token.isTrivia, hkind] at ht
            cases ht
          rw [significant_cons_of_isTrivia ht, ih, parensClose]
          simp [Column.closes, hkind]
      | false =>
          have hclosing := closingParenFrom?_significant 0 (t :: ts)
          rw [significant_cons ht] at hclosing ⊢
          rw [parensClose, parensClose, ih]
          simp [Column.closes, closingParen?, hclosing]

end

/-! ## Columns -/

namespace Column

/-- A scan of a list gives `r` and a scan of its significant tokens `r'`: they find the same and
leave the same behind. -/
def SameScan {α : Type} (ts : List Token) (r r' : α × Nat) : Prop :=
  r'.1 = r.1 ∧ (significant ts).drop r'.2 = significant (ts.drop r.2)

variable {d : Dialect} {c : ColumnType} {t u : Token} {ts us rest : List Token}

/-- Where a group ends among the significant tokens. -/
theorem exists_groupEnd_significant (hu : u.kind = .leftParen) (h : closes (u :: rest)) :
    ∃ n, groupEnd (u :: rest) = n + 1 ∧ groupEnd (u :: significant rest) = rank rest n + 1 ∧
      rank rest (n + 1) = rank rest n + 1 := by
  obtain ⟨i, hi⟩ := (closes_iff hu).mp h
  have htrivia : u.isTrivia = false := isTrivia_of_kind hu rfl
  obtain ⟨hclose, hlength, -⟩ := significant_of_closingParen? hi
  rw [significant_cons htrivia] at hclose
  rw [← rank, ← rank] at hlength
  rw [← rank] at hclose
  obtain ⟨n, rfl⟩ : ∃ n, i = n + 1 := by
    cases i with
    | zero =>
        obtain ⟨r, more, hdrop, hr⟩ := kind_of_closingParenFrom? hi
        obtain ⟨rfl, -⟩ := List.cons.inj hdrop
        rw [hu] at hr
        cases hr
    | succ n => exact ⟨n, rfl⟩
  rw [rank_cons htrivia, rank_cons htrivia] at hlength
  rw [rank_cons htrivia] at hclose
  exact ⟨n, groupEnd_of_closingParen? hi, groupEnd_of_closingParen? hclose, by omega⟩

/-- The group that opens here, without its parentheses and with them, and what follows it. -/
theorem group_significant (hu : u.kind = .leftParen) (h : closes (u :: rest)) :
    compactText ((significant rest).take (groupEnd (u :: significant rest) - 1)) =
        compactText (rest.take (groupEnd (u :: rest) - 1)) ∧
      compactText ((significant rest).take (groupEnd (u :: significant rest))) =
        compactText (rest.take (groupEnd (u :: rest))) ∧
      (significant rest).drop (groupEnd (u :: significant rest)) =
        significant (rest.drop (groupEnd (u :: rest))) := by
  obtain ⟨n, hn, hn', hrank⟩ := exists_groupEnd_significant hu h
  rw [hn, hn', Nat.add_sub_cancel, Nat.add_sub_cancel, ← hrank, ← significant_take,
    ← significant_take, ← significant_drop, ← compactText_eq, ← compactText_eq]
  exact ⟨rfl, rfl, rfl⟩

theorem noGroup_significant : NoGroup (significant ts) ↔ NoGroup (skipTrivia ts) := by
  rw [NoGroup, NoGroup, head?_skipTrivia]

theorem skipTrivia_significant_cons (h : skipTrivia ts = t :: rest) :
    skipTrivia (significant ts) = t :: significant rest := by
  rw [skipTrivia_significant, significant_of_skipTrivia h]

theorem dataType_significant (d : Dialect) (t : Token) (h : parensClose ts) :
    SameScan ts (dataType d t ts) (dataType d t (significant ts)) := by
  by_cases hgroup : NoGroup (skipTrivia ts)
  · have hgroup' : NoGroup (skipTrivia (significant ts)) := by
      rwa [skipTrivia_significant, noGroup_significant]
    refine ⟨?_, ?_⟩
    · rw [fst_dataType_of_noGroup hgroup, fst_dataType_of_noGroup hgroup']
    · rw [drop_dataType_of_noGroup hgroup, drop_dataType_of_noGroup hgroup']
  · obtain ⟨u, rest, hskip, hu⟩ := exists_of_not_noGroup hgroup
    obtain ⟨hclose, -⟩ := parensClose_of_skipTrivia h hskip
    have hskip' := skipTrivia_significant_cons hskip
    obtain ⟨hinside, -, hrest⟩ := group_significant hu hclose
    refine ⟨?_, ?_⟩
    · rw [fst_dataType_group hskip hu, fst_dataType_group hskip' hu, hinside]
    · rw [drop_dataType_group hskip hu, drop_dataType_group hskip' hu, hrest]

theorem defaultValue_significant (ht : t.isTrivia = false) (h : parensClose (t :: ts)) :
    SameScan (t :: ts) (defaultValue (t :: ts)) (defaultValue (t :: significant ts)) := by
  obtain ⟨hclose, hrest⟩ := Bool.and_eq_true_iff.mp h
  rw [SameScan, significant_cons ht]
  by_cases hleft : t.kind = .leftParen
  · obtain ⟨-, hgroup, hdrop⟩ := group_significant hleft hclose
    refine ⟨?_, by rw [drop_defaultValue_group hleft, drop_defaultValue_group hleft, hdrop]⟩
    rw [fst_defaultValue_group hleft, fst_defaultValue_group hleft, compactText_cons, hgroup,
      ← compactText_cons]
  by_cases hcall : ∃ u rest, skipTrivia ts = u :: rest ∧ t.kind.isIdentifier ∧ u.kind = .leftParen
  · obtain ⟨u, rest, hskip, hname, hu⟩ := hcall
    have hskip' := skipTrivia_significant_cons hskip
    obtain ⟨-, hgroup, hdrop⟩ :=
      group_significant hu (parensClose_of_skipTrivia hrest hskip).1
    refine ⟨?_, by rw [drop_defaultValue_call hname hskip hu,
      drop_defaultValue_call hname hskip' hu, hdrop]⟩
    rw [fst_defaultValue_call hname hskip hu, fst_defaultValue_call hname hskip' hu,
      compactText_cons, compactText_cons u, hgroup, ← compactText_cons, ← compactText_cons]
  by_cases hnegative : ∃ u rest, skipTrivia ts = u :: rest ∧ t.kind = .minus ∧ u.kind.isNumber
  · obtain ⟨u, rest, hskip, hminus, hu⟩ := hnegative
    have hskip' := skipTrivia_significant_cons hskip
    exact ⟨by rw [fst_defaultValue_negative hminus hskip hu,
        fst_defaultValue_negative hminus hskip' hu],
      by rw [drop_defaultValue_negative hminus hskip hu,
        drop_defaultValue_negative hminus hskip' hu]⟩
  · have hnext : ∀ u ∈ (skipTrivia ts).head?,
        (t.kind.isIdentifier && u.kind = .leftParen) = false ∧
          (t.kind = .minus && u.kind.isNumber) = false := by
      intro u hu
      obtain ⟨rest, hskip⟩ := List.head?_eq_some_iff.mp hu
      simp only [not_exists, not_and] at hcall hnegative
      have hcall := hcall u rest hskip
      have hnegative := hnegative u rest hskip
      constructor <;> simp_all
    have hnext' : ∀ u ∈ (skipTrivia (significant ts)).head?,
        (t.kind.isIdentifier && u.kind = .leftParen) = false ∧
          (t.kind = .minus && u.kind.isNumber) = false := by
      rwa [skipTrivia_significant, ← head?_skipTrivia]
    exact ⟨by rw [fst_defaultValue_single hleft hnext, fst_defaultValue_single hleft hnext'],
      by rw [drop_defaultValue_single hleft hnext, drop_defaultValue_single hleft hnext']⟩

theorem comesNext_significant (k : Keyword) (ts : List Token) :
    comesNext k (significant ts) = comesNext k ts := by
  rw [comesNext, comesNext, firstKeyword?, firstKeyword?, firstSignificant?_significant]

theorem drop_next_significant (ts : List Token) :
    (significant ts).drop (triviaLength (significant ts) + 1) =
      significant (ts.drop (triviaLength ts + 1)) := by
  have hdrop : ts.drop (triviaLength ts + 1) = (skipTrivia ts).drop 1 := by
    rw [← List.drop_drop, drop_triviaLength]
  rw [triviaLength_significant, hdrop]
  cases hskip : skipTrivia ts with
  | nil =>
      rw [(skipTrivia_eq_nil_iff ts).mp hskip]
      rfl
  | cons u rest =>
      rw [significant_of_skipTrivia hskip]
      rfl

theorem option?_identity_significant (d : Dialect) (c : ColumnType) (ht : t.is .IDENTITY)
    (h : parensClose ts) :
    Option.Rel (SameScan ts) (option? d c t ts) (option? d c t (significant ts)) := by
  by_cases hgroup : NoGroup (skipTrivia ts)
  · have hgroup' : NoGroup (skipTrivia (significant ts)) := by
      rwa [skipTrivia_significant, noGroup_significant]
    rw [option?_identity ht hgroup, option?_identity ht hgroup']
    exact .some ⟨rfl, rfl⟩
  · obtain ⟨u, rest, hskip, hu⟩ := exists_of_not_noGroup hgroup
    have hskip' := skipTrivia_significant_cons hskip
    rw [option?_identityFrom ht hskip hu, option?_identityFrom ht hskip' hu]
    refine .some ⟨rfl, ?_⟩
    rw [drop_of_skipTrivia hskip, drop_of_skipTrivia hskip']
    exact (group_significant hu (parensClose_of_skipTrivia h hskip).1).2.2

theorem option?_default_significant (d : Dialect) (c : ColumnType) (ht : t.is .DEFAULT)
    (h : parensClose ts) :
    Option.Rel (SameScan ts) (option? d c t ts) (option? d c t (significant ts)) := by
  have hvalue : SameScan (skipTrivia ts) (defaultValue (skipTrivia ts))
      (defaultValue (skipTrivia (significant ts))) := by
    cases hskip : skipTrivia ts with
    | nil =>
        rw [skipTrivia_significant, (skipTrivia_eq_nil_iff ts).mp hskip]
        exact ⟨rfl, rfl⟩
    | cons u rest =>
        obtain ⟨-, -, -, -, hu⟩ := eq_append_of_skipTrivia hskip
        rw [skipTrivia_significant_cons hskip]
        exact defaultValue_significant hu
          (Bool.and_eq_true_iff.mpr (parensClose_of_skipTrivia h hskip))
  obtain ⟨hfst, hdrop⟩ := hvalue
  rw [option?_default ht, option?_default ht, hfst]
  refine .some ⟨rfl, ?_⟩
  rw [triviaLength_significant, Nat.zero_add, ← List.drop_drop, drop_triviaLength, ← hdrop,
    significant_skipTrivia]

theorem option?_significant (d : Dialect) (c : ColumnType) (h : parensClose (t :: ts)) :
    Option.Rel (SameScan ts) (option? d c t ts) (option? d c t (significant ts)) := by
  obtain ⟨hclose, hrest⟩ := Bool.and_eq_true_iff.mp h
  have hnext := drop_next_significant ts
  by_cases hleft : t.kind = .leftParen
  · simp only [option?, hleft]
    exact .some ⟨rfl, (group_significant hleft hclose).2.2⟩
  by_cases hnot : t.is .NOT
  · simp only [option?, kind_of_is hnot, comesNext_significant]
    split
    · exact .some ⟨rfl, hnext⟩
    · exact .some ⟨rfl, rfl⟩
  by_cases hprimary : t.is .PRIMARY
  · simp only [option?, kind_of_is hprimary, comesNext_significant]
    split
    · exact .some ⟨rfl, hnext⟩
    · exact .some ⟨rfl, rfl⟩
  by_cases hconstraint : t.is .CONSTRAINT
  · simp only [option?, kind_of_is hconstraint]
    exact .some ⟨rfl, hnext⟩
  by_cases hidentity : t.is .IDENTITY
  · exact option?_identity_significant d c hidentity hrest
  by_cases hdefault : t.is .DEFAULT
  · exact option?_default_significant d c hdefault hrest
  rcases option?_single hleft (by simpa using hnot) (by simpa using hidentity)
    (by simpa using hprimary) (by simpa using hconstraint) (by simpa using hdefault) ts
    (significant ts) with ⟨hnone, hnone'⟩ | ⟨c', hsome, hsome'⟩
  · rw [hnone, hnone']
    exact .none
  · rw [hsome, hsome']
    exact .some ⟨rfl, rfl⟩

theorem options_significant (d : Dialect) (c : ColumnType) (h : parensClose ts) :
    SameScan ts (options d c ts) (options d c (significant ts)) := by
  fun_induction options d c ts with
  | case1 c ts hskip =>
      have hnil := (skipTrivia_eq_nil_iff ts).mp hskip
      rw [options_of_skipTrivia_eq_nil (by rw [hnil]; rfl)]
      exact ⟨rfl, rfl⟩
  | case2 c ts t rest hskip hnone =>
      have hrel := option?_significant d c
        (Bool.and_eq_true_iff.mpr (parensClose_of_skipTrivia h hskip))
      rw [hnone] at hrel
      cases hnone' : option? d c t (significant rest) with
      | some => rw [hnone'] at hrel; cases hrel
      | none =>
          rw [options_of_none (skipTrivia_significant_cons hskip) hnone']
          refine ⟨rfl, ?_⟩
          rw [triviaLength_significant, drop_triviaLength, significant_skipTrivia, List.drop_zero]
  | case3 c ts t rest hskip c' n hoption c'' m hrest ih =>
      obtain ⟨hclose, hcloses⟩ := parensClose_of_skipTrivia h hskip
      have hrel := option?_significant d c (Bool.and_eq_true_iff.mpr ⟨hclose, hcloses⟩)
      rw [hoption] at hrel
      cases hoption' : option? d c t (significant rest) with
      | none => rw [hoption'] at hrel; cases hrel
      | some r =>
          rw [hoption'] at hrel
          obtain ⟨hfst, hdrop⟩ : SameScan rest (c', n) r := by cases hrel; assumption
          obtain ⟨c₁, n'⟩ := r
          obtain rfl : c₁ = c' := hfst
          obtain ⟨hvalue, hleft⟩ := options_of_some (skipTrivia_significant_cons hskip) hoption'
          obtain ⟨hvalue', hleft'⟩ := ih (parensClose_drop hcloses n)
          rw [hrest] at hvalue' hleft'
          rw [SameScan, hvalue, hleft, hdrop, hvalue', hleft', Nat.add_assoc _ n,
            drop_of_skipTrivia hskip, List.drop_drop]
          exact ⟨rfl, rfl⟩

/-- The layout of a column has no part in its meaning. -/
theorem define_significant (d : Dialect) (t : Token) (h : parensClose ts) :
    SameScan ts (define d t ts) (define d t (significant ts)) := by
  by_cases htype : ∃ u us, skipTrivia ts = u :: us ∧ u.kind.isIdentifier
  · obtain ⟨u, us, hskip, hu⟩ := htype
    obtain ⟨-, hcloses⟩ := parensClose_of_skipTrivia h hskip
    obtain ⟨htype, hafter⟩ := dataType_significant d u hcloses
    obtain ⟨hvalue, hdrop⟩ := options_significant d { dataType := (dataType d u us).1 }
      (parensClose_drop hcloses (dataType d u us).2)
    obtain ⟨hfst, hrest⟩ := define_of_type (d := d) (t := t) hskip hu
    obtain ⟨hfst', hrest'⟩ :=
      define_of_type (d := d) (t := t) (skipTrivia_significant_cons hskip) hu
    rw [SameScan, hfst', hrest', hfst, hrest, htype, hafter, hvalue, hdrop]
    exact ⟨rfl, rfl⟩
  · have hnone : ∀ u ∈ (skipTrivia ts).head?, u.kind.isIdentifier = false := by
      intro u hu
      obtain ⟨us, hskip⟩ := List.head?_eq_some_iff.mp hu
      rw [Bool.eq_false_iff]
      exact fun hname => htype ⟨u, us, hskip, hname⟩
    have hnone' : ∀ u ∈ (skipTrivia (significant ts)).head?, u.kind.isIdentifier = false := by
      rwa [skipTrivia_significant, ← head?_skipTrivia]
    obtain ⟨hvalue, hdrop⟩ := options_significant d {} h
    rw [SameScan, define_of_noType hnone, define_of_noType hnone', hvalue]
    exact ⟨rfl, hdrop⟩

end Column

/-! ## Tokens that are attached -/

/-- Whether the list starts with a dot and a name, with nothing in between. -/
def startsWithMember : List Token → Bool
  | dot :: u :: _ => dot.kind = .dot && u.kind.isIdentifier
  | _ => false

/-- The significant tokens, each with whether a dot and a name are attached to it. -/
def marked : List Token → List (Token × Bool)
  | [] => []
  | t :: ts => if t.isTrivia then marked ts else (t, startsWithMember ts) :: marked ts

/-- One blank or comment more, and not next to a dot. -/
inductive AddsTrivia : List Token → List Token → Prop where
  | intro {front back : List Token} {t : Token} (ht : t.isTrivia)
      (hfront : ∀ u ∈ front.getLast?, u.kind ≠ .dot) (hback : ∀ u ∈ back.head?, u.kind ≠ .dot) :
      AddsTrivia (front ++ back) (front ++ t :: back)

section
variable {ts us : List Token}

theorem map_fst_marked (ts : List Token) : (marked ts).map Prod.fst = significant ts := by
  induction ts with
  | nil => rfl
  | cons t ts ih =>
      cases ht : t.isTrivia with
      | true => rw [marked, if_pos ht, ih, significant_cons_of_isTrivia ht]
      | false =>
          rw [marked, ht, if_neg Bool.false_ne_true, List.map_cons, ih, significant_cons ht]

theorem marked_skipTrivia (ts : List Token) : marked (skipTrivia ts) = marked ts := by
  induction ts with
  | nil => rfl
  | cons t ts ih =>
      cases ht : t.isTrivia with
      | true => rw [marked, if_pos ht, ← ih, skipTrivia, List.dropWhile_cons_of_pos ht]; rfl
      | false => rw [skipTrivia, List.dropWhile_cons_of_neg (by simp [ht])]

theorem marked_isSuffix (ts : List Token) (n : Nat) : marked (ts.drop n) <:+ marked ts := by
  induction ts generalizing n with
  | nil => simp
  | cons t ts ih =>
      cases n with
      | zero => exact List.suffix_rfl
      | succ n =>
          rw [List.drop_succ_cons, marked]
          split
          · exact ih n
          · exact (ih n).trans (List.suffix_cons _ _)

/-- What is left of two lists with the same marks has the same marks, if it has the same tokens. -/
theorem marked_drop {n m : Nat} (h : marked ts = marked us)
    (hrest : significant (ts.drop n) = significant (us.drop m)) :
    marked (ts.drop n) = marked (us.drop m) := by
  have hlength : (marked (ts.drop n)).length = (marked (us.drop m)).length := by
    rw [← List.length_map Prod.fst, map_fst_marked, hrest, ← map_fst_marked, List.length_map]
  have hsuffix := marked_isSuffix ts n
  rw [h] at hsuffix
  exact (List.suffix_of_suffix_length_le hsuffix (marked_isSuffix us m) hlength.le).eq_of_length
    hlength

theorem startsWithMember_insert {front back : List Token} {t : Token} (ht : t.isTrivia)
    (hfront : ∀ u ∈ front.getLast?, u.kind ≠ .dot) (hback : ∀ u ∈ back.head?, u.kind ≠ .dot) :
    startsWithMember (front ++ t :: back) = startsWithMember (front ++ back) := by
  have hnone {u : Token} (hu : u.kind ≠ .dot) (vs : List Token) :
      startsWithMember (u :: vs) = false := by
    cases vs with
    | nil => rfl
    | cons v vs => simp [startsWithMember, hu]
  cases front with
  | nil =>
      have hdot : t.kind ≠ .dot := by
        intro hkind
        rw [Token.isTrivia, hkind] at ht
        cases ht
      cases back with
      | nil => exact hnone hdot _
      | cons u back => exact (hnone hdot _).trans (hnone (hback u rfl) _).symm
  | cons u front =>
      cases front with
      | nil => exact (hnone (hfront u rfl) _).trans (hnone (hfront u rfl) _).symm
      | cons v front => rfl

theorem marked_insert {front back : List Token} {t : Token} (ht : t.isTrivia)
    (hfront : ∀ u ∈ front.getLast?, u.kind ≠ .dot) (hback : ∀ u ∈ back.head?, u.kind ≠ .dot) :
    marked (front ++ t :: back) = marked (front ++ back) := by
  induction front with
  | nil => rw [List.nil_append, marked, if_pos ht, List.nil_append]
  | cons u front ih =>
      have hlast : ∀ v ∈ front.getLast?, v.kind ≠ .dot := by
        intro v hv
        exact hfront v (by rw [List.getLast?_cons, Option.mem_def.mp hv]; rfl)
      rw [List.cons_append, marked, ih hlast, startsWithMember_insert ht hlast hback]
      rfl

/-- Two lists with the same tokens and the same attachments, in which all parentheses close. -/
structure Alike (ts us : List Token) : Prop where
  marked_eq : marked ts = marked us
  closes_left : parensClose ts
  closes_right : parensClose us

theorem marked_eq_of_eqvGen (h : Relation.EqvGen AddsTrivia ts us) : marked ts = marked us := by
  induction h with
  | rel ts us h =>
      obtain ⟨ht, hfront, hback⟩ := h
      exact (marked_insert ht hfront hback).symm
  | refl ts => rfl
  | symm ts us _ ih => exact ih.symm
  | trans ts us vs _ _ ih ih' => exact ih.trans ih'

namespace Alike

theorem significant_eq (h : Alike ts us) : significant ts = significant us := by
  rw [← map_fst_marked, h.marked_eq, map_fst_marked]

/-- Edits of the layout keep all parentheses closed. -/
theorem of_eqvGen (h : Relation.EqvGen AddsTrivia ts us) (hts : parensClose ts) : Alike ts us := by
  have hmarked := marked_eq_of_eqvGen h
  refine ⟨hmarked, hts, ?_⟩
  rw [← parensClose_significant, ← map_fst_marked, ← hmarked, map_fst_marked,
    parensClose_significant, hts]

theorem drop (h : Alike ts us) {n m : Nat}
    (hrest : significant (ts.drop n) = significant (us.drop m)) :
    Alike (ts.drop n) (us.drop m) :=
  ⟨marked_drop h.marked_eq hrest, parensClose_drop h.closes_left n,
    parensClose_drop h.closes_right m⟩

/-- Two such lists have the same first token, and what follows it is alike. -/
theorem cases_skipTrivia (h : Alike ts us) :
    (skipTrivia ts = [] ∧ skipTrivia us = []) ∨
      ∃ t rest rest', skipTrivia ts = t :: rest ∧ skipTrivia us = t :: rest' ∧ Alike rest rest' ∧
        startsWithMember rest = startsWithMember rest' := by
  cases hskip : skipTrivia ts with
  | nil =>
      refine .inl ⟨rfl, ?_⟩
      rw [skipTrivia_eq_nil_iff, ← h.significant_eq, ← skipTrivia_eq_nil_iff, hskip]
  | cons t rest =>
      have hsignificant := h.significant_eq
      rw [significant_of_skipTrivia hskip] at hsignificant
      obtain ⟨rest', hskip', hrest⟩ := exists_skipTrivia hsignificant.symm
      obtain ⟨-, -, -, -, ht⟩ := eq_append_of_skipTrivia hskip
      have hmarked := h.marked_eq
      rw [← marked_skipTrivia, ← marked_skipTrivia us, hskip, hskip', marked, marked, ht,
        if_neg Bool.false_ne_true, if_neg Bool.false_ne_true] at hmarked
      obtain ⟨hpair, hmarked⟩ := List.cons.inj hmarked
      exact .inr ⟨t, rest, rest', rfl, hskip', ⟨hmarked,
        (parensClose_of_skipTrivia h.closes_left hskip).2,
        (parensClose_of_skipTrivia h.closes_right hskip').2⟩, congrArg Prod.snd hpair⟩

end Alike

end

/-! ## Patterns -/

namespace Pattern

variable {p : Pattern} {ts us : List Token}

/-- Two matches both fail, or find the same and leave alike lists behind. -/
def SameMatch (ts us : List Token) (r r' : Except Nat (Captures × Nat)) : Prop :=
  (∃ n m, r = .error n ∧ r' = .error m) ∨
    ∃ c n m, r = .ok (c, n) ∧ r' = .ok (c, m) ∧ Alike (ts.drop n) (us.drop m)

theorem SameMatch.error {n m : Nat} : SameMatch ts us (.error n) (.error m) :=
  .inl ⟨n, m, rfl, rfl⟩

theorem SameMatch.ok {c : Captures} {n m : Nat} (h : Alike (ts.drop n) (us.drop m)) :
    SameMatch ts us (.ok (c, n)) (.ok (c, m)) :=
  .inr ⟨c, n, m, rfl, rfl, h⟩

theorem nameAt_eq (t : Token) (ts : List Token) (h : startsWithMember ts = false) :
    nameAt t ts = (Name.normalize t.text, 0) := by
  cases ts with
  | nil => rfl
  | cons dot ts =>
      cases ts with
      | nil => rfl
      | cons u more =>
          rw [startsWithMember] at h
          simp only [nameAt, startsWithDbo, Bool.and_assoc, h, Bool.and_false, Bool.false_eq_true,
            if_false]

theorem exists_member (h : startsWithMember ts) :
    ∃ dot u more, ts = dot :: u :: more ∧ significant ts = dot :: u :: significant more := by
  cases ts with
  | nil => cases h
  | cons dot ts =>
      cases ts with
      | nil => cases h
      | cons u more =>
          obtain ⟨hdot, hu⟩ := Bool.and_eq_true_iff.mp h
          exact ⟨dot, u, more, rfl, by
            rw [significant_cons (isTrivia_of_kind (of_decide_eq_true hdot) rfl),
              significant_cons (isTrivia_of_isIdentifier hu)]⟩

/-- A name takes in the same tokens in both lists. -/
theorem nameAt_alike (t : Token) (h : Alike ts us)
    (hmember : startsWithMember ts = startsWithMember us) :
    (nameAt t ts).1 = (nameAt t us).1 ∧
      Alike (ts.drop (nameAt t ts).2) (us.drop (nameAt t us).2) := by
  cases hts : startsWithMember ts with
  | false =>
      rw [nameAt_eq t ts hts, nameAt_eq t us (hmember ▸ hts)]
      exact ⟨rfl, h⟩
  | true =>
      obtain ⟨dot, u, more, rfl, hleft⟩ := exists_member hts
      obtain ⟨dot', u', more', rfl, hright⟩ := exists_member (hmember ▸ hts)
      obtain ⟨rfl, htail⟩ := List.cons.inj (hleft.symm.trans (h.significant_eq.trans hright))
      obtain ⟨rfl, hmore⟩ := List.cons.inj htail
      have hdrop : Alike more more' := h.drop (n := 2) (m := 2) hmore
      by_cases hdbo : t.isWord "dbo" && decide (dot.kind = .dot) && u.kind.isIdentifier
      · simp only [nameAt, startsWithDbo, hdbo, if_true, true_and]
        exact hdrop
      · simp only [nameAt, startsWithDbo, hdbo, Bool.false_eq_true, if_false, true_and]
        exact h

theorem define_alike (d : Dialect) (t : Token) (h : Alike ts us) :
    (Column.define d t ts).1 = (Column.define d t us).1 ∧
      Alike (ts.drop (Column.define d t ts).2) (us.drop (Column.define d t us).2) := by
  obtain ⟨hvalue, hdrop⟩ := Column.define_significant d t h.closes_left
  obtain ⟨hvalue', hdrop'⟩ := Column.define_significant d t h.closes_right
  rw [h.significant_eq] at hvalue hdrop
  exact ⟨hvalue.symm.trans hvalue', h.drop (hdrop.symm.trans hdrop')⟩

theorem matchStep_alike (hp : p.keepComments = false) (s : Step) (h : Alike ts us) :
    SameMatch ts us (p.matchStep s ts) (p.matchStep s us) := by
  simp only [matchStep, skips_eq hp]
  rw [← triviaLength, ← triviaLength, drop_triviaLength, drop_triviaLength]
  rcases h.cases_skipTrivia with ⟨hskip, hskip'⟩ | ⟨t, rest, rest', hskip, hskip', hrest, hmember⟩
  · rw [hskip, hskip']
    exact .error
  · rw [hskip, hskip']
    have hdrop {n m : Nat} (h : Alike (rest.drop n) (rest'.drop m)) :
        Alike (ts.drop (triviaLength ts + 1 + n)) (us.drop (triviaLength us + 1 + m)) := by
      rwa [drop_of_skipTrivia hskip, drop_of_skipTrivia hskip']
    dsimp only
    split
    · cases hcapture : s.capture with
      | nothing | raw => exact .ok (hdrop (n := 0) (m := 0) hrest)
      | identifier =>
          obtain ⟨hname, hafter⟩ := nameAt_alike t hrest hmember
          dsimp only
          rw [hname]
          exact .ok (hdrop hafter)
      | column =>
          obtain ⟨hcolumn, hafter⟩ := define_alike p.dialect t hrest
          dsimp only
          rw [hcolumn]
          exact .ok (hdrop hafter)
    · exact .error

theorem matchSteps_alike (hp : p.keepComments = false) (steps : List Step) (h : Alike ts us) :
    SameMatch ts us (p.matchSteps steps ts) (p.matchSteps steps us) := by
  induction steps generalizing ts us with
  | nil => exact .ok h
  | cons s steps ih =>
      rw [matchSteps, matchSteps]
      rcases matchStep_alike hp s h with ⟨n, m, hts, hus⟩ | ⟨c, n, m, hts, hus, hrest⟩
      · rw [hts, hus]
        exact .error
      rw [hts, hus]
      dsimp only
      rcases ih hrest with ⟨i, j, hts, hus⟩ | ⟨c', i, j, hts, hus, hafter⟩
      · rw [hts, hus]
        exact .error
      · rw [hts, hus]
        rw [List.drop_drop, List.drop_drop] at hafter
        exact .ok hafter

theorem matchTail_alike (hp : p.keepComments = false) (h : Alike ts us) :
    (p.matchTail ts).1 = (p.matchTail us).1 ∧
      Alike (ts.drop (p.matchTail ts).2) (us.drop (p.matchTail us).2) := by
  cases htail : p.tail with
  | nil =>
      rw [matchTail_of_tail_eq_nil htail, matchTail_of_tail_eq_nil htail]
      exact ⟨rfl, h⟩
  | cons s steps =>
      -- Each repetition takes in a token, so the induction is on the length of the list.
      induction hlength : ts.length using Nat.strong_induction_on generalizing ts us with
      | _ k ih =>
          rcases matchSteps_alike hp p.tail h with
            ⟨n, m, hts, hus⟩ | ⟨c, n, m, hts, hus, hrest⟩
          · rw [matchTail_of_error hts, matchTail_of_error hus]
            exact ⟨rfl, h⟩
          · have hpos : 0 < n := pos_of_matchSteps (htail ▸ hts)
            have hpos' : 0 < m := pos_of_matchSteps (htail ▸ hus)
            rw [matchTail_of_ok hts hpos, matchTail_of_ok hus hpos']
            cases hnil : ts with
            | nil =>
                rw [hnil, htail] at hts
                cases hts
            | cons t ts' =>
                have hshorter : (ts.drop n).length < k := by
                  rw [List.length_drop, ← hlength, hnil, List.length_cons]
                  omega
                obtain ⟨hvalue, hafter⟩ := ih _ hshorter hrest rfl
                rw [← hnil, hvalue, ← List.drop_drop, ← List.drop_drop]
                exact ⟨rfl, hafter⟩

/-- A pattern matches both lists or neither. -/
theorem run?_alike (hp : p.keepComments = false) (hsteps : p.steps ≠ []) (h : Alike ts us) :
    (p.run? ts = none ∧ p.run? us = none) ∨
      ∃ c n m, p.run? ts = some (c, n) ∧ p.run? us = some (c, m) ∧
        Alike (ts.drop n) (us.drop m) := by
  rcases matchSteps_alike hp p.steps h with ⟨n, m, hts, hus⟩ | ⟨c, n, m, hts, hus, hrest⟩
  · exact .inl ⟨run?_of_error hts, run?_of_error hus⟩
  · obtain ⟨hvalue, hafter⟩ := matchTail_alike hp hrest
    rw [run?_of_ok hsteps hts, run?_of_ok hsteps hus, hvalue]
    rw [List.drop_drop, List.drop_drop] at hafter
    exact .inr ⟨_, _, _, rfl, rfl, hafter⟩

end Pattern

/-! ## Alterations -/

namespace Alteration

variable {d : Dialect} {ts us : List Token}

/-- Two readings both fail, or find the same alteration and leave the same tokens behind. -/
def SameReading (ts us : List Token) (r r' : Option (Alteration × Nat)) : Prop :=
  (r = none ∧ r' = none) ∨
    ∃ a n m, r = some (a, n) ∧ r' = some (a, m) ∧
      significant (ts.drop n) = significant (us.drop m)

theorem SameReading.none : SameReading ts us none none := .inl ⟨rfl, rfl⟩

theorem SameReading.some {a : Alteration} {n m : Nat}
    (h : significant (ts.drop n) = significant (us.drop m)) :
    SameReading ts us (some (a, n)) (some (a, m)) :=
  .inr ⟨a, n, m, rfl, rfl, h⟩

theorem SameReading.or {r₁ r₂ r₁' r₂' : Option (Alteration × Nat)}
    (h₁ : SameReading ts us r₁ r₁') (h₂ : SameReading ts us r₂ r₂') :
    SameReading ts us (r₁.or r₂) (r₁'.or r₂') := by
  rcases h₁ with ⟨rfl, rfl⟩ | ⟨a, n, m, rfl, rfl, hrest⟩
  · exact h₂
  · exact .some hrest

theorem run?_pattern_alike (d : Dialect) (steps tail : List Step) (h : Alike ts us) :
    ((pattern d steps tail).run? ts = Option.none ∧ (pattern d steps tail).run? us = Option.none) ∨
      ∃ c n m, (pattern d steps tail).run? ts = Option.some (c, n) ∧
        (pattern d steps tail).run? us = Option.some (c, m) ∧ Alike (ts.drop n) (us.drop m) :=
  Pattern.run?_alike rfl (by simp [pattern, opening]) h

theorem keyColumns_significant (ts : List Token) :
    Column.SameScan ts (keyColumns ts) (keyColumns (significant ts)) := by
  induction ts with
  | nil => exact ⟨rfl, rfl⟩
  | cons t ts ih =>
      obtain ⟨hcolumns, hdrop⟩ := ih
      cases ht : t.isTrivia with
      | true =>
          have hright : t.kind ≠ .rightParen := by
            intro hkind
            rw [Token.isTrivia, hkind] at ht
            cases ht
          have hname : t.kind.isIdentifier = false := by
            rw [Bool.eq_false_iff]
            intro hname
            rw [isTrivia_of_isIdentifier hname] at ht
            cases ht
          rw [significant_cons_of_isTrivia ht, keyColumns, if_neg hright]
          simp only [hname, Bool.false_and, Bool.false_eq_true, if_false]
          exact ⟨hcolumns, by rwa [significant_cons_of_isTrivia ht, List.drop_succ_cons]⟩
      | false =>
          rw [Column.SameScan, significant_cons ht, keyColumns, keyColumns]
          by_cases hright : t.kind = .rightParen
          · rw [if_pos hright, if_pos hright]
            exact ⟨rfl, rfl⟩
          · rw [if_neg hright, if_neg hright]
            dsimp only
            rw [hcolumns]
            split
            · exact ⟨rfl, hdrop⟩
            · exact ⟨rfl, hdrop⟩

/-- The tokens behind `KEY` and the words for storage. -/
def afterStorage (ts : List Token) : List Token :=
  ts.dropWhile fun t => t.isTrivia || isStorageWord t

theorem drop_length_storage (ts : List Token) :
    ts.drop (ts.takeWhile fun t => t.isTrivia || isStorageWord t).length = afterStorage ts :=
  (congrArg (List.drop _) ts.takeWhile_append_dropWhile).symm.trans List.drop_left

theorem drop_of_afterStorage {t : Token} {rest : List Token} {n : Nat}
    (h : afterStorage (ts.drop n) = t :: rest) (k : Nat) :
    ts.drop (n + ((ts.drop n).takeWhile fun t => t.isTrivia || isStorageWord t).length + 1 + k) =
      rest.drop k := by
  rw [← List.drop_drop, ← List.drop_drop, ← List.drop_drop, drop_length_storage, h, List.drop_one,
    List.tail_cons]

theorem significant_afterStorage (ts : List Token) :
    significant (afterStorage ts) = (significant ts).dropWhile isStorageWord := by
  induction ts with
  | nil => rfl
  | cons t ts ih =>
      cases ht : t.isTrivia with
      | true =>
          rw [significant_cons_of_isTrivia ht, ← ih, afterStorage,
            List.dropWhile_cons_of_pos (by simp [ht]), afterStorage]
      | false =>
          rw [significant_cons ht]
          cases hword : isStorageWord t with
          | true =>
              rw [List.dropWhile_cons_of_pos hword, ← ih, afterStorage,
                List.dropWhile_cons_of_pos (by simp [hword]), afterStorage]
          | false =>
              rw [List.dropWhile_cons_of_neg (by simp [hword]), afterStorage,
                List.dropWhile_cons_of_neg (by simp [ht, hword]), significant_cons ht]

theorem skipTrivia_afterStorage (ts : List Token) :
    skipTrivia (afterStorage ts) = afterStorage ts := by
  cases hafter : afterStorage ts with
  | nil => rfl
  | cons t rest =>
      have ht := List.head?_dropWhile_not (fun t => t.isTrivia || isStorageWord t) ts
      rw [← afterStorage, hafter] at ht
      rw [skipTrivia, List.dropWhile_cons_of_neg (by simp_all)]

theorem afterStorage_congr (h : significant ts = significant us) :
    (afterStorage ts = [] ∧ afterStorage us = []) ∨
      ∃ t rest rest', afterStorage ts = t :: rest ∧ afterStorage us = t :: rest' ∧
        significant rest = significant rest' := by
  have hafter : significant (afterStorage us) = significant (afterStorage ts) := by
    rw [significant_afterStorage, significant_afterStorage, h]
  rw [← skipTrivia_afterStorage ts, ← skipTrivia_afterStorage us]
  cases hskip : skipTrivia (afterStorage ts) with
  | nil =>
      refine .inl ⟨rfl, ?_⟩
      rw [skipTrivia_eq_nil_iff, hafter, ← skipTrivia_eq_nil_iff, hskip]
  | cons t rest =>
      rw [significant_of_skipTrivia hskip] at hafter
      obtain ⟨rest', hskip', hrest⟩ := exists_skipTrivia hafter
      exact .inr ⟨t, rest, rest', rfl, hskip', hrest.symm⟩

theorem dropConstraint?_alike (d : Dialect) (h : Alike ts us) :
    SameReading ts us (dropConstraint? d ts) (dropConstraint? d us) := by
  rw [dropConstraint?, dropConstraint?]
  rcases run?_pattern_alike d dropSteps [] h with
    ⟨hts, hus⟩ | ⟨⟨values, columns⟩, n, m, hts, hus, hrest⟩
  · rw [hts, hus]
    exact .none
  · rw [hts, hus]
    rcases values with _ | ⟨table, _ | ⟨constraint, _ | ⟨_, _⟩⟩⟩
    · exact .none
    · exact .none
    · exact .some hrest.significant_eq
    · exact .none

theorem addColumns?_alike (d : Dialect) (h : Alike ts us) :
    SameReading ts us (addColumns? d ts) (addColumns? d us) := by
  rw [addColumns?, addColumns?]
  rcases run?_pattern_alike d addSteps moreSteps h with
    ⟨hts, hus⟩ | ⟨⟨values, columns⟩, n, m, hts, hus, hrest⟩
  · rw [hts, hus]
    exact .none
  · rw [hts, hus]
    rcases values with _ | ⟨table, _ | ⟨_, _⟩⟩
    · exact .none
    · exact .some hrest.significant_eq
    · exact .none

theorem alterColumn?_alike (d : Dialect) (h : Alike ts us) :
    SameReading ts us (alterColumn? d ts) (alterColumn? d us) := by
  rw [alterColumn?, alterColumn?]
  rcases run?_pattern_alike d alterSteps [] h with
    ⟨hts, hus⟩ | ⟨⟨values, columns⟩, n, m, hts, hus, hrest⟩
  · rw [hts, hus]
    exact .none
  · rw [hts, hus]
    rcases values with _ | ⟨table, _ | ⟨_, _⟩⟩
    · exact .none
    · rcases columns with _ | ⟨column, _ | ⟨_, _⟩⟩
      · exact .none
      · exact .some hrest.significant_eq
      · exact .none
    · exact .none

theorem addPrimaryKey?_alike (d : Dialect) (h : Alike ts us) :
    SameReading ts us (addPrimaryKey? d ts) (addPrimaryKey? d us) := by
  rw [addPrimaryKey?, addPrimaryKey?]
  dsimp only
  rcases run?_pattern_alike d keySteps [] h with
    ⟨hts, hus⟩ | ⟨⟨values, columns⟩, n, m, hts, hus, hrest⟩
  · rw [hts, hus]
    exact .none
  · rw [hts, hus]
    rcases values with _ | ⟨table, _ | ⟨constraint, _ | ⟨_, _⟩⟩⟩
    · exact .none
    · exact .none
    · dsimp only
      rw [drop_length_storage, drop_length_storage]
      rcases afterStorage_congr hrest.significant_eq with
        ⟨hnil, hnil'⟩ | ⟨t, inner, inner', hcons, hcons', hinner⟩
      · rw [hnil, hnil']
        exact .none
      · rw [hcons, hcons']
        dsimp only
        split
        · obtain ⟨hvalue, hdrop⟩ := keyColumns_significant inner
          obtain ⟨hvalue', hdrop'⟩ := keyColumns_significant inner'
          rw [hinner] at hvalue hdrop
          rw [← hvalue, hvalue']
          refine .some ?_
          rw [drop_of_afterStorage hcons, drop_of_afterStorage hcons', ← hdrop, hdrop']
        · exact .none
    · exact .none

theorem atHead?_alike (d : Dialect) (h : Alike ts us) :
    SameReading ts us (atHead? d ts) (atHead? d us) :=
  (addPrimaryKey?_alike d h).or <| (dropConstraint?_alike d h).or <|
    (addColumns?_alike d h).or (alterColumn?_alike d h)

/-- Blank space and comments have no part in the meaning of an alteration. -/
theorem ofStatement?_eq_of_layout (h : Relation.EqvGen AddsTrivia ts us) (hts : parensClose ts)
    (d : Dialect) :
    (atHead? d us).map Prod.fst = (atHead? d ts).map Prod.fst ∧
      ofStatement? d us = ofStatement? d ts := by
  rw [ofStatement?, ofStatement?]
  rcases atHead?_alike d (Alike.of_eqvGen h hts) with
    ⟨hleft, hright⟩ | ⟨a, n, m, hleft, hright, hrest⟩
  · rw [hleft, hright]
    exact ⟨rfl, rfl⟩
  · have hend : isTerminator (us.drop m) = isTerminator (ts.drop n) := by
      rw [Bool.eq_iff_iff, isTerminator_iff, isTerminator_iff, hrest]
    rw [hleft, hright]
    dsimp only
    rw [hend]
    exact ⟨rfl, rfl⟩

/-- A blank is taken out and a comment put in. -/
theorem ofStatement?_eq_of_layout_comment :
    let front := tokenize "ALTER TABLE dbo.t ADD a".toList
    let type := tokenize "decimal(".toList
    let rest := tokenize "10,2) NOT NULL;".toList
    let blank : Token := ⟨.blank, " ".toList, ⟨23, 24⟩⟩
    let comment : Token := ⟨.blockComment, "/* digits */".toList, ⟨31, 43⟩⟩
    let ts := front ++ blank :: (type ++ rest)
    let us := front ++ type ++ comment :: rest
    Relation.EqvGen AddsTrivia ts us ∧ parensClose ts ∧
      (ofStatement? Dialect.postgres ts).isSome ∧
      (atHead? Dialect.postgres us).map Prod.fst = (atHead? Dialect.postgres ts).map Prod.fst ∧
      ofStatement? Dialect.postgres us = ofStatement? Dialect.postgres ts := by
  intro front type rest blank comment ts us
  have hfacts : parensClose ts ∧ (ofStatement? Dialect.postgres ts).isSome ∧
      (∀ u ∈ front.getLast?, u.kind ≠ .dot) ∧ (∀ u ∈ (type ++ rest).head?, u.kind ≠ .dot) ∧
      (∀ u ∈ (front ++ type).getLast?, u.kind ≠ .dot) ∧ ∀ u ∈ rest.head?, u.kind ≠ .dot := by
    decide +kernel
  obtain ⟨hcloses, hsome, hfront, hback, hfront', hback'⟩ := hfacts
  have hblank : AddsTrivia (front ++ (type ++ rest)) ts := .intro rfl hfront hback
  have hcomment : AddsTrivia (front ++ (type ++ rest)) us := by
    rw [← List.append_assoc]
    exact .intro rfl hfront' hback'
  have hedits : Relation.EqvGen AddsTrivia ts us :=
    .trans _ _ _ (.symm _ _ (.rel _ _ hblank)) (.rel _ _ hcomment)
  exact ⟨hedits, hcloses, hsome, ofStatement?_eq_of_layout hedits hcloses Dialect.postgres⟩

end Alteration

end SqlMigration
