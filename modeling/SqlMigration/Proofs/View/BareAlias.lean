import SqlMigration.Proofs.Alteration.Acceptance
import SqlMigration.Proofs.Statement.Partition
import SqlMigration.Proofs.View.Aliases

/-! # Bare aliases

A position that ends with a value and a name after it has given itself a name, and needs no other.
Whether it gets one is decided from the kind of the token before the name, as far as that kind is
known to end a value.
-/

namespace SqlMigration.View

/-- Whether a token of this kind can be the last one of a value. -/
def canEndValue (k : Kind) : Bool :=
  endsValue k || k = .binary || k = .keyword .NULL || k = .variable

/-- The terms are read one after the other, with `rest` behind them and `depth` parentheses
open. -/
inductive Laid : Nat → List Term → List Token → Prop where
  | nil (rest : List Token) : Laid 0 [] rest
  | gap {depth : Nat} {xs : List Term} {t : Token} {ts : List Token} (h : Laid depth xs (t :: ts))
      (ht : t.isTrivia) : Laid depth (xs ++ [⟨.gap, t, []⟩]) ts
  | term {depth : Nat} {xs : List Term} {t : Token} {ts : List Token}
      (h : Laid depth xs (t :: ts)) (ht : t.isTrivia = false) :
      Laid (t.depthAfter depth) (xs ++ [termWithin depth xs t ts])
        (ts.drop (termWithin depth xs t ts).rest.length)

/-- The terms of each position of an arm are read one after the other. -/
theorem laid_of_mem_cut {ts : List Token} {select : Token} {items : List Item}
    (h : .list select items ∈ cut ts) : ∀ x ∈ items, ∃ d rest, Laid d x.terms rest :=
  forall_items_cutFrom .nil .gap .term 0 none ts (by simp) (by simp) h

/-! ## The last token of a term -/

theorem getLast?_significant_concat (ts : List Token) {u : Token} (hu : u.isTrivia = false) :
    (significant (ts ++ [u])).getLast? = some u := by
  rw [significant_append, significant_cons hu]
  simp [significant]

/-- The arguments of a call end with a parenthesis, unless they are never closed. -/
theorem callLength_cases (ts : List Token) :
    Expression.callLength ts = 0 ∨
      (∃ front r, ts.take (Expression.callLength ts) = front ++ [r] ∧ r.kind = .rightParen) ∨
      (ts.take (Expression.callLength ts) = ts ∧ ∀ depth, openAfter depth ts ≠ 0) := by
  unfold Expression.callLength
  split
  · exact .inl rfl
  · rename_i u rest hskip
    obtain ⟨gap, rfl, hgap, hlength, hu⟩ := eq_append_of_skipTrivia hskip
    split
    · rename_i hleft
      right
      rw [hlength, groupEnd_cons hleft, take_gap]
      cases hclose : closingParenFrom? 1 rest with
      | some i =>
          left
          obtain ⟨r, after, hdrop, hr⟩ := kind_of_closingParenFrom? hclose
          have htake : rest.take (i + 1) = rest.take i ++ [r] := by
            rw [List.take_add, hdrop]
            rfl
          refine ⟨gap ++ u :: rest.take i, r, ?_, hr⟩
          rw [Option.map_some, Option.getD_some, htake]
          simp
      | none =>
          right
          refine ⟨by simp, fun depth hopen => ?_⟩
          rw [openAfter_append, openAfter_of_trivia hgap, openAfter_cons] at hopen
          simp only [Token.depthAfter, hleft] at hopen
          obtain ⟨i, hi, -⟩ := @exists_closingParenFrom? depth 0 rest hopen
          rw [hclose] at hi
          cases hi
    · exact .inl rfl

/-- How the term `x` ends that `t` starts after `xs`, when `depth` parentheses are open and `ts`
follows. -/
inductive Term.Ending (depth : Nat) (xs : List Term) (t : Token) (ts : List Token) (x : Term) :
    Prop where
  | clause (hrole : x.role = .clause) (hxs : Terms.hasContent xs = false)
  /-- The arguments of a call are never closed, and all that follows is taken for them. -/
  | unclosed (hrest : ts.drop x.rest.length = []) (hopen : ∀ depth, openAfter depth x.tokens ≠ 0)
  | single (htokens : x.tokens = [t]) (hcontent : x.isContent)
      (hkind : canEndValue t.kind → endsValue x.kind = endsValue t.kind)
      (halias : t.kind.isIdentifier → depth = 0 →
        x.alias?.isSome = (Terms.endInValue xs && !t.isWord "dateadd"))
  | group {front : List Token} {r : Token} (htokens : x.tokens = front ++ [r])
      (hr : r.kind = .rightParen) (hcontent : x.isContent) (hkind : endsValue x.kind)
  | label {u : Token} (ht : t.is .AS) (hsignificant : significant x.tokens = [t, u])
      (hcontent : x.isContent) (hkind : endsValue x.kind = endsValue u.kind)
  /-- The last token, a dot or an equals sign, ends no value. -/
  | silent {u : Token} (hrole : x.role ≠ .clause)
      (hlast : (significant x.tokens).getLast? = some u) (hu : u.kind = .dot ∨ u.kind = .eq)

theorem ending_call {depth : Nat} {xs : List Term} {t : Token} {role : Role} (ts : List Token)
    (hrole : role = .call ∨ role = .value)
    (hkind : canEndValue t.kind → endsValue (Term.kind ⟨role, t, []⟩) = endsValue t.kind)
    (halias : t.kind.isIdentifier → t.isWord "dateadd") :
    Term.Ending depth xs t ts ⟨role, t, ts.take (Expression.callLength ts)⟩ := by
  have hcontent (rest : List Token) : Term.isContent ⟨role, t, rest⟩ := by
    rcases hrole with rfl | rfl <;> rfl
  have halias? (rest : List Token) : Term.alias? ⟨role, t, rest⟩ = none := by
    rcases hrole with rfl | rfl <;> rfl
  rcases callLength_cases ts with hzero | ⟨front, r, htake, hr⟩ | ⟨htake, hopen⟩
  · rw [hzero, List.take_zero]
    refine .single rfl (hcontent []) hkind fun hident _ => ?_
    simp [halias?, halias hident]
  · rw [htake]
    have htokens : Term.tokens ⟨role, t, front ++ [r]⟩ = (t :: front) ++ [r] := rfl
    refine .group htokens hr (hcontent _) ?_
    rcases hrole with rfl | rfl
    · rfl
    · simp [Term.kind, Term.last, hr, endsValue]
  · rw [htake]
    refine .unclosed (by simp) fun depth => ?_
    exact hopen _

theorem ending_plainTermAt (depth : Nat) (xs : List Term) {t : Token} (ts : List Token)
    (h : ¬(depth = 0 && t.kind ≠ .leftParen && t.kind ≠ .rightParen)) :
    Term.Ending depth xs t ts (plainTermAt t ts) := by
  unfold plainTermAt plainLength
  split
  · rename_i hdbo
    obtain ⟨d, rest, rfl, hd⟩ := eq_cons_of_startsWithDbo hdbo
    refine .silent (u := d) (by simp) ?_ (.inl hd)
    exact getLast?_significant_concat [t] (isTrivia_of_kind hd rfl)
  · split
    · rename_i hconvert
      refine ending_call ts (.inr rfl) (fun _ => rfl) fun hident => ?_
      rw [isIdentifier_of_is hconvert] at hident
      cases hident
    · refine .single rfl rfl (fun _ => rfl) fun hident hdepth => ?_
      cases hkind : t.kind <;> simp_all [Kind.isIdentifier, Kind.identifiers]

theorem ending_termAt (xs : List Term) {t : Token} (ts : List Token) (ht : t.isTrivia = false) :
    Term.Ending 0 xs t ts (termAt xs t ts) := by
  fun_cases termAt xs t ts with
  | case1 htop => exact .clause rfl (by simpa using (Bool.and_eq_true_iff.mp htop).2)
  | case2 htop hall => exact .clause rfl (by simpa using (Bool.and_eq_true_iff.mp hall).2)
  | case3 htop hall has u hu hname =>
      obtain ⟨rest, hskip⟩ := List.head?_eq_some_iff.mp hu
      obtain ⟨gap, rfl, hgap, hlength, htrivia⟩ := eq_append_of_skipTrivia hskip
      have htake : (gap ++ u :: rest).take (gap.length + 1) = gap ++ [u] := take_gap gap u rest 0
      rw [hlength, htake]
      refine .label (u := u) has ?_ rfl ?_
      · rw [Term.tokens, significant_cons ht, significant_append, significant_eq_nil hgap,
          significant_cons htrivia]
        rfl
      · have hlast : (gap ++ [u]).getLastD t = u := by simp
        simp only [Term.kind, Term.last, hlast, Token.asName]
        split
        · rename_i hstring
          simp [endsValue, hstring, Kind.isIdentifier, Kind.identifiers]
        · rfl
  | case4 htop hall has | case5 htop hall has =>
      refine .single rfl rfl (fun _ => rfl) fun hident => ?_
      rw [isIdentifier_of_is has] at hident
      cases hident
  | case6 htop hall has hcall =>
      rcases Bool.or_eq_true_iff.mp hcall with hconvert | hword
      · have hkind : canEndValue t.kind = false := by rw [kind_of_is hconvert]; rfl
        refine ending_call ts (.inl rfl) (by simp [hkind]) fun hident => ?_
        rw [isIdentifier_of_is hconvert] at hident
        cases hident
      · refine ending_call ts (.inl rfl) (fun _ => ?_) fun _ => hword
        simp [Term.kind, endsValue, isIdentifier_of_isWord hword]
  | case7 htop hall has hcall hdbo =>
      obtain ⟨d, rest, rfl, hd⟩ := eq_cons_of_startsWithDbo hdbo
      exact .silent (by simp) (getLast?_significant_concat [t] (isTrivia_of_kind hd rfl)) (.inl hd)
  | case8 htop hall has hcall hdbo hident htarget =>
      cases hfirst : firstSignificant? ts with
      | none => simp [hfirst] at htarget
      | some e =>
          have he : e.kind = .eq := by simpa [hfirst] using (Bool.and_eq_true_iff.mp htarget).2
          obtain ⟨rest, hskip⟩ := List.head?_eq_some_iff.mp hfirst
          obtain ⟨gap, rfl, hgap, hlength, htrivia⟩ := eq_append_of_skipTrivia hskip
          have hafter : ∀ u ∈ rest.take (triviaLength rest), u.isTrivia := by
            rw [Statement.take_triviaLength]
            exact fun u => List.mem_takeWhile_imp
          refine .silent (u := e) (by simp) ?_ (.inr he)
          rw [hskip, List.tail_cons, hlength, take_gap, Term.tokens, significant_cons ht,
            significant_append, significant_eq_nil hgap, significant_cons htrivia,
            significant_eq_nil hafter]
          rfl
  | case9 htop hall has hcall hdbo hident htarget hvalue =>
      refine .single rfl rfl (fun _ => rfl) fun _ _ => ?_
      have hword : t.isWord "dateadd" = false := by
        simp only [Bool.or_eq_true, not_or, Bool.not_eq_true] at hcall
        exact hcall.2
      simp [Term.alias?, hvalue, hword]
  | case10 htop hall has hcall hdbo hident htarget hvalue =>
      refine .single rfl rfl (fun _ => rfl) fun _ _ => ?_
      simp [Term.alias?, hvalue]
  | case11 htop hall has hcall hdbo hident hstar | case12 htop hall has hcall hdbo hident hstar =>
      exact .single rfl rfl (fun _ => rfl) fun h => absurd h hident

theorem ending_termWithin (depth : Nat) (xs : List Term) {t : Token} (ts : List Token)
    (ht : t.isTrivia = false) : Term.Ending depth xs t ts (termWithin depth xs t ts) := by
  unfold termWithin
  split
  · rename_i h
    obtain rfl : depth = 0 := by
      simp only [Bool.and_eq_true, decide_eq_true_eq] at h
      exact h.1.1
    exact ending_termAt xs ts ht
  · rename_i h
    exact ending_plainTermAt depth xs ts h

/-! ## Open parentheses -/

theorem depthAfter_le {d e : Nat} (h : d ≤ e) (t : Token) : t.depthAfter d ≤ t.depthAfter e := by
  simp only [Token.depthAfter]
  split <;> omega

/-- A group leaves as many parentheses open as there were before it, or more if it has no end. -/
theorem le_openAfter_take_closing (e k : Nat) (ts : List Token) :
    e ≤ openAfter (e + (k + 1))
      (ts.take (((closingParenFrom? (k + 1) ts).map (· + 1)).getD ts.length)) := by
  induction ts generalizing k with
  | nil => simp
  | cons t ts ih =>
      by_cases hclose : k = 0 ∧ t.kind = .rightParen
      · obtain ⟨rfl, hkind⟩ := hclose
        simp [closingParenFrom?, hkind, Token.depthAfter]
      · have hdepth : t.depthAfter (e + (k + 1)) = e + (t.depthAfter k + 1) := by
          simp only [Token.depthAfter]
          split
          · rfl
          · rename_i hkind
            have hk : k ≠ 0 := fun hzero => hclose ⟨hzero, hkind⟩
            omega
          · rfl
        have hrest := ih (t.depthAfter k)
        rw [closingParenFrom?_cons ts hclose]
        cases hi : closingParenFrom? (t.depthAfter k + 1) ts with
        | none => simpa [hi, hdepth] using hrest
        | some i => simpa [hi, hdepth] using hrest

theorem le_openAfter_take_callLength (e : Nat) (ts : List Token) :
    e ≤ openAfter e (ts.take (Expression.callLength ts)) := by
  unfold Expression.callLength
  split
  · exact Nat.le_refl e
  · rename_i u rest hskip
    obtain ⟨gap, rfl, hgap, hlength, hu⟩ := eq_append_of_skipTrivia hskip
    split
    · rename_i hleft
      rw [hlength, groupEnd_cons hleft, take_gap, openAfter_append, openAfter_of_trivia hgap,
        openAfter_cons]
      simp only [Token.depthAfter, hleft]
      exact le_openAfter_take_closing e 0 rest
    · exact Nat.le_refl e

/-- No more parentheses are open than the tokens say. -/
theorem Laid.le_openAfter {d : Nat} {xs : List Term} {rest : List Token} (h : Laid d xs rest) :
    d ≤ openAfter 0 (xs.flatMap Term.tokens) := by
  induction h with
  | nil rest => exact Nat.le_refl 0
  | gap h ht ih => simpa [Term.tokens, depthAfter_of_isTrivia ht] using ih
  | term h ht ih =>
      rename_i depth xs t ts
      rw [List.flatMap_append, openAfter_append, List.flatMap_singleton]
      unfold termWithin
      split
      · rename_i hfree
        simp only [Bool.and_eq_true, decide_eq_true_eq] at hfree
        rw [hfree.1.1, depthAfter_zero hfree.1.2]
        exact Nat.zero_le _
      · have hstart := depthAfter_le ih t
        rw [plainTermAt, Term.tokens, openAfter_cons]
        refine hstart.trans ?_
        unfold plainLength
        split
        · rename_i hdbo
          obtain ⟨d, rest, rfl, hd⟩ := eq_cons_of_startsWithDbo hdbo
          simp [Token.depthAfter, hd]
        · split
          · exact le_openAfter_take_callLength _ ts
          · exact Nat.le_refl _

/-! ## The last two tokens of a position -/

/-- The significant tokens of a position, without `DISTINCT`, `ALL`, and `TOP` with its count. -/
def Terms.own (xs : List Term) : List Token :=
  xs.flatMap fun x => if x.role = .clause then [] else significant x.tokens

theorem Terms.own_concat (xs : List Term) (x : Term) :
    own (xs ++ [x]) = own xs ++ if x.role = .clause then [] else significant x.tokens := by
  simp [own]

theorem significant_single {t : Token} (ht : t.isTrivia = false) : significant [t] = [t] := by
  rw [significant_cons ht]
  rfl

theorem Terms.endInValue_concat {xs : List Term} {x : Term} (h : x.isContent) :
    endInValue (xs ++ [x]) = endsValue x.kind := by
  simp [endInValue, lastKind?_concat, h]

theorem Terms.own_gap {xs : List Term} {t : Token} (ht : t.isTrivia) :
    own (xs ++ [⟨.gap, t, []⟩]) = own xs := by
  rw [own_concat, if_neg (by simp), significant_eq_nil (by simpa [Term.tokens] using ht),
    List.append_nil]

/-- The kind of a term is as good as that of its last token. -/
theorem Term.Ending.exists_last {depth : Nat} {xs : List Term} {t : Token} {ts : List Token}
    {x : Term} (h : Term.Ending depth xs t ts x) (ht : t.isTrivia = false)
    (hrest : ts.drop x.rest.length ≠ []) :
    x.role = .clause ∨ ∃ u, (significant x.tokens).getLast? = some u ∧
      (canEndValue u.kind → x.isContent ∧ endsValue x.kind = endsValue u.kind) := by
  cases h with
  | clause hrole hxs => exact .inl hrole
  | unclosed hrest' hopen => exact absurd hrest' hrest
  | single htokens hcontent hkind halias =>
      refine .inr ⟨t, ?_, fun hend => ⟨hcontent, hkind hend⟩⟩
      rw [htokens, significant_single ht]
      rfl
  | @group front r htokens hr hcontent hkind =>
      refine .inr ⟨r, ?_, fun _ => ⟨hcontent, ?_⟩⟩
      · rw [htokens]
        exact getLast?_significant_concat front (isTrivia_of_kind hr rfl)
      · rw [hkind, hr]
        rfl
  | @label u has hsignificant hcontent hkind =>
      refine .inr ⟨u, ?_, fun _ => ⟨hcontent, hkind⟩⟩
      rw [hsignificant]
      rfl
  | silent hrole hlast hu =>
      refine .inr ⟨_, hlast, fun hend => ?_⟩
      rcases hu with hu | hu <;> rw [hu] at hend <;> cases hend

/-- A position ends in a value as far as its last token shows it. -/
theorem Laid.endInValue_eq {d : Nat} {xs : List Term} {rest : List Token} (h : Laid d xs rest)
    (hrest : rest ≠ []) {v : Token} (hv : v ∈ (Terms.own xs).getLast?) (hend : canEndValue v.kind) :
    Terms.hasContent xs ∧ Terms.endInValue xs = endsValue v.kind := by
  induction h with
  | nil rest => simp [Terms.own] at hv
  | gap h ht ih =>
      rw [Terms.own_gap ht] at hv
      obtain ⟨hcontent, hvalue⟩ := ih (by simp) hv
      refine ⟨by simp [Terms.hasContent_concat, hcontent], ?_⟩
      rw [← hvalue, Terms.endInValue, Terms.lastKind?_concat]
      rfl
  | term h ht ih =>
      rename_i depth xs t ts
      have hending := ending_termWithin depth xs ts ht
      generalize termWithin depth xs t ts = x at hv hrest hending ⊢
      rw [Terms.own_concat] at hv
      by_cases hrole : x.role = .clause
      · have hx : x.isContent = false := by simp [Term.isContent, hrole]
        rw [if_pos hrole, List.append_nil] at hv
        obtain ⟨hcontent, hvalue⟩ := ih (by simp) hv
        refine ⟨by simp [Terms.hasContent_concat, hcontent], ?_⟩
        rw [← hvalue, Terms.endInValue, Terms.lastKind?_concat, hx]
        rfl
      · obtain ⟨u, hlast, hkind⟩ := (hending.exists_last ht hrest).resolve_left hrole
        rw [if_neg hrole, List.getLast?_append, hlast] at hv
        obtain rfl : u = v := by simpa using hv
        obtain ⟨hx, hkind⟩ := hkind hend
        exact ⟨by simp [Terms.hasContent_concat, hx], by rw [Terms.endInValue_concat hx, hkind]⟩

theorem canEndValue_of_isIdentifier {k : Kind} (h : k.isIdentifier) : canEndValue k := by
  simp [canEndValue, endsValue, h]

theorem role_ne_clause {x : Term} (h : x.isContent) : x.role ≠ .clause := by
  intro hrole
  simp [Term.isContent, hrole] at h

/-- Where a closed position ends with a value and a name, the name is a term of its own, and an
alias if the kind of the token before it is known to end a value. -/
theorem Laid.exists_bareAlias {d : Nat} {xs : List Term} {rest us : List Token} {v w : Token}
    (h : Laid d xs rest) (hclosed : openAfter 0 (xs.flatMap Term.tokens) = 0)
    (hown : Terms.own xs = us ++ [v, w]) (hv : canEndValue v.kind) (hw : w.kind.isIdentifier) :
    ∃ ys y gs, xs = ys ++ y :: gs ∧ y.tokens = [w] ∧ y.isContent ∧ (∀ g ∈ gs, g.role = .gap) ∧
      y.alias?.isSome = (endsValue v.kind && !w.isWord "dateadd") := by
  induction h with
  | nil rest => simp [Terms.own] at hown
  | gap h ht ih =>
      rename_i depth xs t ts
      rw [Terms.own_gap ht] at hown
      have hclosed : openAfter 0 (xs.flatMap Term.tokens) = 0 := by
        simpa [Term.tokens, depthAfter_of_isTrivia ht] using hclosed
      obtain ⟨ys, y, gs, rfl, htokens, hcontent, hgs, halias⟩ := ih hclosed hown
      refine ⟨ys, y, gs ++ [⟨.gap, t, []⟩], by simp, htokens, hcontent, ?_, halias⟩
      intro g hg
      rcases List.mem_append.mp hg with hg | hg
      · exact hgs g hg
      · rw [List.mem_singleton.mp hg]
  | term h ht ih =>
      rename_i depth xs t ts
      have hdepth : t.depthAfter depth = 0 := Nat.le_zero.mp (hclosed ▸ (h.term ht).le_openAfter)
      have hending := ending_termWithin depth xs ts ht
      generalize termWithin depth xs t ts = x at hown hclosed hending ⊢
      have hlast : (us ++ [v, w]).getLast? = some w := by simp
      rw [Terms.own_concat] at hown
      cases hending with
      | clause hrole hxs =>
          rw [if_pos hrole, List.append_nil] at hown
          rw [← hown] at hlast
          have hcontent := (h.endInValue_eq (by simp) hlast (canEndValue_of_isIdentifier hw)).1
          rw [hxs] at hcontent
          cases hcontent
      | unclosed hrest hopen =>
          rw [List.flatMap_append, openAfter_append, List.flatMap_singleton] at hclosed
          exact absurd hclosed (hopen _)
      | single htokens hcontent hkind halias =>
          have hsplit : Terms.own xs ++ [t] = (us ++ [v]) ++ [w] := by
            rw [if_neg (role_ne_clause hcontent), htokens, significant_single ht] at hown
            simpa using hown
          obtain ⟨hbefore, ht'⟩ := List.append_inj' hsplit rfl
          obtain rfl : t = w := by simpa using ht'
          have hvalue := (h.endInValue_eq (by simp) (by simp [hbefore]) hv).2
          have hzero : depth = 0 := by
            rw [← hdepth, Token.depthAfter]
            cases hkind : t.kind <;> simp_all [Kind.isIdentifier, Kind.identifiers]
          refine ⟨xs, x, [], rfl, htokens, hcontent, by simp, ?_⟩
          rw [halias hw hzero, hvalue]
      | @group front r htokens hr hcontent hkind =>
          have hr' := getLast?_significant_concat front (isTrivia_of_kind hr rfl)
          rw [← hown, if_neg (role_ne_clause hcontent), htokens, List.getLast?_append, hr'] at hlast
          obtain rfl : r = w := by simpa using hlast
          simp [hr, Kind.isIdentifier, Kind.identifiers] at hw
      | label has hsignificant hcontent hkind =>
          rw [if_neg (role_ne_clause hcontent), hsignificant] at hown
          have hpair := (List.append_inj' hown rfl).2
          obtain rfl : t = v := by simpa using (List.cons.inj hpair).1
          rw [kind_of_is has] at hv
          cases hv
      | @silent u hrole hu hkind =>
          rw [← hown, if_neg hrole, List.getLast?_append, hu] at hlast
          obtain rfl : u = w := by simpa using hlast
          rcases hkind with hkind | hkind <;>
            simp [hkind, Kind.isIdentifier, Kind.identifiers] at hw

/-! ## Positions with a bare alias -/

namespace Item

/-- The name that is written after the content of the `k`-th position with content. -/
def inserted (names : List (Option Text)) (k : Nat) (x : Item) : Option Text :=
  (if x.hasContent then Terms.target? x.terms else none).or (x.added names k)

theorem aliasText_inserted (names : List (Option Text)) (k : Nat) (x : Item) :
    aliasText (x.inserted names k) =
      aliasText (if x.hasContent then Terms.target? x.terms else none) ++
        aliasText (x.added names k) := by
  cases hcontent : x.hasContent <;> cases htarget : Terms.target? x.terms <;>
    simp [inserted, added, isNamed, hcontent, htarget, aliasText]

theorem textsWith_append (names : List (Option Text)) (k : Nat) (xs ys : List Item) :
    textsWith names k (xs ++ ys) =
      textsWith names k xs ++ textsWith names (k + xs.countP hasContent) ys := by
  induction xs generalizing k with
  | nil => rfl
  | cons x xs ih =>
      rw [List.cons_append, textsWith, ih, textsWith, List.countP_cons]
      cases x.hasContent <;> simp [Nat.add_assoc, Nat.add_comm 1]

end Item

namespace Terms

variable (ys : List Term) {gs : List Term} {y : Term}

theorem body_of_isContent (hy : y.isContent) (hgs : ∀ g ∈ gs, g.isContent = false) :
    body (ys ++ y :: gs) = ys ++ [y] ∧ trailing (ys ++ y :: gs) = gs := by
  have hreverse : (ys ++ y :: gs).reverse = gs.reverse ++ y :: ys.reverse := by simp
  have hskip : ∀ g ∈ gs.reverse, !g.isContent := by
    intro g hg
    simp [hgs g (List.mem_reverse.mp hg)]
  rw [body, trailing, hreverse]
  constructor
  · rw [List.dropWhile_append_of_pos hskip, List.dropWhile_cons_of_neg (by simp [hy])]
    simp
  · rw [List.takeWhile_append_of_pos hskip, List.takeWhile_cons_of_neg (by simp [hy])]
    simp

theorem isSome_alias?_append (hgs : ∀ g ∈ gs, g.alias? = none) :
    (alias? (ys ++ y :: gs)).isSome = (y.alias?.isSome || (alias? ys).isSome) := by
  have hreverse : (ys ++ y :: gs).reverse = gs.reverse ++ y :: ys.reverse := by simp
  have hnone : gs.reverse.findSome? Term.alias? = none :=
    List.findSome?_eq_none_iff.mpr fun g hg => hgs g (List.mem_reverse.mp hg)
  rw [alias?, hreverse, List.findSome?_append, hnone, Option.none_or, alias?]
  cases hy : y.alias? <;> simp [hy]

end Terms

/-- In a later arm, take a position whose parentheses are closed and that ends with a value and a
bare alias. It gets no second alias if and only if it is no assignment, and the alias is recognised
by the kind of the token before it, or an alias was recognised before that, or there is no name to
insert. -/
theorem inserted_eq_none_iff (names : List (Option Text)) {ts us : List Token}
    {parts₁ parts₂ : List Part} {select v w : Token} {items₁ items₂ : List Item} {x : Item}
    (hcut : cut ts = parts₁ ++ .list select (items₁ ++ x :: items₂) :: parts₂)
    (hown : Terms.own x.terms = us ++ [v, w]) (hv : canEndValue v.kind) (hw : w.kind.isIdentifier)
    (hclosed : openAfter 0 (x.terms.flatMap Term.tokens) = 0) :
    ∃ ys y gs, x.terms = ys ++ y :: gs ∧ y.tokens = [w] ∧
      let k := items₁.countP Item.hasContent
      ((Columns.mk names false).convert ts).1 =
        (parts₁.flatMap (Part.textWith names) ++ select.text ++ Item.textsWith names 0 items₁ ++
            Terms.text (ys ++ [y])) ++
          aliasText (x.inserted names k) ++
          (Terms.text gs ++ joinText x.comma.toList ++ Item.textsWith names (k + 1) items₂ ++
            parts₂.flatMap (Part.textWith names)) ∧
      (x.inserted names k = none ↔ Terms.target? x.terms = none ∧
        ((endsValue v.kind && !w.isWord "dateadd") ∨ (Terms.alias? ys).isSome ∨
          (names[k]?).join = none)) := by
  have hmem : Part.list select (items₁ ++ x :: items₂) ∈ cut ts := by simp [hcut]
  obtain ⟨d, rest, hlaid⟩ := laid_of_mem_cut hmem x (by simp)
  obtain ⟨ys, y, gs, hterms, htokens, hcontent, hgs, halias⟩ :=
    hlaid.exists_bareAlias hclosed hown hv hw
  have hgap : ∀ g ∈ gs, g.isContent = false ∧ g.alias? = none := by
    intro g hg
    simp [Term.isContent, Term.alias?, hgs g hg]
  obtain ⟨hbody, htrailing⟩ := Terms.body_of_isContent ys hcontent fun g hg => (hgap g hg).1
  have hx : x.hasContent := by
    simp [Item.hasContent, hterms, Terms.hasContent, hcontent]
  refine ⟨ys, y, gs, hterms, htokens, ?_, ?_⟩
  · have hinserted := x.aliasText_inserted names (items₁.countP Item.hasContent)
    rw [Columns.convert, read_eq_cut, Columns.write_parts, hcut]
    simp only [List.flatMap_append, List.flatMap_cons, Part.textWith, Item.textsWith_append,
      Item.textsWith, Item.before, Item.after, hterms, hbody, htrailing, hx, if_true, Nat.zero_add,
      List.append_assoc, hinserted]
  · have hnamed := Terms.isSome_alias?_append ys (y := y) fun g hg => (hgap g hg).2
    rw [halias, ← hterms] at hnamed
    cases htarget : Terms.target? x.terms with
    | some name => simp [Item.inserted, hx, htarget]
    | none =>
        simp only [Item.inserted, Item.added, Item.isNamed, hx, htarget, hnamed]
        cases endsValue v.kind && !w.isWord "dateadd" <;> cases (Terms.alias? ys).isSome <;> simp

theorem inserted_eq_none_iff_case :
    let names := [some "a".toList, some "b".toList]
    let ts := tokenize "SELECT TOP (5) x, CASE c END y /* d */, z".toList
    let items := ((cut ts).head?.bind Part.items?).getD []
    let x := items.getD 1 { terms := [] }
    (Terms.own x.terms).map Token.text = ["CASE", "c", "END", "y"].map String.toList ∧
      openAfter 0 (x.terms.flatMap Term.tokens) = 0 ∧ x.inserted names 1 = none := by
  intro names ts items x
  let tokenAt (i : Nat) : Token := (Terms.own x.terms).getD i ⟨.blank, [], ⟨0, 0⟩⟩
  obtain ⟨htexts, hclosed, hown, hv, hw, hword, htarget, hcount⟩ :
      (Terms.own x.terms).map Token.text = ["CASE", "c", "END", "y"].map String.toList ∧
      openAfter 0 (x.terms.flatMap Term.tokens) = 0 ∧
      Terms.own x.terms = (Terms.own x.terms).take 2 ++ [tokenAt 2, tokenAt 3] ∧
      canEndValue (tokenAt 2).kind ∧ (tokenAt 3).kind.isIdentifier ∧
      (endsValue (tokenAt 2).kind && !(tokenAt 3).isWord "dateadd") ∧
      Terms.target? x.terms = none ∧ (items.take 1).countP Item.hasContent = 1 := by
    decide +kernel
  have hcut : cut ts =
      [] ++ .list (ts.headD (tokenAt 0)) (items.take 1 ++ x :: items.drop 2) :: [] := by
    decide +kernel
  obtain ⟨ys, y, gs, -, -, -, hnone⟩ := inserted_eq_none_iff names hcut hown hv hw hclosed
  rw [hcount] at hnone
  exact ⟨htexts, hclosed, hnone.mpr ⟨htarget, .inl hword⟩⟩

/-- After `NULL` and after a variable a bare alias is not recognised. -/
theorem bareAlias_given_twice :
    let columns := Columns.mk [some "a".toList, some "b".toList] false
    (columns.convert (tokenize "SELECT NULL x, @v y".toList)).1 =
      "SELECT NULL x AS a, v y AS b".toList := by
  decide +kernel

end SqlMigration.View
