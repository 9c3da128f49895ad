import SqlMigration.Proofs.Token.Nesting
import SqlMigration.Proofs.Token.Rereading
import SqlMigration.Query

/-! # Seams

Where a clause is taken out of a statement, the tokens before and after it come together. A `TOP`
clause always leaves blank space or a comment behind. A hint takes the blank space before it away,
so that the tokens around it may run together.
-/

namespace SqlMigration.Query

open Token Text

/-- Whether a position lies in one of the bounds. -/
def isCut (cuts : List Bounds) (i : Nat) : Bool := cuts.any fun b => b.start ≤ i && i < b.stop

/-- What is left of a list that starts at position `i`. -/
def remaining (cuts : List Bounds) (i : Nat) : List Token → List Token
  | [] => []
  | t :: ts => if isCut cuts i then remaining cuts (i + 1) ts else t :: remaining cuts (i + 1) ts

/-- The bounds of what is taken away from a statement. -/
def cuts (ts : List Token) : List Bounds := ((top? ts).map Top.bounds).toList ++ hints ts

/-- Whether the tokens in front of the hints can stand before what follows the hints. A token is in
front of a hint if the hint comes next or after one more token, which may be the letter of an
exponent. -/
def seamsHoldFrom (cuts hints : List Bounds) (i : Nat) : List Token → Bool
  | [] => true
  | t :: ts =>
      (isCut cuts i || t.kind = .blank || !(isCut hints (i + 1) || isCut hints (i + 2)) ||
          t.standsBefore (joinText (remaining cuts (i + 1) ts))) &&
        seamsHoldFrom cuts hints (i + 1) ts

/-- Whether the hints of a statement can be taken away. -/
def seamsHold (ts : List Token) : Bool := seamsHoldFrom (cuts ts) (hints ts) 0 ts

theorem outside_eq_remaining (cuts : List Bounds) (ts : List Token) :
    outside cuts ts = remaining cuts 0 ts := by
  have hfrom (i : Nat) (ts : List Token) :
      ((ts.zipIdx i).filter fun p => !isCut cuts p.2).map Prod.fst = remaining cuts i ts := by
    induction ts generalizing i with
    | nil => rfl
    | cons t ts ih =>
        rw [List.zipIdx_cons, List.filter_cons, remaining, ← ih (i + 1)]
        cases isCut cuts i <;> rfl
  exact hfrom 0 ts

theorem standsBefore_of_seamsHold {cuts hints : List Bounds} {i : Nat} {before rest : List Token}
    {t : Token} (h : seamsHoldFrom cuts hints i (before ++ t :: rest))
    (hkept : isCut cuts (i + before.length) = false) (hblank : t.kind ≠ .blank)
    (hhint : isCut hints (i + before.length + 1) || isCut hints (i + before.length + 2)) :
    t.standsBefore (joinText (remaining cuts (i + before.length + 1) rest)) := by
  induction before generalizing i with
  | nil =>
      have hhead := (Bool.and_eq_true_iff.mp h).1
      rw [List.length_nil, Nat.add_zero] at hkept hhint ⊢
      simpa only [hkept, hblank, hhint, decide_false, Bool.or_false, Bool.not_true, Bool.false_or]
        using hhead
  | cons u before ih =>
      have htail := (Bool.and_eq_true_iff.mp h).2
      have hindex : i + (u :: before).length = i + 1 + before.length := by
        rw [List.length_cons]
        omega
      rw [hindex] at hkept hhint ⊢
      exact ih htail hkept hhint

/-! ## The start of a `TOP` clause -/

variable {script : Text} {ts : List Token}

/-- The tokens of a script have the shapes of their kinds. -/
theorem shape_of_isInfix (h : ts <:+: tokenize script) {t : Token} (ht : t ∈ ts) :
    Shape t.kind t.text ∧ t.text ≠ [] :=
  ⟨shape_of_mem_read (h.subset ht), text_ne_nil_of_mem_read _ (h.subset ht)⟩

/-- Between two keywords there is blank space or a comment. -/
theorem isTrivia_between_keywords (h : ts <:+: tokenize script) {i : Nat} {t u : Token}
    {k k' : Keyword} (ht : ts[i]? = some t) (hk : t.is k)
    (hu : ts[nextSignificant ts (i + 1)]? = some u) (hk' : u.is k') :
    ∃ v, ts[nextSignificant ts (i + 1) - 1]? = some v ∧ v.isTrivia := by
  have hsplit : ts = ts.take i ++ t :: ts.drop (i + 1) := by
    obtain ⟨hlt, rfl⟩ := List.getElem?_eq_some_iff.mp ht
    rw [← List.drop_eq_getElem_cons hlt, List.take_append_drop]
  unfold nextSignificant at hu ⊢
  rw [← List.getElem?_drop] at hu
  generalize hrest : ts.drop (i + 1) = rest at *
  cases hlength : triviaLength rest with
  | zero =>
      rw [hlength] at hu
      obtain ⟨after, rfl⟩ : ∃ after, rest = u :: after :=
        List.head?_eq_some_iff.mp (List.head?_eq_getElem? ▸ hu)
      have hmem : t ∈ ts ∧ u ∈ ts := by
        rw [hsplit]
        simp
      obtain ⟨hstays, hstays'⟩ := stays_pair_of_isInfix h hsplit
      exact absurd hstays (not_stays_keyword (of_decide_eq_true hk) (of_decide_eq_true hk') hstays'
        (shape_of_isInfix h hmem.1).2 (shape_of_isInfix h hmem.2).2)
  | succ n =>
      have hlt : n < (rest.takeWhile Token.isTrivia).length := by
        rw [triviaLength] at hlength
        omega
      obtain ⟨v, hv⟩ : ∃ v, (rest.takeWhile Token.isTrivia)[n]? = some v :=
        ⟨_, List.getElem?_eq_getElem hlt⟩
      have hget : rest[n]? = some v := by
        rw [← List.takeWhile_append_dropWhile (p := Token.isTrivia) (l := rest),
          List.getElem?_append_left hlt, hv]
      rw [← hrest, List.getElem?_drop] at hget
      exact ⟨v, hget, List.all_eq_true.mp List.all_takeWhile v (List.mem_of_getElem? hv)⟩

/-- A keyword comes before the `TOP` clause, with nothing significant in between. -/
theorem exists_keyword_before_top {top : Top} (htop : top? ts = some top) :
    ∃ (i : Nat) (t u : Token) (k : Keyword), ts[i]? = some t ∧ t.is k ∧
      top.bounds.start = nextSignificant ts (i + 1) ∧ ts[top.bounds.start]? = some u ∧
      u.is .TOP := by
  unfold top? at htop
  obtain ⟨select, hselect, htop⟩ := Option.bind_eq_some_iff.mp htop
  obtain ⟨s, _, hdrop, hword⟩ := drop_of_topLevelFrom? hselect
  have hs : ts[select]? = some s := by
    rw [← List.head?_drop, hdrop]
    rfl
  dsimp only at htop
  have hprevious : ∃ (i : Nat) (t : Token) (k : Keyword), ts[i]? = some t ∧ t.is k ∧
      (if (ts[nextSignificant ts (select + 1)]?).any (fun t => t.is .DISTINCT || t.is .ALL)
        then nextSignificant ts (nextSignificant ts (select + 1) + 1)
        else nextSignificant ts (select + 1)) = nextSignificant ts (i + 1) := by
    split
    · rename_i hquantifier
      obtain ⟨t, ht, hk⟩ := (Option.any_eq_true _ _).mp hquantifier
      rcases Bool.or_eq_true_iff.mp hk with hk | hk
      · exact ⟨_, t, _, ht, hk, rfl⟩
      · exact ⟨_, t, _, ht, hk, rfl⟩
    · exact ⟨select, s, _, hs, hword, rfl⟩
  obtain ⟨i, t, k, ht, hk, hstart⟩ := hprevious
  rw [hstart] at htop
  split at htop
  · rename_i hTop
    obtain ⟨u, hu, hword⟩ := (Option.any_eq_true _ _).mp hTop
    obtain ⟨limit, hlimit, htop⟩ := Option.bind_eq_some_iff.mp htop
    split at htop
    · cases htop
    · cases htop
      exact ⟨i, t, u, k, ht, hk, rfl, hu, hword⟩
  · cases htop

theorem isCut_cuts (ts : List Token) (i : Nat) :
    isCut (cuts ts) i =
      ((top? ts).any (fun top => top.bounds.start ≤ i && i < top.bounds.stop) ||
        isCut (hints ts) i) := by
  cases htop : top? ts <;> simp [isCut, cuts, htop]

/-- The token before a `TOP` clause is blank space or a comment. -/
theorem isTrivia_before_top (h : ts <:+: tokenize script) {i : Nat}
    (hkept : isCut (cuts ts) i = false) (hcut : isCut (cuts ts) (i + 1))
    (hhint : isCut (hints ts) (i + 1) = false) :
    ∃ v u, ts[i]? = some v ∧ v.isTrivia ∧ ts[i + 1]? = some u ∧ u.is .TOP := by
  rw [isCut_cuts] at hkept hcut
  cases htop : top? ts with
  | none => simp [htop, hhint] at hcut
  | some top =>
      have hbounds : i + 1 = top.bounds.start := by
        simp [htop, hhint] at hkept hcut
        omega
      obtain ⟨j, t, u, k, ht, hk, hstart, hu, hword⟩ := exists_keyword_before_top htop
      rw [hstart] at hu
      obtain ⟨v, hv, htrivia⟩ := isTrivia_between_keywords h ht hk hu hword
      rw [← hstart, ← hbounds] at hv hu
      exact ⟨v, u, hv, htrivia, hu, hword⟩

/-! ## What follows a token -/

theorem alike_append {a r r' : Text} (ha : a ≠ [])
    (h : ∀ c, a = [c] → (c = 'e' || c = 'E') = true → r'.head? = r.head?) :
    Alike (a ++ r) (a ++ r') := by
  right
  match a, ha, h with
  | [c], _, h =>
      rw [List.singleton_append, List.singleton_append, peek, peek]
      split
      · rename_i hc
        have hhead := h c rfl hc
        cases r <;> cases r' <;> simp_all
      · rfl
  | c :: d :: a, _, _ =>
      simp only [List.cons_append, peek]
      split <;> rfl

/-- A comment in front of a `TOP` clause ends by itself. -/
theorem stays_before_top (h : ts <:+: tokenize script) {before rest : List Token} {t u : Token}
    (hts : ts = before ++ t :: u :: rest) (ht : t.isTrivia) (hblank : t.kind ≠ .blank)
    (hu : u.is .TOP) (r : Text) : stays t r := by
  have hmem : t ∈ ts ∧ u ∈ ts := by simp [hts]
  have hshape := (shape_of_isInfix h hmem.1).1
  cases hkind : t.kind with
  | lineComment =>
      -- The name of the clause would be part of the comment.
      obtain ⟨hstays, hstays'⟩ := stays_pair_of_isInfix h hts
      exact absurd hstays (not_stays_lineComment hshape hkind (of_decide_eq_true hu) hstays'
        (shape_of_isInfix h hmem.2).2)
  | blockComment => exact stays_blockComment hshape hkind r
  | blank => exact absurd hkind hblank
  | _ => simp [Token.isTrivia, hkind, Kind.isTrivia, Kind.isComment] at ht

/-- The letter of an exponent is no blank space and no comment. -/
theorem isTrivia_exponent {t : Token} {c : Char} (hshape : Shape t.kind t.text) (ht : t.text = [c])
    (hc : (c = 'e' || c = 'E') = true) : t.isTrivia = false := by
  have hletter : isBlank c = false := by
    rcases Bool.or_eq_true_iff.mp hc with hc | hc
    all_goals
      rw [of_decide_eq_true hc]
      decide +kernel
  unfold Token.isTrivia
  generalize t.kind = k at hshape ⊢
  rw [ht] at hshape
  generalize hs : [c] = s at hshape
  cases hshape with
  | blank _ h =>
      have hblank := h c (hs ▸ List.mem_singleton_self c)
      exact absurd (hblank.symm.trans hletter) nofun
  | lineComment _ => cases hs
  | blockComment _ => cases hs
  | bare hk _ _ =>
      have hk := (Bool.and_eq_true_iff.mp (Bool.and_eq_true_iff.mp hk).1).1
      simpa using hk
  | quoted hk _ _ _ =>
      simp only [quotedKinds, List.mem_cons, List.not_mem_nil, or_false] at hk
      rcases hk with rfl | rfl | rfl | rfl <;> rfl
  | _ => rfl

/-- What is left after a token looks the same to the token. -/
theorem alike_remaining (h : ts <:+: tokenize script) {before rest : List Token} {t u : Token}
    (hts : ts = before ++ t :: u :: rest) (hhint : isCut (hints ts) (before.length + 2) = false)
    (hkept : isCut (cuts ts) (before.length + 1) = false) :
    Alike (joinText (u :: rest))
      (joinText (remaining (cuts ts) (before.length + 1) (u :: rest))) := by
  rw [remaining, hkept, if_neg nofun, joinText_cons, joinText_cons]
  obtain ⟨hshape, hne⟩ := shape_of_isInfix (t := u) h (by simp [hts])
  refine alike_append hne fun c hc he => ?_
  cases rest with
  | nil => rfl
  | cons v rest =>
      cases hcut : isCut (cuts ts) (before.length + 1 + 1) with
      | false =>
          have hv : v.text ≠ [] := (shape_of_isInfix h (by simp [hts])).2
          rw [remaining, hcut]
          obtain ⟨d, s, hd⟩ := List.exists_cons_of_ne_nil hv
          rw [if_neg nofun, joinText_cons, joinText_cons, hd]
          rfl
      | true =>
          obtain ⟨w, -, hw, htrivia, -⟩ := isTrivia_before_top h hkept hcut hhint
          obtain rfl : u = w := by simpa [hts] using hw
          rw [isTrivia_exponent hshape hc he] at htrivia
          cases htrivia

theorem standsBefore_remaining (h : ts <:+: tokenize script) (hseams : seamsHold ts)
    {before rest : List Token} {t : Token} (hts : ts = before ++ t :: rest)
    (hkept : isCut (cuts ts) before.length = false) (hblank : t.kind ≠ .blank) :
    t.standsBefore (joinText (remaining (cuts ts) (before.length + 1) rest)) := by
  cases hhints : isCut (hints ts) (before.length + 1) || isCut (hints ts) (before.length + 2) with
  | true =>
      rw [seamsHold] at hseams
      have hseams : seamsHoldFrom (cuts ts) (hints ts) 0 (before ++ t :: rest) := hts ▸ hseams
      simpa only [Nat.zero_add] using standsBefore_of_seamsHold hseams
        (by rwa [Nat.zero_add]) hblank (by rwa [Nat.zero_add])
  | false =>
      obtain ⟨hhint, hhint'⟩ := Bool.or_eq_false_iff.mp hhints
      refine Bool.or_eq_true_iff.mpr (.inl ?_)
      have hstays := stays_of_isInfix h hts
      have hne : t.text ≠ [] := (shape_of_isInfix h (by simp [hts])).2
      cases rest with
      | nil => exact hstays
      | cons u rest =>
          cases hcut : isCut (cuts ts) (before.length + 1) with
          | false => exact stays_of_alike hne hstays (alike_remaining h hts hhint' hcut)
          | true =>
              obtain ⟨v, w, hv, htrivia, hw, hword⟩ := isTrivia_before_top h hkept hcut hhint
              obtain ⟨rfl, rfl⟩ : t = v ∧ u = w := by simpa [hts] using And.intro hv hw
              exact stays_before_top h hts htrivia hblank hword _

theorem spellings_remaining (h : ts <:+: tokenize script) (hseams : seamsHold ts)
    {before rest : List Token} (hts : ts = before ++ rest) :
    spellings (tokenize (joinText (remaining (cuts ts) before.length rest))) =
      spellings (remaining (cuts ts) before.length rest) := by
  induction rest generalizing before with
  | nil =>
      rw [remaining, joinText_nil, tokenize, read_nil]
  | cons t rest ih =>
      have hnext : ts = (before ++ [t]) ++ rest := by simp [hts]
      have hrest := ih hnext
      rw [List.length_append, List.length_singleton] at hrest
      rw [remaining]
      split
      · exact hrest
      · rename_i hkept
        obtain ⟨hshape, hne⟩ := shape_of_isInfix (t := t) h (by simp [hts])
        have hstands : t.kind = .blank ∨
            t.standsBefore (joinText (remaining (cuts ts) (before.length + 1) rest)) := by
          by_cases hblank : t.kind = .blank
          · exact .inl hblank
          · exact .inr (standsBefore_remaining h hseams hts (by simpa using hkept) hblank)
        rw [joinText_cons, spellings_append hshape hne hstands, spellings_cons, hrest]

theorem seamsHold_of_hints_eq_nil (h : hints ts = []) : seamsHold ts := by
  have hfrom (cuts : List Bounds) (i : Nat) (ts : List Token) : seamsHoldFrom cuts [] i ts := by
    induction ts generalizing i with
    | nil => rfl
    | cons t ts ih => simp [seamsHoldFrom, isCut, ih]
  rw [seamsHold, h]
  exact hfrom _ 0 ts

/-- What is kept of a statement is read again as the same significant tokens. Only hints can make
tokens run together; taking a `TOP` clause away never does. -/
theorem spellings_kept (h : ts <:+: tokenize script) (hseams : hints ts ≠ [] → seamsHold ts) :
    spellings (tokenize (joinText (kept ts))) = spellings (kept ts) := by
  have hseams : seamsHold ts := by
    by_cases hhints : hints ts = []
    · exact seamsHold_of_hints_eq_nil hhints
    · exact hseams hhints
  have hkept : kept ts = remaining (cuts ts) ([] : List Token).length ts :=
    outside_eq_remaining _ ts
  rw [hkept]
  exact spellings_remaining h hseams rfl

/-- A limit, a hint after a comment and a hint before a comma. -/
theorem spellings_kept_limited :
    let ts := tokenize "SELECT TOP 5 a FROM t -- first\n(NOLOCK)\n, u WITH (NOLOCK), v".toList
    (hints ts).length = 2 ∧ seamsHold ts ∧
      spellings (tokenize (joinText (kept ts))) = spellings (kept ts) ∧
      joinText (kept ts) = "SELECT a FROM t -- first\n, u, v".toList := by
  intro ts
  have hseams : seamsHold ts := by decide +kernel
  refine ⟨by decide +kernel, hseams, ?_, by decide +kernel⟩
  exact spellings_kept (List.infix_refl ts) fun _ => hseams

/-- A hint between two words makes them one. -/
theorem spellings_hint_between_words :
    let ts := tokenize "SELECT a FROM t(NOLOCK)b".toList
    joinText (kept ts) = "SELECT a FROM tb".toList ∧
      spellings (tokenize (joinText (kept ts))) ≠ spellings (kept ts) := by
  decide +kernel

end SqlMigration.Query
