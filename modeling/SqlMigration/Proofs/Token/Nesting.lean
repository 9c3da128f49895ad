import SqlMigration.Proofs.Statement.Extent

/-! # Nesting in part of a list

Where a group or a block closes depends on nothing after it, and groups close from the inside out.
-/

namespace SqlMigration

theorem closingParenFrom?_lt {depth i : Nat} {ts : List Token}
    (h : closingParenFrom? depth ts = some i) : i < ts.length := by
  fun_induction closingParenFrom? depth ts generalizing i with
  | case1 => cases h
  | case2 depth t ts hkind ih | case4 depth t ts hkind hdepth ih | case5 depth t ts _ _ ih =>
      obtain ⟨j, hj, rfl⟩ := Option.map_eq_some_iff.mp h
      exact Nat.succ_lt_succ (ih hj)
  | case3 =>
      cases h
      exact Nat.zero_lt_succ _

/-- Where a group closes does not depend on what follows it. -/
theorem closingParenFrom?_append_iff {depth i : Nat} {ts : List Token} (us : List Token)
    (hi : i < ts.length) :
    closingParenFrom? depth (ts ++ us) = some i ↔ closingParenFrom? depth ts = some i := by
  induction ts generalizing depth i with
  | nil => cases hi
  | cons t ts ih =>
      have hmap (depth : Nat) :
          (closingParenFrom? depth (ts ++ us)).map (· + 1) = some i ↔
            (closingParenFrom? depth ts).map (· + 1) = some i := by
        cases i with
        | zero => simp
        | succ j => simpa using ih (Nat.lt_of_succ_lt_succ hi)
      rw [List.cons_append]
      simp only [closingParenFrom?]
      split
      · exact hmap _
      · split
        · rfl
        · exact hmap _
      · exact hmap _

/-- Of the groups that are open, the inner ones close first. -/
theorem closingParenFrom?_add (inner outer : Nat) (ts : List Token) :
    closingParenFrom? (inner + 1 + (outer + 1)) ts =
      (closingParenFrom? (inner + 1) ts).bind fun i =>
        (closingParenFrom? (outer + 1) (ts.drop (i + 1))).map (· + (i + 1)) := by
  induction ts generalizing inner with
  | nil => rfl
  | cons t ts ih =>
      have hmap (inner : Nat) :
          (closingParenFrom? (inner + 1 + (outer + 1)) ts).map (· + 1) =
            ((closingParenFrom? (inner + 1) ts).map (· + 1)).bind fun i =>
              (closingParenFrom? (outer + 1) ((t :: ts).drop (i + 1))).map (· + (i + 1)) := by
        rw [ih, Option.map_bind, Option.bind_map]
        congr 1
        funext i
        simp [Function.comp_def, Nat.add_assoc]
      simp only [closingParenFrom?]
      split
      · have h := hmap (inner + 1)
        rwa [Nat.add_right_comm (inner + 1) 1 (outer + 1)] at h
      · cases inner with
        | zero =>
            have hdepth : 0 + 1 + (outer + 1) - 1 = outer + 1 := by omega
            rw [if_neg (by omega), if_pos (Nat.le_refl 1), hdepth]
            rfl
        | succ inner =>
            have hdepth : inner + 1 + 1 + (outer + 1) - 1 = inner + 1 + (outer + 1) := by omega
            rw [if_neg (by omega), if_neg (by omega), hdepth]
            exact hmap inner
      · exact hmap inner

theorem closingParenFrom?_cons_left {depth : Nat} {t : Token} {ts : List Token}
    (h : t.kind = .leftParen) :
    closingParenFrom? (depth + 1) (t :: ts) =
      (closingParenFrom? (0 + 1 + (depth + 1)) ts).map (· + 1) := by
  simp only [closingParenFrom?, h, Nat.zero_add, Nat.add_comm 1]

theorem closingParenFrom?_cons_of_ne {depth : Nat} {t : Token} (ts : List Token)
    (hleft : t.kind ≠ .leftParen) (hright : t.kind ≠ .rightParen) :
    closingParenFrom? depth (t :: ts) = (closingParenFrom? depth ts).map (· + 1) := by
  simp only [closingParenFrom?]

theorem closingParenFrom?_trivia_append {depth : Nat} {ts : List Token} (us : List Token)
    (h : ∀ t ∈ ts, t.isTrivia) :
    closingParenFrom? depth (ts ++ us) = (closingParenFrom? depth us).map (· + ts.length) := by
  induction ts with
  | nil => simp
  | cons t ts ih =>
      obtain ⟨ht, hts⟩ := List.forall_mem_cons.mp h
      have hne : t.kind ≠ .leftParen ∧ t.kind ≠ .rightParen := by
        constructor <;> intro hkind <;>
          simp [Token.isTrivia, hkind, Kind.isTrivia, Kind.isComment] at ht
      rw [List.cons_append, closingParenFrom?_cons_of_ne _ hne.1 hne.2, ih hts, Option.map_map]
      rfl

/-- The trivia before the first significant token, and that token. -/
theorem eq_append_of_skipTrivia {ts rest : List Token} {u : Token}
    (h : skipTrivia ts = u :: rest) :
    ∃ gap, ts = gap ++ u :: rest ∧ (∀ t ∈ gap, t.isTrivia) ∧ triviaLength ts = gap.length ∧
      u.isTrivia = false := by
  refine ⟨ts.takeWhile Token.isTrivia, ?_, fun t => List.mem_takeWhile_imp, rfl, ?_⟩
  · rw [← h]
    exact List.takeWhile_append_dropWhile.symm
  · have hhead := List.head?_dropWhile_not Token.isTrivia ts
    rw [skipTrivia] at h
    rw [h] at hhead
    simpa using hhead

theorem skipTrivia_gap {gap : List Token} {u : Token} (rest : List Token)
    (hgap : ∀ t ∈ gap, t.isTrivia) (hu : u.isTrivia = false) :
    skipTrivia (gap ++ u :: rest) = u :: rest := by
  rw [skipTrivia, List.dropWhile_append_of_pos hgap, List.dropWhile_cons_of_neg (by simp [hu])]

theorem triviaLength_gap {gap : List Token} {u : Token} (rest : List Token)
    (hgap : ∀ t ∈ gap, t.isTrivia) (hu : u.isTrivia = false) :
    triviaLength (gap ++ u :: rest) = gap.length := by
  rw [triviaLength, List.takeWhile_append_of_pos hgap, List.takeWhile_cons_of_neg (by simp [hu]),
    List.append_nil]

theorem groupEnd_cons {u : Token} (hu : u.kind = .leftParen) (rest : List Token) :
    groupEnd (u :: rest) = ((closingParenFrom? 1 rest).map (· + 1)).getD rest.length := by
  simp [groupEnd, closingParen?, closingParenFrom?, hu]

theorem groupEnd_cons_le {u : Token} (hu : u.kind = .leftParen) (rest : List Token) :
    groupEnd (u :: rest) ≤ rest.length := by
  rw [groupEnd_cons hu]
  cases hclose : closingParenFrom? 1 rest with
  | none => exact Nat.le_refl _
  | some i => exact closingParenFrom?_lt hclose

theorem take_gap (gap : List Token) (u : Token) (rest : List Token) (n : Nat) :
    (gap ++ u :: rest).take (gap.length + 1 + n) = gap ++ u :: rest.take n := by
  rw [Nat.add_assoc, List.take_length_add_append, Nat.add_comm, List.take_succ_cons]

theorem drop_gap (gap : List Token) (u : Token) (rest : List Token) (n : Nat) :
    (gap ++ u :: rest).drop (gap.length + 1 + n) = rest.drop n := by
  rw [Nat.add_assoc, List.drop_length_add_append, Nat.add_comm, List.drop_succ_cons]

/-- The number of open parentheses after a token. -/
def Token.depthAfter (t : Token) (depth : Nat) : Nat :=
  match t.kind with
  | .leftParen => depth + 1
  | .rightParen => depth - 1
  | _ => depth

theorem closingParenFrom?_cons {depth : Nat} {t : Token} (ts : List Token)
    (h : ¬(depth = 0 ∧ t.kind = .rightParen)) :
    closingParenFrom? (depth + 1) (t :: ts) =
      (closingParenFrom? (t.depthAfter depth + 1) ts).map (· + 1) := by
  simp only [Token.depthAfter]
  split
  · rename_i hkind
    simp [closingParenFrom?, hkind]
  · rename_i hkind
    obtain ⟨d, rfl⟩ := Nat.exists_eq_succ_of_ne_zero fun hzero => h ⟨hzero, hkind⟩
    simp [closingParenFrom?, hkind]
  · rename_i hleft hright
    exact closingParenFrom?_cons_of_ne ts hleft hright

theorem skipTrivia_append {ts : List Token} (us : List Token) (h : skipTrivia ts ≠ []) :
    skipTrivia (ts ++ us) = skipTrivia ts ++ us := by
  rw [skipTrivia, List.dropWhile_append, skipTrivia, if_neg (by simpa [skipTrivia] using h)]

theorem triviaLength_append {ts : List Token} (us : List Token) (h : skipTrivia ts ≠ []) :
    triviaLength (ts ++ us) = triviaLength ts := by
  have hleft := triviaLength_add_length_skipTrivia (ts ++ us)
  have hright := triviaLength_add_length_skipTrivia ts
  rw [skipTrivia_append us h, List.length_append, List.length_append] at hleft
  omega

theorem skipTrivia_ne_nil_of_closing {depth : Nat} {ts : List Token}
    (h : (closingParenFrom? depth ts).isSome) : skipTrivia ts ≠ [] := by
  intro hnil
  have htrivia : ∀ t ∈ ts, t.isTrivia := List.dropWhile_eq_nil_iff.mp hnil
  have hnone : closingParenFrom? depth (ts ++ []) = _ :=
    closingParenFrom?_trivia_append [] htrivia
  rw [List.append_nil] at hnone
  simp [hnone, closingParenFrom?] at h

/-! ## Trivia -/

theorem kind_of_is {t : Token} {k : Keyword} (h : t.is k) : t.kind = .keyword k := by
  simpa [Token.is] using h

theorem isTrivia_of_kind {t : Token} {k : Kind} (h : t.kind = k) (hk : k.isTrivia = false) :
    t.isTrivia = false := by
  rw [Token.isTrivia, h, hk]

theorem isTrivia_of_is {t : Token} {k : Keyword} (h : t.is k) : t.isTrivia = false := by
  simp [Token.isTrivia, Kind.isTrivia, Kind.isComment, kind_of_is h]

theorem isTrivia_of_startsStatement {t : Token} (h : t.kind.startsStatement) :
    t.isTrivia = false := by
  cases hkind : t.kind <;>
    simp_all [Kind.startsStatement, Token.isTrivia, Kind.isTrivia, Kind.isComment]

theorem is_of_isTrivia {t : Token} (h : t.isTrivia) (k : Keyword) : t.is k = false := by
  cases hk : t.kind <;> simp_all [Token.isTrivia, Kind.isTrivia, Kind.isComment, Token.is]

theorem keyword?_of_isTrivia {t : Token} (h : t.isTrivia) : t.keyword? = none := by
  cases hkind : t.kind <;>
    simp_all [Token.isTrivia, Kind.isTrivia, Kind.isComment, Token.keyword?]

theorem skipTrivia_of_trivia {gap : List Token} (hgap : ∀ t ∈ gap, t.isTrivia) :
    skipTrivia gap = [] := List.dropWhile_eq_nil_iff.mpr hgap

theorem skipTrivia_append_trivia {gap : List Token} (hgap : ∀ t ∈ gap, t.isTrivia)
    {ts : List Token} (h : skipTrivia ts = []) : skipTrivia (ts ++ gap) = [] := by
  apply skipTrivia_of_trivia
  intro t ht
  rcases List.mem_append.mp ht with ht | ht
  · exact List.dropWhile_eq_nil_iff.mp h t ht
  · exact hgap t ht

theorem drop_triviaLength (ts : List Token) : ts.drop (triviaLength ts) = skipTrivia ts := by
  induction ts with
  | nil => rfl
  | cons t ts ih =>
      cases ht : t.isTrivia with
      | true => simpa [triviaLength, skipTrivia, ht] using ih
      | false => simp [triviaLength, skipTrivia, ht]

theorem triviaLength_lt {ts : List Token} (h : skipTrivia ts ≠ []) :
    triviaLength ts < ts.length := by
  have hlen := triviaLength_add_length_skipTrivia ts
  have hpos := List.length_pos_iff.mpr h
  omega

theorem eq_cons_of_startsWithDbo {t : Token} {ts : List Token} (h : startsWithDbo (t :: ts)) :
    ∃ d rest, ts = d :: rest ∧ d.kind = .dot := by
  cases ts with
  | nil => cases h
  | cons d rest => exact ⟨d, rest, rfl, by simpa using (Bool.and_eq_true_iff.mp h).2⟩

theorem startsWithDbo_append_trivia {gap : List Token} (hgap : ∀ t ∈ gap, t.isTrivia)
    (t : Token) (ts : List Token) : startsWithDbo (t :: (ts ++ gap)) = startsWithDbo (t :: ts) := by
  cases ts with
  | cons u ts => rfl
  | nil =>
      cases gap with
      | nil => rfl
      | cons u gap =>
          have hu : u.kind ≠ .dot := by
            intro hkind
            have htrivia := hgap u List.mem_cons_self
            simp [Token.isTrivia, hkind, Kind.isTrivia, Kind.isComment] at htrivia
          simp [startsWithDbo, hu]

/-! ## Significant tokens -/

/-- The tokens that are not trivia. -/
def significant (ts : List Token) : List Token := ts.filter fun t => !t.isTrivia

theorem significant_append (ts us : List Token) :
    significant (ts ++ us) = significant ts ++ significant us :=
  List.filter_append ..

theorem significant_cons {t : Token} (ht : t.isTrivia = false) (ts : List Token) :
    significant (t :: ts) = t :: significant ts := by
  simp [significant, ht]

theorem significant_eq_nil {ts : List Token} (h : ∀ t ∈ ts, t.isTrivia) :
    significant ts = [] := by
  simpa [significant] using h

theorem significant_of_skipTrivia {ts rest : List Token} {t : Token}
    (h : skipTrivia ts = t :: rest) : significant ts = t :: significant rest := by
  obtain ⟨gap, rfl, hgap, _, ht⟩ := eq_append_of_skipTrivia h
  rw [significant_append, significant_eq_nil hgap, significant_cons ht, List.nil_append]

theorem significant_skipTrivia (ts : List Token) :
    significant (skipTrivia ts) = significant ts := by
  cases h : skipTrivia ts with
  | nil =>
      rw [significant_eq_nil (List.dropWhile_eq_nil_iff.mp h)]
      rfl
  | cons t rest =>
      obtain ⟨_, _, _, _, ht⟩ := eq_append_of_skipTrivia h
      rw [significant_of_skipTrivia h, significant_cons ht]

theorem head?_skipTrivia (ts : List Token) : (skipTrivia ts).head? = (significant ts).head? := by
  cases h : skipTrivia ts with
  | nil =>
      rw [← significant_skipTrivia, h]
      rfl
  | cons t rest =>
      rw [significant_of_skipTrivia h]
      rfl

/-! ## Lists that are cut off -/

theorem skipTrivia_take (ts : List Token) (m : Nat) :
    skipTrivia (ts.take m) = (skipTrivia ts).take (m - triviaLength ts) := by
  induction ts generalizing m with
  | nil => simp [skipTrivia]
  | cons t ts ih =>
      cases m with
      | zero => simp [skipTrivia]
      | succ m =>
          cases ht : t.isTrivia with
          | true =>
              have hm : m + 1 - (triviaLength ts + 1) = m - triviaLength ts := by omega
              simpa [skipTrivia, triviaLength, ht, hm] using ih m
          | false => simp [skipTrivia, triviaLength, ht]

theorem firstSignificant?_take {ts : List Token} {m : Nat} (h : triviaLength ts < m) :
    firstSignificant? (ts.take m) = firstSignificant? ts := by
  rw [firstSignificant?, firstSignificant?, skipTrivia_take, List.head?_take, if_neg (by omega)]

theorem triviaLength_take {ts : List Token} {m : Nat} (h : triviaLength ts ≤ m) :
    triviaLength (ts.take m) = triviaLength ts := by
  have hfull := triviaLength_add_length_skipTrivia ts
  have htake := triviaLength_add_length_skipTrivia (ts.take m)
  rw [skipTrivia_take, List.length_take, List.length_take] at htake
  omega

theorem firstSignificant?_append_trivia {gap : List Token} (hgap : ∀ t ∈ gap, t.isTrivia)
    (ts : List Token) : firstSignificant? (ts ++ gap) = firstSignificant? ts := by
  have hnil : gap.dropWhile Token.isTrivia = [] := List.dropWhile_eq_nil_iff.mpr hgap
  rw [firstSignificant?, firstSignificant?, skipTrivia, skipTrivia, List.dropWhile_append, hnil]
  cases ts.dropWhile Token.isTrivia <;> rfl

/-- A list without the trivia at its end, and that trivia. -/
theorem exists_eq_append_gap (ts : List Token) :
    ∃ core gap, ts = core ++ gap ∧ core.length = significantLength ts ∧ ∀ t ∈ gap, t.isTrivia := by
  refine ⟨(ts.reverse.dropWhile Token.isTrivia).reverse,
    (ts.reverse.takeWhile Token.isTrivia).reverse, ?_, ?_, ?_⟩
  · rw [← List.reverse_append, List.takeWhile_append_dropWhile, List.reverse_reverse]
  · rw [List.length_reverse, significantLength]
  · intro t ht
    exact List.mem_takeWhile_imp (List.mem_reverse.mp ht)

/-! ## Lists that end with a significant token -/

theorem significantLength_append_trivia {gap : List Token} (hgap : ∀ t ∈ gap, t.isTrivia)
    (ts : List Token) : significantLength (ts ++ gap) = significantLength ts := by
  rw [significantLength, List.reverse_append,
    List.dropWhile_append_of_pos fun t ht => hgap t (List.mem_reverse.mp ht), significantLength]

theorem significantLength_of_last {ts : List Token} (h : ∀ z ∈ ts.getLast?, z.isTrivia = false) :
    significantLength ts = ts.length := by
  rw [significantLength]
  cases hlast : ts.reverse with
  | nil => simp [List.reverse_eq_nil_iff.mp hlast]
  | cons z rest =>
      have hz : z.isTrivia = false := h z (by simp [List.getLast?_eq_head?_reverse, hlast])
      rw [List.dropWhile_cons_of_neg (by simp [hz]), ← hlast, List.length_reverse]

theorem length_le_significantLength {ts : List Token}
    (h : ∀ z ∈ ts.getLast?, z.isTrivia = false) (us : List Token) :
    ts.length ≤ significantLength (ts ++ us) := by
  rw [significantLength, List.reverse_append, List.dropWhile_append]
  split
  · exact (significantLength_of_last h).ge
  · rw [List.length_append, List.length_reverse]
    exact Nat.le_add_left _ _

/-! ## Lists that close their parentheses -/

/-- The number of open parentheses after the tokens, when `depth` are open before them. -/
def openAfter (depth : Nat) (ts : List Token) : Nat :=
  ts.foldl (fun depth t => t.depthAfter depth) depth

@[simp] theorem openAfter_nil (depth : Nat) : openAfter depth [] = depth := rfl

@[simp] theorem openAfter_cons (depth : Nat) (t : Token) (ts : List Token) :
    openAfter depth (t :: ts) = openAfter (t.depthAfter depth) ts := rfl

@[simp] theorem openAfter_append (depth : Nat) (ts us : List Token) :
    openAfter depth (ts ++ us) = openAfter (openAfter depth ts) us := List.foldl_append

theorem depthAfter_of_isTrivia {t : Token} (h : t.isTrivia) (depth : Nat) :
    t.depthAfter depth = depth := by
  cases hk : t.kind <;> simp_all [Token.isTrivia, Kind.isTrivia, Kind.isComment, Token.depthAfter]

theorem depthAfter_of_is {t : Token} {k : Keyword} (h : t.is k) (depth : Nat) :
    t.depthAfter depth = depth := by
  simp [Token.depthAfter, kind_of_is h]

theorem depthAfter_zero {t : Token} (h : t.kind ≠ .leftParen) : t.depthAfter 0 = 0 := by
  simp only [Token.depthAfter]
  split <;> simp_all

theorem openAfter_drop_qualifier {t : Token} {ts : List Token} (hdbo : startsWithDbo (t :: ts))
    (depth : Nat) : openAfter depth (ts.drop 1) = openAfter depth ts := by
  obtain ⟨d, rest, rfl, hd⟩ := eq_cons_of_startsWithDbo hdbo
  simp [Token.depthAfter, hd]

theorem openAfter_of_trivia {gap : List Token} (hgap : ∀ t ∈ gap, t.isTrivia) (depth : Nat) :
    openAfter depth gap = depth := by
  induction gap with
  | nil => rfl
  | cons t gap ih =>
      obtain ⟨ht, hgap⟩ := List.forall_mem_cons.mp hgap
      rw [openAfter_cons, depthAfter_of_isTrivia ht, ih hgap]

theorem openAfter_of_skipTrivia {ts rest : List Token} {u : Token} (depth : Nat)
    (h : skipTrivia ts = u :: rest) : openAfter depth ts = openAfter (u.depthAfter depth) rest := by
  obtain ⟨gap, rfl, hgap, -, -⟩ := eq_append_of_skipTrivia h
  rw [openAfter_append, openAfter_of_trivia hgap, openAfter_cons]

theorem openAfter_skipTrivia (depth : Nat) (ts : List Token) :
    openAfter depth (skipTrivia ts) = openAfter depth ts := by
  have hsplit := List.takeWhile_append_dropWhile (p := Token.isTrivia) (l := ts)
  rw [← hsplit, openAfter_append, openAfter_of_trivia fun t ht => List.mem_takeWhile_imp ht, hsplit]
  rfl

/-- A group that is closed in the end closes somewhere, and what follows is closed as well. -/
theorem exists_closingParenFrom? {outer inner : Nat} {ts : List Token}
    (h : openAfter (outer + (inner + 1)) ts = 0) :
    ∃ i, closingParenFrom? (inner + 1) ts = some i ∧ openAfter outer (ts.drop (i + 1)) = 0 := by
  induction ts generalizing inner with
  | nil => simp at h
  | cons t ts ih =>
      by_cases hclose : inner = 0 ∧ t.kind = .rightParen
      · obtain ⟨rfl, hkind⟩ := hclose
        exact ⟨0, by simp [closingParenFrom?, hkind], by simpa [Token.depthAfter, hkind] using h⟩
      · have hdepth : t.depthAfter (outer + (inner + 1)) = outer + (t.depthAfter inner + 1) := by
          simp only [Token.depthAfter]
          split
          · rfl
          · rename_i hkind
            have hinner : inner ≠ 0 := fun hzero => hclose ⟨hzero, hkind⟩
            omega
          · rfl
        rw [openAfter_cons, hdepth] at h
        obtain ⟨i, hi, hrest⟩ := ih h
        exact ⟨i + 1, by rw [closingParenFrom?_cons ts hclose, hi]; rfl, hrest⟩


/-- The group that opens right before `ts` is closed in the end. -/
theorem exists_groupEnd {depth : Nat} {u : Token} {rest : List Token} (hu : u.kind = .leftParen)
    (h : openAfter (depth + (0 + 1)) rest = 0) :
    ∃ i, closingParenFrom? 1 rest = some i ∧ groupEnd (u :: rest) = i + 1 ∧
      openAfter depth (rest.drop (i + 1)) = 0 := by
  obtain ⟨i, hi, hrest⟩ := exists_closingParenFrom? h
  exact ⟨i, hi, by rw [groupEnd_cons hu, hi]; rfl, hrest⟩

theorem groupEnd_append {depth : Nat} {u : Token} {rest : List Token} (hu : u.kind = .leftParen)
    (h : openAfter (depth + 1) rest = 0) (us : List Token) :
    groupEnd (u :: (rest ++ us)) = groupEnd (u :: rest) := by
  obtain ⟨i, hi, hend, -⟩ := exists_groupEnd hu h
  have happend := (closingParenFrom?_append_iff us (closingParenFrom?_lt hi)).mpr hi
  rw [hend, groupEnd_cons hu, happend]
  rfl

/-! ## Tokens outside parentheses -/

theorem topLevelFrom?_take {p : Token → Bool} {depth k m : Nat} {ts : List Token}
    (h : topLevelFrom? p depth ts = some k) (hm : k < m) :
    topLevelFrom? p depth (ts.take m) = some k := by
  obtain ⟨m, rfl⟩ := Nat.exists_eq_add_one_of_ne_zero (Nat.ne_zero_of_lt hm)
  fun_induction topLevelFrom? p depth ts generalizing k m with
  | case1 => cases h
  | case2 depth t ts hkind ih | case3 depth t ts hkind ih =>
      obtain ⟨j, hj, rfl⟩ := Option.map_eq_some_iff.mp h
      obtain ⟨m, rfl⟩ := Nat.exists_eq_add_one_of_ne_zero (by omega : m ≠ 0)
      simp [topLevelFrom?, hkind, ih hj m (by omega)]
  | case4 depth t ts hp hleft hright =>
      cases h
      simp_all [topLevelFrom?]
  | case5 depth t ts hp hleft hright ih =>
      obtain ⟨j, hj, rfl⟩ := Option.map_eq_some_iff.mp h
      obtain ⟨m, rfl⟩ := Nat.exists_eq_add_one_of_ne_zero (by omega : m ≠ 0)
      simp [topLevelFrom?, hp, ih hj m (by omega)]

theorem topLevelFrom?_or {p q : Token → Bool} {depth k : Nat} {ts : List Token}
    (h : topLevelFrom? p depth ts = some k) (hq : topLevelFrom? q depth (ts.take k) = none) :
    topLevelFrom? (fun t => q t || p t) depth ts = some k := by
  fun_induction topLevelFrom? p depth ts generalizing k with
  | case1 => cases h
  | case2 depth t ts hkind ih | case3 depth t ts hkind ih =>
      obtain ⟨j, hj, rfl⟩ := Option.map_eq_some_iff.mp h
      simp_all [topLevelFrom?]
  | case4 depth t ts hp hleft hright =>
      cases h
      simp_all [topLevelFrom?]
  | case5 depth t ts hp hleft hright ih =>
      obtain ⟨j, hj, rfl⟩ := Option.map_eq_some_iff.mp h
      rw [List.take_succ_cons] at hq
      simp only [topLevelFrom?] at hq ⊢
      split at hq
      · cases hq
      · rename_i hqt
        rw [if_neg (by simp_all), ih hj (Option.map_eq_none_iff.mp hq)]
        rfl

theorem topLevelFrom?_or_eq_none {p q : Token → Bool} {depth : Nat} {ts : List Token}
    (hp : topLevelFrom? p depth ts = none) (hq : topLevelFrom? q depth ts = none) :
    topLevelFrom? (fun t => q t || p t) depth ts = none := by
  fun_induction topLevelFrom? p depth ts with
  | case1 => rfl
  | case4 => cases hp
  | case2 depth t ts hkind ih | case3 depth t ts hkind ih => simp_all [topLevelFrom?]
  | case5 depth t ts hpt hleft hright ih =>
      simp only [topLevelFrom?] at hq ⊢
      split at hq
      · cases hq
      · rename_i hqt
        rw [if_neg (by simp_all), ih (Option.map_eq_none_iff.mp hp) (Option.map_eq_none_iff.mp hq)]
        rfl

theorem topLevelFrom?_take_eq_none {p : Token → Bool} {depth : Nat} {ts : List Token}
    (h : topLevelFrom? p depth ts = none) (m : Nat) :
    topLevelFrom? p depth (ts.take m) = none := by
  fun_induction topLevelFrom? p depth ts generalizing m with
  | case1 => simp [topLevelFrom?]
  | case4 => cases h
  | case2 depth t ts hkind ih | case3 depth t ts hkind ih =>
      cases m with
      | zero => rfl
      | succ m => simp [topLevelFrom?, hkind, ih (Option.map_eq_none_iff.mp h) m]
  | case5 depth t ts hp hleft hright ih =>
      cases m with
      | zero => rfl
      | succ m => simp [topLevelFrom?, hp, ih (Option.map_eq_none_iff.mp h) m]

theorem drop_of_topLevelFrom? {p : Token → Bool} {depth k : Nat} {ts : List Token}
    (h : topLevelFrom? p depth ts = some k) : ∃ u us, ts.drop k = u :: us ∧ p u := by
  fun_induction topLevelFrom? p depth ts generalizing k with
  | case1 => cases h
  | case4 depth t ts hp =>
      cases h
      exact ⟨t, ts, rfl, (Bool.and_eq_true_iff.mp hp).2⟩
  | case2 depth t ts hkind ih | case3 depth t ts hkind ih | case5 depth t ts hp hleft hright ih =>
      obtain ⟨j, hj, rfl⟩ := Option.map_eq_some_iff.mp h
      exact ih hj

theorem topLevelFrom?_cons_eq_none {p : Token → Bool} {depth : Nat} {t : Token} {ts : List Token}
    (h : topLevelFrom? p depth (t :: ts) = none) :
    topLevelFrom? p (t.depthAfter depth) ts = none ∧
      (depth = 0 → t.kind ≠ .leftParen → t.kind ≠ .rightParen → p t = false) := by
  rw [topLevelFrom?] at h
  split at h
  · rename_i hkind
    simp [Token.depthAfter, hkind, Option.map_eq_none_iff.mp h]
  · rename_i hkind
    simp [Token.depthAfter, hkind, Option.map_eq_none_iff.mp h]
  · split at h
    · cases h
    · rename_i hleft hright hp
      have hdepth : t.depthAfter depth = depth := by simp [Token.depthAfter]
      refine ⟨by rw [hdepth, Option.map_eq_none_iff.mp h], ?_⟩
      rintro rfl - -
      simpa using hp

theorem topLevelFrom?_eq_none_mono {p q : Token → Bool} {depth : Nat} {ts : List Token}
    (hpq : ∀ t, p t → q t) (h : topLevelFrom? q depth ts = none) :
    topLevelFrom? p depth ts = none := by
  fun_induction topLevelFrom? q depth ts with
  | case1 => rfl
  | case4 => cases h
  | case2 depth t ts hkind ih | case3 depth t ts hkind ih =>
      simp [topLevelFrom?, hkind, ih (Option.map_eq_none_iff.mp h)]
  | case5 depth t ts hq hleft hright ih =>
      have hp : ¬(decide (depth = 0) && p t) = true := by
        intro hp
        obtain ⟨hdepth, hp⟩ := Bool.and_eq_true_iff.mp hp
        exact hq (Bool.and_eq_true_iff.mpr ⟨hdepth, hpq t hp⟩)
      simp [topLevelFrom?, hp, ih (Option.map_eq_none_iff.mp h)]

theorem topLevelFrom?_append_left {p : Token → Bool} {depth k : Nat} {ts : List Token}
    (h : topLevelFrom? p depth ts = some k) (us : List Token) :
    topLevelFrom? p depth (ts ++ us) = some k := by
  fun_induction topLevelFrom? p depth ts generalizing k with
  | case1 => cases h
  | case4 depth t ts hp hleft hright =>
      cases h
      simp_all [topLevelFrom?]
  | case2 depth t ts hkind ih | case3 depth t ts hkind ih =>
      obtain ⟨j, hj, rfl⟩ := Option.map_eq_some_iff.mp h
      simp [topLevelFrom?, hkind, ih hj]
  | case5 depth t ts hp hleft hright ih =>
      obtain ⟨j, hj, rfl⟩ := Option.map_eq_some_iff.mp h
      simp [topLevelFrom?, hp, ih hj]

/-- Beyond a list without such a token the search goes on at the depth it ends with. -/
theorem topLevelFrom?_append {p : Token → Bool} {depth : Nat} {ts : List Token}
    (h : topLevelFrom? p depth ts = none) (us : List Token) :
    topLevelFrom? p depth (ts ++ us) =
      (topLevelFrom? p (openAfter depth ts) us).map (· + ts.length) := by
  fun_induction topLevelFrom? p depth ts with
  | case1 depth => simp
  | case4 => cases h
  | case2 depth t ts hkind ih | case3 depth t ts hkind ih =>
      simp only [List.cons_append, topLevelFrom?, hkind, ih (Option.map_eq_none_iff.mp h),
        Option.map_map, openAfter_cons, Token.depthAfter]
      rfl
  | case5 depth t ts hp hleft hright ih =>
      have hdepth : t.depthAfter depth = depth := by simp [Token.depthAfter]
      rw [List.cons_append, topLevelFrom?, openAfter_cons, hdepth]
      simp only [hp, ih (Option.map_eq_none_iff.mp h), Option.map_map]
      rfl

theorem topLevelFrom?_trivia {p : Token → Bool} {gap : List Token}
    (hgap : ∀ t ∈ gap, t.isTrivia) (hp : ∀ t : Token, t.isTrivia → p t = false) (depth : Nat) :
    topLevelFrom? p depth gap = none := by
  induction gap with
  | nil => rfl
  | cons t gap ih =>
      obtain ⟨ht, hgap⟩ := List.forall_mem_cons.mp hgap
      cases hkind : t.kind <;>
        simp_all [topLevelFrom?, Token.isTrivia, Kind.isTrivia, Kind.isComment]

/-! ## Blocks -/

theorem triviaLength_cons_of_keyword? {t : Token} {k : Keyword} (h : t.keyword? = some k)
    (ts : List Token) : triviaLength (t :: ts) = 0 := by
  simp [triviaLength, isTrivia_of_keyword? h]

theorem triviaLength_lt_of_throughEndFrom? {depth n : Nat} {ts : List Token}
    (h : throughEndFrom? depth ts = some n) : triviaLength ts < n := by
  fun_induction throughEndFrom? depth ts generalizing n with
  | case1 => cases h
  | case2 depth t ts hkeyword ih | case3 depth t ts hkeyword ih
  | case5 depth t ts hkeyword _ ih =>
      obtain ⟨m, -, rfl⟩ := Option.map_eq_some_iff.mp h
      rw [triviaLength_cons_of_keyword? hkeyword]
      exact Nat.succ_pos m
  | case4 depth t ts hkeyword =>
      cases h
      rw [triviaLength_cons_of_keyword? hkeyword]
      exact Nat.one_pos
  | case6 depth t ts _ _ _ ih =>
      obtain ⟨m, hm, rfl⟩ := Option.map_eq_some_iff.mp h
      have hlt := ih hm
      cases ht : t.isTrivia <;> simp [triviaLength, ht] at hlt ⊢
      exact hlt

theorem opensTransaction_take {ts : List Token} {m : Nat} (h : triviaLength ts < m) :
    opensTransaction (ts.take m) = opensTransaction ts := by
  rw [opensTransaction, opensTransaction, firstKeyword?, firstKeyword?, firstSignificant?_take h]

theorem throughEndFrom?_take {depth n m : Nat} {ts : List Token}
    (h : throughEndFrom? depth ts = some n) (hm : n ≤ m) :
    throughEndFrom? depth (ts.take m) = some n := by
  fun_induction throughEndFrom? depth ts generalizing n m with
  | case1 => cases h
  | case2 depth t ts hkeyword ih =>
      obtain ⟨i, hi, rfl⟩ := Option.map_eq_some_iff.mp h
      obtain ⟨m, rfl⟩ := Nat.exists_eq_add_one_of_ne_zero (by omega : m ≠ 0)
      have hlt := triviaLength_lt_of_throughEndFrom? hi
      simp [throughEndFrom?, hkeyword, opensTransaction_take (by omega : triviaLength ts < m),
        ih hi (by omega : i ≤ m)]
  | case3 depth t ts hkeyword ih =>
      obtain ⟨i, hi, rfl⟩ := Option.map_eq_some_iff.mp h
      obtain ⟨m, rfl⟩ := Nat.exists_eq_add_one_of_ne_zero (by omega : m ≠ 0)
      simp [throughEndFrom?, hkeyword, ih hi (by omega : i ≤ m)]
  | case5 depth t ts hkeyword hdepth ih =>
      obtain ⟨i, hi, rfl⟩ := Option.map_eq_some_iff.mp h
      obtain ⟨m, rfl⟩ := Nat.exists_eq_add_one_of_ne_zero (by omega : m ≠ 0)
      simp [throughEndFrom?, hkeyword, hdepth, ih hi (by omega : i ≤ m)]
  | case4 depth t ts hkeyword hdepth =>
      cases h
      obtain ⟨m, rfl⟩ := Nat.exists_eq_add_one_of_ne_zero (by omega : m ≠ 0)
      simp [throughEndFrom?, hkeyword, hdepth]
  | case6 depth t ts _ _ _ ih =>
      obtain ⟨i, hi, rfl⟩ := Option.map_eq_some_iff.mp h
      obtain ⟨m, rfl⟩ := Nat.exists_eq_add_one_of_ne_zero (by omega : m ≠ 0)
      simp [throughEndFrom?, ih hi (by omega : i ≤ m)]

theorem throughEndFrom?_append_trivia {gap : List Token} (hgap : ∀ t ∈ gap, t.isTrivia)
    (depth : Nat) (ts : List Token) :
    throughEndFrom? depth (ts ++ gap) = throughEndFrom? depth ts := by
  have hopens (ts : List Token) : opensTransaction (ts ++ gap) = opensTransaction ts := by
    rw [opensTransaction, opensTransaction, firstKeyword?, firstKeyword?,
      firstSignificant?_append_trivia hgap]
  have hnone (depth : Nat) : throughEndFrom? depth gap = none := by
    cases h : throughEndFrom? depth gap with
    | none => rfl
    | some n =>
        have hlt := triviaLength_lt_of_throughEndFrom? h
        have hle := throughEndFrom?_le h
        have hlen := triviaLength_add_length_skipTrivia gap
        have hskip : skipTrivia gap = [] := List.dropWhile_eq_nil_iff.mpr hgap
        rw [hskip, List.length_nil] at hlen
        omega
  fun_induction throughEndFrom? depth ts with
  | case1 => exact hnone _
  | case2 depth t ts hkeyword ih => simp [throughEndFrom?, hkeyword, hopens, ih]
  | case3 depth t ts hkeyword ih  => simp [throughEndFrom?, hkeyword, ih]
  | case4 depth t ts hkeyword hdepth => simp [throughEndFrom?, hkeyword, hdepth]
  | case5 depth t ts hkeyword hdepth ih => simp [throughEndFrom?, hkeyword, hdepth, ih]
  | case6 depth t ts _ _ _ ih => simp [throughEndFrom?, ih]

end SqlMigration
