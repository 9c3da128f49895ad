import SqlMigration.Proofs.Statement.Isolation

/-! # Statements do not depend on layout

Blank space and comments take no part in the division into statements. Each scan for the end of a
statement stops behind the same significant token when the trivia are taken away; positions then
count the significant tokens only.
-/

namespace SqlMigration

/-! ## Counting significant tokens -/

/-- The number of significant tokens among the first `n`. -/
def rank (ts : List Token) (n : Nat) : Nat := (significant (ts.take n)).length

section
variable {t : Token} {ts : List Token}

theorem significant_cons_of_isTrivia (ht : t.isTrivia) (ts : List Token) :
    significant (t :: ts) = significant ts := by
  simp [significant, ht]

theorem rank_cons_of_isTrivia (ht : t.isTrivia) (ts : List Token) (n : Nat) :
    rank (t :: ts) (n + 1) = rank ts n := by
  rw [rank, List.take_succ_cons, significant_cons_of_isTrivia ht, rank]

theorem rank_cons (ht : t.isTrivia = false) (ts : List Token) (n : Nat) :
    rank (t :: ts) (n + 1) = rank ts n + 1 := by
  rw [rank, List.take_succ_cons, significant_cons ht, List.length_cons, rank]

theorem rank_one (ht : t.isTrivia = false) (ts : List Token) : rank (t :: ts) 1 = 1 :=
  rank_cons ht ts 0

theorem rank_add (ts : List Token) (n m : Nat) :
    rank ts (n + m) = rank ts n + rank (ts.drop n) m := by
  rw [rank, List.take_add, significant_append, List.length_append, rank, rank]

theorem significant_take (ts : List Token) (n : Nat) :
    significant (ts.take n) = (significant ts).take (rank ts n) := by
  have hsplit : significant ts = significant (ts.take n) ++ significant (ts.drop n) := by
    rw [← significant_append, List.take_append_drop]
  rw [hsplit, rank, List.take_left]

theorem significant_drop (ts : List Token) (n : Nat) :
    significant (ts.drop n) = (significant ts).drop (rank ts n) := by
  have hsplit : significant ts = significant (ts.take n) ++ significant (ts.drop n) := by
    rw [← significant_append, List.take_append_drop]
  rw [hsplit, rank, List.drop_left]

theorem rank_of_isPrefix {us : List Token} (h : us <+: ts) {n : Nat} (hn : n ≤ us.length) :
    rank ts n = rank us n := by
  obtain ⟨rest, rfl⟩ := h
  rw [rank, List.take_append_of_le_length hn, rank]

theorem rank_triviaLength (ts : List Token) : rank ts (triviaLength ts) = 0 := by
  rw [rank, Statement.take_triviaLength, significant_eq_nil fun t ht => List.mem_takeWhile_imp ht]
  rfl

theorem rank_triviaLength_succ (h : skipTrivia ts ≠ []) : rank ts (triviaLength ts + 1) = 1 := by
  obtain ⟨u, rest, hskip⟩ := List.exists_cons_of_ne_nil h
  obtain ⟨-, -, -, -, hu⟩ := eq_append_of_skipTrivia hskip
  rw [rank_add, rank_triviaLength, drop_triviaLength, hskip, rank_one hu]

theorem rank_significantLength (ts : List Token) :
    rank ts (significantLength ts) = (significant ts).length := by
  obtain ⟨core, gap, rfl, hlen, hgap⟩ := exists_eq_append_gap ts
  rw [← hlen, rank, List.take_left, significant_append, significant_eq_nil hgap, List.append_nil]

end

/-! ## Scans of significant tokens -/

section
variable (ts : List Token)

theorem isTrivia_of_mem_significant {t : Token} {ts : List Token} (h : t ∈ significant ts) :
    t.isTrivia = false := by
  simpa [significant] using (List.mem_filter.mp h).2

@[simp] theorem skipTrivia_significant : skipTrivia (significant ts) = significant ts := by
  cases hts : significant ts with
  | nil => rfl
  | cons t rest =>
      have ht : t.isTrivia = false := isTrivia_of_mem_significant (hts ▸ List.mem_cons_self)
      simp [skipTrivia, ht]

@[simp] theorem triviaLength_significant : triviaLength (significant ts) = 0 := by
  have hlen := triviaLength_add_length_skipTrivia (significant ts)
  rw [skipTrivia_significant] at hlen
  omega

@[simp] theorem firstSignificant?_significant :
    firstSignificant? (significant ts) = firstSignificant? ts := by
  rw [firstSignificant?, skipTrivia_significant, firstSignificant?, head?_skipTrivia]

@[simp] theorem significantLength_significant :
    significantLength (significant ts) = (significant ts).length :=
  significantLength_of_last fun _ hz => isTrivia_of_mem_significant (List.mem_of_getLast? hz)

@[simp] theorem opensTransaction_significant :
    opensTransaction (significant ts) = opensTransaction ts := by
  rw [opensTransaction_eq, firstSignificant?_significant, opensTransaction_eq]

theorem skipTrivia_eq_nil_iff : skipTrivia ts = [] ↔ significant ts = [] := by
  rw [← significant_skipTrivia]
  cases hskip : skipTrivia ts with
  | nil => simp [significant]
  | cons t rest =>
      obtain ⟨-, -, -, -, ht⟩ := eq_append_of_skipTrivia hskip
      simp [significant_cons ht]

end

section
variable {t : Token} (ts : List Token) (found : Option Nat)

theorem map_rank_cons_of_isTrivia (ht : t.isTrivia) :
    (found.map (· + 1)).map (rank (t :: ts)) = found.map (rank ts) := by
  rw [Option.map_map]
  congr 1
  funext n
  exact rank_cons_of_isTrivia ht ts n

theorem map_rank_cons (ht : t.isTrivia = false) :
    (found.map (· + 1)).map (rank (t :: ts)) = (found.map (rank ts)).map (· + 1) := by
  rw [Option.map_map, Option.map_map]
  congr 1
  funext n
  exact rank_cons ht ts n

end

theorem topLevelFrom?_significant {p : Token → Bool} (hp : ∀ t : Token, t.isTrivia → p t = false)
    (depth : Nat) (ts : List Token) :
    topLevelFrom? p depth (significant ts) = (topLevelFrom? p depth ts).map (rank ts) := by
  induction ts generalizing depth with
  | nil => rfl
  | cons t ts ih =>
      cases ht : t.isTrivia with
      | true =>
          have hstep : topLevelFrom? p depth (t :: ts) = (topLevelFrom? p depth ts).map (· + 1) := by
            have hnone := topLevelFrom?_trivia (List.forall_mem_singleton.mpr ht) hp depth
            have hdepth : openAfter depth [t] = depth :=
              openAfter_of_trivia (List.forall_mem_singleton.mpr ht) depth
            exact (topLevelFrom?_append hnone ts).trans (by rw [hdepth]; rfl)
          rw [significant_cons_of_isTrivia ht, hstep, map_rank_cons_of_isTrivia ts _ ht, ih]
      | false =>
          rw [significant_cons ht]
          simp only [topLevelFrom?]
          split
          · rw [map_rank_cons ts _ ht, ih]
          · rw [map_rank_cons ts _ ht, ih]
          · split
            · rfl
            · rw [map_rank_cons ts _ ht, ih]

theorem throughEndFrom?_significant (depth : Nat) (ts : List Token) :
    throughEndFrom? depth (significant ts) = (throughEndFrom? depth ts).map (rank ts) := by
  induction ts generalizing depth with
  | nil => rfl
  | cons t ts ih =>
      cases ht : t.isTrivia with
      | true =>
          have hstep : throughEndFrom? depth (t :: ts) =
              (throughEndFrom? depth ts).map (· + 1) := by
            simp only [throughEndFrom?, keyword?_of_isTrivia ht]
          rw [significant_cons_of_isTrivia ht, hstep, map_rank_cons_of_isTrivia ts _ ht, ih]
      | false =>
          rw [significant_cons ht]
          simp only [throughEndFrom?, opensTransaction_significant]
          split
          · rw [map_rank_cons ts _ ht, ih]
          · rw [map_rank_cons ts _ ht, ih]
          · split
            · rw [Option.map_some, rank_one ht]
            · rw [map_rank_cons ts _ ht, ih]
          · rw [map_rank_cons ts _ ht, ih]

namespace Statement

/-! ## Extents -/

variable {t : Token} {ts : List Token}

theorem significant_takeWhile {p : Token → Bool} (hp : ∀ t : Token, t.isTrivia → p t)
    (ts : List Token) : significant (ts.takeWhile p) = (significant ts).takeWhile p := by
  induction ts with
  | nil => rfl
  | cons t ts ih =>
      cases ht : t.isTrivia with
      | true =>
          rw [List.takeWhile_cons_of_pos (hp t ht), significant_cons_of_isTrivia ht,
            significant_cons_of_isTrivia ht, ih]
      | false =>
          rw [significant_cons ht, List.takeWhile_cons, List.takeWhile_cons]
          split
          · rw [significant_cons ht, ih]
          · rfl

theorem moduleExtent_significant (ht : t.isTrivia = false) (ts : List Token) :
    moduleExtent (significant ts) = rank (t :: ts) (moduleExtent ts) := by
  have hgo (u : Token) (hu : u.isTrivia) : (!u.is .GO) = true := by simp [is_of_isTrivia hu]
  rw [moduleExtent, moduleExtent, Nat.add_comm, Nat.add_comm 1, rank_cons ht,
    rank_of_isPrefix (List.takeWhile_prefix _) (significantLength_le _), rank_significantLength,
    ← significant_takeWhile hgo, significantLength_significant]

theorem throughNext_significant (q : Token → Bool) (ts : List Token) (n : Nat) :
    throughNext q (significant ts) (rank ts n) = rank ts (throughNext q ts n) := by
  rw [throughNext, throughNext, ← significant_drop, firstSignificant?_significant,
    triviaLength_significant]
  split
  · rename_i hfound
    have hskip : skipTrivia (ts.drop n) ≠ [] := by
      intro hnil
      simp [firstSignificant?, hnil] at hfound
    rw [Nat.add_assoc n, rank_add, rank_triviaLength_succ hskip]
  · rfl

theorem max_significantLength_significant (ht : t.isTrivia = false) (ts : List Token) :
    max 1 (significantLength (significant (t :: ts))) =
      rank (t :: ts) (max 1 (significantLength (t :: ts))) := by
  rw [Nat.max_eq_right (significantLength_pos ht), rank_significantLength,
    significantLength_significant, significant_cons ht, List.length_cons]
  omega

theorem blockExtent_significant (ht : t.isTrivia = false) (ts : List Token) :
    blockExtent (significant (t :: ts)) = rank (t :: ts) (blockExtent (t :: ts)) := by
  have hthrough := throughEndFrom?_significant 0 (t :: ts)
  cases hend : throughEnd? (t :: ts) with
  | none =>
      rw [throughEnd?] at hend
      rw [hend] at hthrough
      simp only [blockExtent, throughEnd?, hthrough, hend, Option.map_none]
      exact max_significantLength_significant ht ts
  | some n =>
      rw [throughEnd?] at hend
      rw [hend] at hthrough
      rw [blockExtent_of_end hend, blockExtent_of_end hthrough, throughNext_significant,
        throughNext_significant]

theorem Scan.pass_significant (first : Option Keyword) (st : Scan) (t : Token) (ts : List Token) :
    st.pass first t (significant ts) = st.pass first t ts := by
  refine Scan.pass_congr (fun k _ => ?_) st
  rw [isAlterClause_eq, firstSignificant?_significant, isAlterClause_eq]

theorem plainFrom_significant (first : Option Keyword) (st : Scan) {i : Nat} (stop : Nat)
    {rest : List Token} (hrest : ts.drop i = rest) :
    plainFrom first st (rank ts i) (rank ts stop) (significant rest) =
      rank ts (plainFrom first st i stop rest) := by
  induction rest generalizing st i stop with
  | nil => rfl
  | cons t rest ih =>
      have hnext : ts.drop (i + 1) = rest := by
        rw [← List.drop_drop, hrest, List.drop_one, List.tail_cons]
      have hrank : rank ts (i + 1) = rank ts i + rank (t :: rest) 1 := by rw [rank_add, hrest]
      cases ht : t.isTrivia with
      | true =>
          have hsame : rank ts (i + 1) = rank ts i := hrank.trans (by
            rw [rank_cons_of_isTrivia ht]
            rfl)
          rw [significant_cons_of_isTrivia ht, plainFrom, if_pos ht, ← hsame]
          exact ih st stop hnext
      | false =>
          rw [rank_one ht] at hrank
          rw [significant_cons ht, plainFrom, plainFrom, ht, if_neg Bool.false_ne_true,
            if_neg Bool.false_ne_true, Scan.pass_significant]
          cases st.pass first t rest with
          | before => rfl
          | after => exact hrank.symm
          | goesOn st' =>
              rw [← hrank]
              exact ih st' (i + 1) hnext

theorem plainExtent_significant (ht : t.isTrivia = false) (ts : List Token) :
    plainExtent t (significant ts) = rank (t :: ts) (plainExtent t ts) := by
  have hplain (st : Scan) : plainFrom t.keyword? st 1 1 (significant ts) =
      rank (t :: ts) (plainFrom t.keyword? st 1 1 ts) := by
    have hdrop : (t :: ts).drop 1 = ts := rfl
    have hscan := plainFrom_significant t.keyword? st 1 hdrop
    rwa [rank_one ht] at hscan
  simp only [plainExtent]
  split
  · exact (rank_one ht ts).symm
  · exact hplain _
  · exact hplain _

theorem opening_significant (t : Token) (ts : List Token) :
    opening t (significant ts) = opening t ts := by
  simp only [opening, definesModule_eq, firstSignificant?_significant, opensTransaction_significant]

theorem throughElse_significant {n : Nat}
    (ih : ∀ m, skipTrivia (ts.drop m) ≠ [] → extent (significant (ts.drop m)) =
      rank (skipTrivia (ts.drop m)) (extent (skipTrivia (ts.drop m)))) :
    throughElse (significant ts) (rank ts n) = rank ts (throughElse ts n) := by
  rw [throughElse, throughElse, ← significant_drop, firstSignificant?_significant,
    triviaLength_significant]
  split
  · rename_i helse
    have hskip : skipTrivia (ts.drop n) ≠ [] := by
      intro hnil
      simp [firstSignificant?, hnil] at helse
    have hm : rank ts n + 0 + 1 = rank ts (n + triviaLength (ts.drop n) + 1) := by
      rw [Nat.add_assoc n, rank_add, rank_triviaLength_succ hskip]
    simp only [hm, ← significant_drop, skipTrivia_significant, triviaLength_significant]
    by_cases hnil : skipTrivia (ts.drop (n + triviaLength (ts.drop n) + 1)) = []
    · rw [if_pos hnil, if_pos ((skipTrivia_eq_nil_iff _).mp hnil)]
    · rw [if_neg hnil, if_neg (mt (skipTrivia_eq_nil_iff _).mpr hnil), ih _ hnil]
      rw [Nat.add_assoc (_ + 1), rank_add ts (_ + 1), rank_add _ (triviaLength _),
        rank_triviaLength, drop_triviaLength]
      omega
  · rfl

theorem extent_significant_conditional (ht : t.isTrivia = false)
    (hopening : opening t ts = .conditional)
    (ih : ∀ part : List Token, part.length ≤ ts.length →
      (∃ u ∈ part.head?, u.isTrivia = false) → extent (significant part) = rank part (extent part)) :
    extent (significant (t :: ts)) = rank (t :: ts) (extent (t :: ts)) := by
  have hopening' := (opening_significant t ts).trans hopening
  have hbody' := topLevelFrom?_significant (p := fun u => u.kind.startsStatement)
    (fun u hu => startsStatement_of_isTrivia hu) 0 ts
  cases hbody : topLevel? (fun u => u.kind.startsStatement) ts with
  | none =>
      rw [topLevel?] at hbody
      rw [hbody] at hbody'
      rw [significant_cons ht, extent, extent, hopening, hopening']
      simp only [topLevel?, hbody, hbody', Option.map_none, ← significant_cons ht]
      exact max_significantLength_significant ht ts
  | some k =>
      have hsome : topLevel? (fun u => u.kind.startsStatement) (significant ts) =
          some (rank ts k) := by
        rw [topLevel?] at hbody
        rw [topLevel?, hbody', hbody, Option.map_some]
      obtain ⟨u, us, hdrop, hstarts⟩ := drop_of_topLevelFrom? hbody
      have hextent : rank ts k + extent (significant (ts.drop k)) =
          rank ts (k + extent (ts.drop k)) := by
        rw [rank_add, ih (ts.drop k) (List.drop_sublist _ _).length_le]
        rw [hdrop]
        exact ⟨u, rfl, isTrivia_of_startsStatement hstarts⟩
      rw [significant_cons ht, extent_conditional hopening' hsome, extent_conditional hopening hbody,
        ← significant_drop, hextent, throughElse_significant, Nat.add_comm, Nat.add_comm 1,
        rank_cons ht]
      intro m hne
      rw [← significant_skipTrivia]
      refine ih _ ?_ (exists_head_skipTrivia hne)
      exact (length_skipTrivia_le _).trans (List.drop_sublist _ _).length_le

/-- A statement ends behind the same significant token when the trivia are taken away. -/
theorem extent_significant {ts : List Token} (h : ∃ t ∈ ts.head?, t.isTrivia = false) :
    extent (significant ts) = rank ts (extent ts) := by
  induction hlen : ts.length using Nat.strong_induction_on generalizing ts with
  | _ len ih =>
      subst hlen
      cases ts with
      | nil => simp at h
      | cons t ts =>
          have ht : t.isTrivia = false := by simpa using h
          have hopening := opening_significant t ts
          cases hkind : opening t ts with
          | separator =>
              rw [significant_cons ht, extent, extent, hopening, hkind]
              exact (rank_one ht ts).symm
          | definition =>
              rw [significant_cons ht, extent, extent, hopening, hkind]
              exact moduleExtent_significant ht ts
          | block =>
              rw [significant_cons ht, extent, extent, hopening, hkind, ← significant_cons ht]
              exact blockExtent_significant ht ts
          | conditional =>
              refine extent_significant_conditional ht hkind fun part hpart hhead => ?_
              exact ih part.length (Nat.lt_succ_of_le hpart) hhead rfl
          | plain =>
              rw [significant_cons ht, extent, extent, hopening, hkind]
              exact plainExtent_significant ht ts

/-! ## All statements -/

/-- Seen as lists of significant tokens, the statements are those of the list without trivia. -/
theorem map_significant_statements (ts : List Token) :
    (statements ts).map significant = statements (significant ts) := by
  induction ts using statements_induction with
  | nil => rw [statements_nil, List.map_nil, significant, List.filter_nil, statements_nil]
  | trivia t ts ht ih =>
      rw [statements_cons_of_isTrivia ht, significant_cons_of_isTrivia ht, ih]
  | statement t ts ht ih =>
      have hextent : extent (t :: significant ts) = rank (t :: ts) (extent (t :: ts)) := by
        rw [← significant_cons ht]
        exact extent_significant ⟨t, rfl, ht⟩
      rw [statements_cons ht, List.map_cons, ih, significant_cons ht, statements_cons ht, hextent,
        significant_take, significant_drop, significant_cons ht]

/-- Blank space and comments play no part in the division into statements: it is the division of
the list without them, so trivia can be put in or taken out anywhere. -/
theorem statements_without_trivia (ts : List Token) :
    (statements ts).map significant = statements (significant ts) ∧
      ∀ us, significant us = significant ts →
        (statements us).map significant = (statements ts).map significant := by
  refine ⟨map_significant_statements ts, fun us hus => ?_⟩
  rw [map_significant_statements, map_significant_statements, hus]

theorem statements_without_trivia_conditional :
    let ts := tokenize ("IF @a = 1 BEGIN TRY SELECT 1 END TRY ELSE ALTER TABLE t DROP COLUMN c " ++
      "SELECT 1 GO INSERT INTO t SELECT 2 UNION SELECT 3").toList
    let us := ts.flatMap fun t => [t, ⟨.lineComment, "--;".toList, t.span⟩]
    significant us = significant ts ∧ us.length = 2 * ts.length ∧
      (statements us).length = 4 ∧
      (statements us).map significant = (statements ts).map significant := by
  intro ts us
  have h : significant us = significant ts ∧ us.length = 2 * ts.length ∧
      (statements us).length = 4 := by decide +kernel
  exact ⟨h.1, h.2.1, h.2.2, (statements_without_trivia ts).2 us h.1⟩

end Statement

end SqlMigration
