import SqlMigration.Proofs.Statement.Division
import SqlMigration.Proofs.Statement.Union

/-! # Statements and what follows them

The scans for the end of a statement look at the tokens behind it: for a semicolon, for `ELSE`, for
the word after `END`, for what makes `CREATE`, `BEGIN` or `DROP` go on. Whatever they accept there
becomes part of the statement. So a statement that has ended does not depend on what follows it, as
long as that shows no more than before.
-/

namespace SqlMigration

/-! ## Looking past a part -/

section
variable {front rest : List Token}

theorem firstSignificant?_append_of_ne_nil (h : skipTrivia front ≠ []) (rest : List Token) :
    firstSignificant? (front ++ rest) = firstSignificant? front := by
  obtain ⟨u, us, hu⟩ := List.exists_cons_of_ne_nil h
  rw [firstSignificant?, firstSignificant?, skipTrivia_append rest h, hu]
  rfl

theorem skipTrivia_append_of_eq_nil (h : skipTrivia front = []) (rest : List Token) :
    skipTrivia (front ++ rest) = skipTrivia rest :=
  List.dropWhile_append_of_pos (List.dropWhile_eq_nil_iff.mp h)

theorem firstSignificant?_append_of_eq_nil (h : skipTrivia front = []) (rest : List Token) :
    firstSignificant? (front ++ rest) = firstSignificant? rest := by
  rw [firstSignificant?, firstSignificant?, skipTrivia_append_of_eq_nil h]

theorem triviaLength_append_of_eq_nil (h : skipTrivia front = []) (rest : List Token) :
    triviaLength (front ++ rest) = front.length + triviaLength rest := by
  rw [triviaLength, List.takeWhile_append_of_pos (List.dropWhile_eq_nil_iff.mp h),
    List.length_append, triviaLength]

theorem eq_append_of_firstSignificant? {u : Token} (h : firstSignificant? rest = some u) :
    ∃ gap more, rest = gap ++ u :: more ∧ (∀ t ∈ gap, t.isTrivia) ∧ u.isTrivia = false := by
  obtain ⟨more, hskip⟩ := List.head?_eq_some_iff.mp h
  obtain ⟨gap, hrest, hgap, -, hu⟩ := eq_append_of_skipTrivia hskip
  exact ⟨gap, more, hrest, hgap, hu⟩

theorem startsStatement_of_isTrivia {t : Token} (h : t.isTrivia) :
    t.kind.startsStatement = false := by
  rw [Bool.eq_false_iff]
  intro hstarts
  rw [isTrivia_of_startsStatement hstarts] at h
  cases h

theorem trivia_of_significantLength_le (h : significantLength (front ++ rest) ≤ front.length) :
    ∀ t ∈ rest, t.isTrivia := by
  by_contra hsome
  have hpos : 0 < significantLength rest := by
    rw [significantLength, List.length_pos_iff, Ne, List.dropWhile_eq_nil_iff]
    simpa using hsome
  have hcut : significantLength (front ++ rest) = front.length + significantLength rest := by
    rw [significantLength, List.reverse_append, List.dropWhile_append, if_neg, List.length_append,
      List.length_reverse, significantLength, Nat.add_comm]
    rw [significantLength, List.length_pos_iff] at hpos
    simpa using hpos
  omega

end

/-- `rest'` in place of `rest` shows nothing new to what stands before: nothing is left of it but
trivia, or both start with the same `GO`. -/
def ShowsNoMore (rest rest' : List Token) : Prop :=
  (∀ t ∈ rest', t.isTrivia) ∨
    ∃ t, t.is .GO ∧ firstSignificant? rest = some t ∧ firstSignificant? rest' = some t

namespace ShowsNoMore

variable {front rest rest' : List Token}

theorem isTrivia (h : ShowsNoMore rest rest') (hrest : ∀ t ∈ rest, t.isTrivia) :
    ∀ t ∈ rest', t.isTrivia := by
  rcases h with h | ⟨t, ht, hfirst, -⟩
  · exact h
  · obtain ⟨gap, more, rfl, -, hu⟩ := eq_append_of_firstSignificant? hfirst
    rw [hrest t (by simp)] at hu
    cases hu

theorem any_eq_false (h : ShowsNoMore rest rest') {q : Token → Bool}
    (hq : ∀ t : Token, t.is .GO → q t = false) : (firstSignificant? rest').any q = false := by
  rcases h with h | ⟨t, ht, -, hfirst⟩
  · rw [firstSignificant?, skipTrivia_of_trivia h]
    rfl
  · rw [hfirst]
    exact hq t ht

/-- A token that is looked for behind `front` is found there as well, if it was not found
beyond. -/
theorem any_append (h : ShowsNoMore rest rest') {q : Token → Bool}
    (hq : ∀ t : Token, t.is .GO → q t = false)
    (hfront : skipTrivia front = [] → (firstSignificant? rest).any q = false) :
    (firstSignificant? (front ++ rest')).any q = (firstSignificant? (front ++ rest)).any q := by
  by_cases hnil : skipTrivia front = []
  · rw [firstSignificant?_append_of_eq_nil hnil, firstSignificant?_append_of_eq_nil hnil,
      hfront hnil, h.any_eq_false hq]
  · rw [firstSignificant?_append_of_ne_nil hnil, firstSignificant?_append_of_ne_nil hnil]

/-- A token that is looked for behind the first `n` tokens, and is part of `front` if it is
found. -/
theorem any_drop (h : ShowsNoMore rest rest') {q : Token → Bool}
    (hq : ∀ t : Token, t.is .GO → q t = false) {n : Nat} (hn : n ≤ front.length)
    (hin : (firstSignificant? ((front ++ rest).drop n)).any q →
      n + triviaLength ((front ++ rest).drop n) < front.length) :
    (firstSignificant? ((front ++ rest').drop n)).any q =
        (firstSignificant? ((front ++ rest).drop n)).any q ∧
      ((firstSignificant? ((front ++ rest).drop n)).any q →
        skipTrivia (front.drop n) ≠ [] ∧
          triviaLength ((front ++ rest').drop n) = triviaLength ((front ++ rest).drop n)) := by
  rw [List.drop_append_of_le_length hn] at hin ⊢
  rw [List.drop_append_of_le_length hn]
  have hlen : (front.drop n).length = front.length - n := List.length_drop
  have hne (hfound : (firstSignificant? (front.drop n ++ rest)).any q) :
      skipTrivia (front.drop n) ≠ [] := by
    intro hnil
    have hlt := hin hfound
    rw [triviaLength_append_of_eq_nil hnil] at hlt
    omega
  refine ⟨h.any_append hq ?_, ?_⟩
  · intro hnil
    rw [Bool.eq_false_iff]
    intro hfound
    rw [← firstSignificant?_append_of_eq_nil hnil] at hfound
    exact hne hfound hnil
  · intro hfound
    have hskip := hne hfound
    exact ⟨hskip, by rw [triviaLength_append rest' hskip, triviaLength_append rest hskip]⟩

end ShowsNoMore

theorem firstKeyword?_eq_some_iff {ts : List Token} {k : Keyword} :
    firstKeyword? ts = some k ↔ (firstSignificant? ts).any (·.is k) := by
  rw [firstKeyword?]
  cases firstSignificant? ts with
  | none => simp
  | some t => cases hkind : t.kind <;> simp [Token.keyword?, Token.is, hkind]

theorem opensTransaction_eq (ts : List Token) :
    opensTransaction ts = (firstSignificant? ts).any fun t => t.is .TRANSACTION || t.is .TRAN := by
  rw [opensTransaction, firstKeyword?]
  cases firstSignificant? ts with
  | none => rfl
  | some t =>
      cases hkind : t.kind with
      | keyword k => cases k <;> simp [Token.keyword?, Token.is, hkind]
      | _ => simp [Token.keyword?, Token.is, hkind]

theorem throughEndFrom?_append_left {depth n : Nat} {ts : List Token}
    (h : throughEndFrom? depth ts = some n) (us : List Token) :
    throughEndFrom? depth (ts ++ us) = some n := by
  fun_induction throughEndFrom? depth ts generalizing n with
  | case1 => cases h
  | case2 depth t ts hkeyword ih =>
      obtain ⟨i, hi, rfl⟩ := Option.map_eq_some_iff.mp h
      -- The `END` that is found stands behind the word that is looked at.
      have hskip : skipTrivia ts ≠ [] := by
        intro hnil
        have hlt := triviaLength_lt_of_throughEndFrom? hi
        have hle := throughEndFrom?_le hi
        have hlen := triviaLength_add_length_skipTrivia ts
        rw [hnil, List.length_nil] at hlen
        omega
      have hopens : opensTransaction (ts ++ us) = opensTransaction ts := by
        rw [opensTransaction_eq, opensTransaction_eq, firstSignificant?_append_of_ne_nil hskip]
      simp [throughEndFrom?, hkeyword, hopens, ih hi]
  | case3 depth t ts hkeyword ih =>
      obtain ⟨i, hi, rfl⟩ := Option.map_eq_some_iff.mp h
      simp [throughEndFrom?, hkeyword, ih hi]
  | case4 depth t ts hkeyword hdepth =>
      cases h
      simp [throughEndFrom?, hkeyword, hdepth]
  | case5 depth t ts hkeyword hdepth ih =>
      obtain ⟨i, hi, rfl⟩ := Option.map_eq_some_iff.mp h
      simp [throughEndFrom?, hkeyword, hdepth, ih hi]
  | case6 depth t ts _ _ _ ih =>
      obtain ⟨i, hi, rfl⟩ := Option.map_eq_some_iff.mp h
      simp [throughEndFrom?, ih hi]

namespace Statement

variable {front rest rest' : List Token}

/-! ## Plain statements -/

/-- What follows a token matters for the clauses of `ALTER TABLE` only. -/
theorem Scan.pass_congr {first : Option Keyword} {t : Token} {xs ys : List Token}
    (h : ∀ k, t.kind = .keyword k → isAlterClause first k ys = isAlterClause first k xs)
    (st : Scan) : st.pass first t ys = st.pass first t xs := by
  unfold Scan.pass
  split
  · rfl
  · rfl
  · rfl
  · rename_i k hkind
    have hkeyword : st.keyword? first k ys = st.keyword? first k xs := by
      unfold Scan.keyword?
      split
      · rfl
      · rfl
      · rfl
      · rfl
      · rfl
      · rw [h k hkind]
    rw [hkeyword]
  · rfl

theorem Scan.pass_alterClause {first : Option Keyword} {t : Token} {k : Keyword}
    {ts : List Token} (hkind : t.kind = .keyword k) (h : isAlterClause first k ts) (st : Scan) :
    ∃ st', st.pass first t ts = .goesOn st' := by
  have hk : k = .DROP ∨ k = .ALTER := by
    have hfirst := (Bool.and_eq_true_iff.mp h).1
    simpa using (Bool.and_eq_true_iff.mp hfirst).2
  have hkeyword : ∃ st', st.keyword? first k ts = some st' := by
    rcases hk with rfl | rfl <;>
      · simp only [Scan.keyword?, Keyword.startsStatement, if_true, h]
        split <;> exact ⟨_, rfl⟩
  obtain ⟨st', hst'⟩ := hkeyword
  simp only [Scan.pass, hkind, hst']
  split <;> exact ⟨_, rfl⟩

/-- Whether the token is the word of a clause of `ALTER TABLE`. -/
def isClauseWord (t : Token) : Bool := t.is .COLUMN || t.is .CONSTRAINT

theorem isClauseWord_separator (t : Token) (ht : t.is .GO) : isClauseWord t = false := by
  simp [isClauseWord, Token.is, kind_of_is ht]

theorem isAlterClause_eq (first : Option Keyword) (k : Keyword) (ts : List Token) :
    isAlterClause first k ts = (decide (first = some .ALTER) &&
      (decide (k = .DROP) || decide (k = .ALTER)) && (firstSignificant? ts).any isClauseWord) := by
  have hword : (decide (firstKeyword? ts = some .COLUMN) ||
      decide (firstKeyword? ts = some .CONSTRAINT)) = (firstSignificant? ts).any isClauseWord := by
    simp only [firstKeyword?_eq_some_iff, Bool.decide_eq_true]
    cases firstSignificant? ts <;> rfl
  rw [isAlterClause, hword]

/-- Whether the token is one of the words behind `DROP`, `ALTER` or `BEGIN` that are looked for. A
plain statement takes them in wherever it meets them. -/
def isPassive (t : Token) : Bool := isClauseWord t || t.is .TRANSACTION || t.is .TRAN

theorem Scan.pass_passive {t : Token} (ht : isPassive t) (first : Option Keyword) (st : Scan)
    (ts : List Token) : ∃ st', st.pass first t ts = .goesOn st' := by
  have hkind : t.kind = .keyword .COLUMN ∨ t.kind = .keyword .CONSTRAINT ∨
      t.kind = .keyword .TRANSACTION ∨ t.kind = .keyword .TRAN := by
    simpa [isPassive, isClauseWord, Token.is, or_assoc] using ht
  rcases hkind with hkind | hkind | hkind | hkind <;>
    · simp only [Scan.pass, hkind]
      split <;> exact ⟨_, rfl⟩

theorem lt_plainFrom_of_pass {first : Option Keyword} {st st' : Scan} {u : Token}
    {more : List Token} (hfront : skipTrivia front = []) (hu : u.isTrivia = false)
    (hpass : st.pass first u more = .goesOn st') (i stop : Nat) :
    i + front.length < plainFrom first st i stop (front ++ u :: more) := by
  rw [plainFrom_trivia first st (List.dropWhile_eq_nil_iff.mp hfront), plainFrom, hu,
    if_neg Bool.false_ne_true, hpass]
  have hend := plainFrom_eq_or_lt first st' (i + front.length + 1) (i + front.length + 1) more
  dsimp only
  omega

theorem lt_plainFrom_of_passive {u : Token} (hfront : skipTrivia front = [])
    (hfirst : firstSignificant? rest = some u) (hu : isPassive u) (first : Option Keyword)
    (st : Scan) (i stop : Nat) :
    i + front.length < plainFrom first st i stop (front ++ rest) := by
  obtain ⟨gap, more, rfl, hgap, htrivia⟩ := eq_append_of_firstSignificant? hfirst
  obtain ⟨st', hst'⟩ := Scan.pass_passive hu first st more
  have hlt := lt_plainFrom_of_pass (skipTrivia_append_trivia hgap hfront) htrivia hst' i stop
  rw [List.append_assoc, List.length_append] at hlt
  omega

theorem Scan.pass_separator {t : Token} (ht : t.is .GO) (first : Option Keyword) (st : Scan)
    (ts : List Token) : st.pass first t ts = .before ∨ ∃ st', st.pass first t ts = .goesOn st' := by
  simp only [Scan.pass, kind_of_is ht]
  split
  · exact .inl rfl
  · exact .inr ⟨_, rfl⟩

/-- What takes no token into a plain statement can be exchanged. -/
theorem plainFrom_eq_of_eq (h : ShowsNoMore rest rest') (first : Option Keyword) (st : Scan)
    {i stop : Nat} (hstop : stop ≤ i) (hend : plainFrom first st i stop rest = stop) :
    plainFrom first st i stop rest' = stop := by
  rcases h with h | ⟨t, ht, hfirst, hfirst'⟩
  · have htrivia := plainFrom_trivia first st h i stop []
    rwa [List.append_nil, plainFrom] at htrivia
  · obtain ⟨gap, more, rfl, hgap, hu⟩ := eq_append_of_firstSignificant? hfirst
    obtain ⟨gap', more', rfl, hgap', -⟩ := eq_append_of_firstSignificant? hfirst'
    have hpass : st.pass first t more' = st.pass first t more := by
      refine Scan.pass_congr (fun k hk => ?_) st
      obtain rfl : k = .GO := Kind.keyword.inj (hk.symm.trans (kind_of_is ht))
      simp [isAlterClause]
    rcases Scan.pass_separator ht first st more with hbefore | ⟨st', hgoes⟩
    · rw [plainFrom_trivia first st hgap', plainFrom, hu, if_neg Bool.false_ne_true, hpass,
        hbefore]
    · have hlt := lt_plainFrom_of_pass (skipTrivia_of_trivia hgap) hu hgoes i stop
      omega

/-- A clause is recognised in the same way in front of both, unless it takes in a word of
`rest`. -/
theorem isAlterClause_append (h : ShowsNoMore rest rest') {first : Option Keyword} {k : Keyword}
    (hbeyond : isAlterClause first k (front ++ rest) → skipTrivia front = [] →
      (firstSignificant? rest).any isClauseWord = false) :
    isAlterClause first k (front ++ rest') = isAlterClause first k (front ++ rest) := by
  by_cases hword : skipTrivia front = [] ∧ (firstSignificant? rest).any isClauseWord = true
  · obtain ⟨hnil, hword⟩ := hword
    have hnone : isAlterClause first k (front ++ rest) = false := by
      rw [Bool.eq_false_iff]
      intro hclause
      simp [hbeyond hclause hnil] at hword
    rw [hnone, isAlterClause_eq, firstSignificant?_append_of_eq_nil hnil,
      h.any_eq_false isClauseWord_separator, Bool.and_false]
  · rw [isAlterClause_eq, isAlterClause_eq, h.any_append isClauseWord_separator]
    intro hnil
    rw [Bool.eq_false_iff]
    exact fun h => hword ⟨hnil, h⟩

/-- A plain statement that has ended does not see what follows. -/
theorem plainFrom_append (h : ShowsNoMore rest rest') (first : Option Keyword) (st : Scan)
    {i stop : Nat} (hstop : stop ≤ i)
    (hle : plainFrom first st i stop (front ++ rest) ≤ i + front.length) :
    plainFrom first st i stop (front ++ rest') = plainFrom first st i stop (front ++ rest) := by
  induction front generalizing st i stop with
  | nil =>
      have hend : plainFrom first st i stop rest = stop := by
        rcases plainFrom_eq_or_lt first st i stop rest with hend | hlt
        · exact hend
        · simp at hle
          omega
      rw [List.nil_append, List.nil_append, hend]
      exact plainFrom_eq_of_eq h first st hstop hend
  | cons t front ih =>
      rw [List.cons_append, List.length_cons] at hle
      rw [List.cons_append, List.cons_append, plainFrom, plainFrom]
      rw [plainFrom] at hle
      cases htrivia : t.isTrivia with
      | true =>
          rw [htrivia] at hle
          exact ih st (Nat.le_succ_of_le hstop) (by simpa [Nat.add_assoc, Nat.add_comm 1] using hle)
      | false =>
          rw [htrivia, if_neg Bool.false_ne_true] at hle
          -- A clause that is recognised by a word of `rest` takes that word in.
          have hclause (k : Keyword) (hk : t.kind = .keyword k) :
              isAlterClause first k (front ++ rest') = isAlterClause first k (front ++ rest) := by
            refine isAlterClause_append h fun hclause hnil => ?_
            rw [Bool.eq_false_iff]
            intro hword
            obtain ⟨u, hfirst, hu⟩ := (Option.any_eq_true _ _).mp hword
            obtain ⟨st', hst'⟩ := Scan.pass_alterClause hk hclause st
            have hlt := lt_plainFrom_of_passive hnil hfirst (by simp [isPassive, hu]) first st'
              (i + 1) (i + 1)
            rw [hst'] at hle
            dsimp only at hle
            omega
          rw [if_neg Bool.false_ne_true, if_neg Bool.false_ne_true, Scan.pass_congr hclause st]
          cases hpass : st.pass first t (front ++ rest) with
          | before => rfl
          | after => rfl
          | goesOn st' =>
              rw [hpass] at hle
              exact ih st' (Nat.le_refl _) (by simpa [Nat.add_assoc, Nat.add_comm 1] using hle)

/-! ## Definitions and blocks -/

theorem trivia_takeWhile (h : ShowsNoMore rest rest') :
    ∀ t ∈ rest'.takeWhile fun t => !t.is .GO, t.isTrivia := by
  rcases h with h | ⟨t, ht, -, hfirst⟩
  · exact fun t ht => h t (List.takeWhile_subset _ ht)
  · obtain ⟨gap, more, rfl, hgap, -⟩ := eq_append_of_firstSignificant? hfirst
    rw [List.takeWhile_append_of_pos, List.takeWhile_cons_of_neg (by simp [ht]), List.append_nil]
    · exact hgap
    · intro u hu
      simp [is_of_isTrivia (hgap u hu)]

theorem moduleExtent_append (h : ShowsNoMore rest rest')
    (hle : moduleExtent (front ++ rest) ≤ 1 + front.length) :
    moduleExtent (front ++ rest') = moduleExtent (front ++ rest) := by
  simp only [moduleExtent, List.takeWhile_append] at hle ⊢
  split
  · rename_i hall
    rw [if_pos hall] at hle
    have htrivia := trivia_of_significantLength_le (Nat.le_of_add_le_add_left hle)
    rw [significantLength_append_trivia htrivia, significantLength_append_trivia (trivia_takeWhile h)]
  · rfl

/-- The number of tokens through the first `n` and the next significant one, if that is a `q`. -/
def throughNext (q : Token → Bool) (ts : List Token) (n : Nat) : Nat :=
  if (firstSignificant? (ts.drop n)).any q then n + triviaLength (ts.drop n) + 1 else n

theorem le_throughNext (q : Token → Bool) (ts : List Token) (n : Nat) :
    n ≤ throughNext q ts n := by
  rw [throughNext]
  split <;> omega

theorem throughNext_append (h : ShowsNoMore rest rest') {q : Token → Bool}
    (hq : ∀ t : Token, t.is .GO → q t = false) {n : Nat} (hn : n ≤ front.length)
    (hle : throughNext q (front ++ rest) n ≤ front.length) :
    throughNext q (front ++ rest') n = throughNext q (front ++ rest) n := by
  obtain ⟨heq, htrivia⟩ := h.any_drop hq hn fun hfound => by
    rw [throughNext, if_pos hfound] at hle
    omega
  rw [throughNext, throughNext, heq]
  split
  · rename_i hfound
    rw [(htrivia hfound).2]
  · rfl

theorem throughEnd?_append {n : Nat} (hend : throughEnd? (front ++ rest) = some n)
    (hn : n ≤ front.length) (rest' : List Token) : throughEnd? (front ++ rest') = some n := by
  have hfront := throughEndFrom?_take hend hn
  rw [List.take_left] at hfront
  exact throughEndFrom?_append_left hfront rest'

/-- Whether the token is the word of `END TRY` or `END CATCH`. -/
def isHandlerWord (t : Token) : Bool := t.isWord "try" || t.isWord "catch"

/-- A block goes on to a word of its `END` and to a semicolon. -/
theorem blockExtent_of_end {ts : List Token} {n : Nat} (hend : throughEnd? ts = some n) :
    blockExtent ts =
      throughNext (fun t => t.kind = .semicolon) ts (throughNext isHandlerWord ts n) := by
  have hword : (firstSignificant? (ts.drop n)).any (fun t => t.isWord "try" || t.isWord "catch") =
    (firstSignificant? (ts.drop n)).any isHandlerWord := rfl
  rw [throughNext.eq_1 isHandlerWord]
  simp only [blockExtent, hend, hword]
  split <;> rfl

theorem blockExtent_append (h : ShowsNoMore rest rest')
    (hle : blockExtent (front ++ rest) ≤ front.length) :
    blockExtent (front ++ rest') = blockExtent (front ++ rest) := by
  cases hend : throughEnd? (front ++ rest) with
  | none =>
      -- The block is not closed and takes in all that is significant.
      have htrivia : ∀ t ∈ rest, t.isTrivia := by
        simp only [blockExtent, hend] at hle
        exact trivia_of_significantLength_le ((Nat.le_max_right _ _).trans hle)
      have htrivia' := h.isTrivia htrivia
      have hend' : throughEnd? (front ++ rest') = none := by
        rw [throughEnd?, throughEndFrom?_append_trivia htrivia] at hend
        rwa [throughEnd?, throughEndFrom?_append_trivia htrivia']
      simp only [blockExtent, hend, hend', significantLength_append_trivia htrivia,
        significantLength_append_trivia htrivia']
  | some n =>
      rw [blockExtent_of_end hend] at hle ⊢
      have hword := le_throughNext isHandlerWord (front ++ rest) n
      have hstop := (le_throughNext _ _ _).trans hle
      have hn : n ≤ front.length := hword.trans hstop
      rw [blockExtent_of_end (throughEnd?_append hend hn rest'),
        throughNext_append h (fun t ht => ?_) hn hstop,
        throughNext_append h (fun t ht => ?_) hstop hle]
      · simp [kind_of_is ht]
      · simp [isHandlerWord, Token.isWord, kind_of_is ht, Kind.isIdentifier, Kind.identifiers]

/-! ## All statements -/

theorem definesModule_eq (ts : List Token) :
    definesModule ts = (firstSignificant? ts).any fun t =>
      [.VIEW, .PROCEDURE, .PROC, .FUNCTION, .TRIGGER].any t.is := by
  rw [definesModule, firstKeyword?]
  cases firstSignificant? ts with
  | none => rfl
  | some t =>
      cases hkind : t.kind with
      | keyword k => cases k <;> simp [Token.keyword?, Token.is, hkind]
      | _ => simp [Token.keyword?, Token.is, hkind]

theorem plainExtent_append (h : ShowsNoMore rest rest') (t : Token)
    (hle : plainExtent t (front ++ rest) ≤ 1 + front.length) :
    plainExtent t (front ++ rest') = plainExtent t (front ++ rest) := by
  simp only [plainExtent] at hle ⊢
  split
  · rfl
  · rename_i hkind
    simp only [hkind] at hle
    exact plainFrom_append h _ _ (Nat.le_refl 1) hle
  · rename_i hsemicolon hleft
    refine plainFrom_append h _ _ (Nat.le_refl 1) ?_
    split at hle
    · contradiction
    · contradiction
    · exact hle

theorem lt_moduleExtent {u : Token} (hfront : skipTrivia front = [])
    (hfirst : firstSignificant? rest = some u) (hu : u.is .GO = false) :
    1 + front.length < moduleExtent (front ++ rest) := by
  obtain ⟨gap, more, rfl, hgap, htrivia⟩ := eq_append_of_firstSignificant? hfirst
  have hbefore : ∀ t ∈ front ++ gap, (!t.is .GO) = true := by
    intro t ht
    have hall := List.dropWhile_eq_nil_iff.mp (skipTrivia_append_trivia hgap hfront)
    simp [is_of_isTrivia (hall t ht)]
  have hlast : ∀ z ∈ (front ++ gap ++ [u]).getLast?, z.isTrivia = false := by
    rw [List.getLast?_concat]
    rintro z ⟨⟩
    exact htrivia
  have hlen := length_le_significantLength hlast (more.takeWhile fun t => !t.is .GO)
  rw [moduleExtent, ← List.append_assoc, List.takeWhile_append_of_pos hbefore,
    List.takeWhile_cons_of_pos (by simp [hu]), List.append_cons]
  simp only [List.length_append, List.length_singleton] at hlen
  omega

theorem definesModule_append (h : ShowsNoMore rest rest')
    (hle : definesModule (front ++ rest) → moduleExtent (front ++ rest) ≤ 1 + front.length) :
    definesModule (front ++ rest') = definesModule (front ++ rest) := by
  rw [definesModule_eq, definesModule_eq]
  refine h.any_append (fun t ht => by simp [Token.is, kind_of_is ht]) fun hnil => ?_
  rw [Bool.eq_false_iff]
  intro hword
  obtain ⟨u, hfirst, hu⟩ := (Option.any_eq_true _ _).mp hword
  have hmodule : definesModule (front ++ rest) := by
    rwa [definesModule_eq, firstSignificant?_append_of_eq_nil hnil]
  have hseparator : u.is .GO = false := by
    rw [Bool.eq_false_iff]
    intro hgo
    simp [Token.is, kind_of_is hgo] at hu
  have hlt := lt_moduleExtent hnil hfirst hseparator
  have hle := hle hmodule
  omega

theorem opensTransaction_append (h : ShowsNoMore rest rest') (first : Option Keyword) (st : Scan)
    (hle : opensTransaction (front ++ rest) →
      plainFrom first st 1 1 (front ++ rest) ≤ 1 + front.length) :
    opensTransaction (front ++ rest') = opensTransaction (front ++ rest) := by
  rw [opensTransaction_eq, opensTransaction_eq]
  refine h.any_append (fun t ht => by simp [Token.is, kind_of_is ht]) fun hnil => ?_
  rw [Bool.eq_false_iff]
  intro hword
  obtain ⟨u, hfirst, hu⟩ := (Option.any_eq_true _ _).mp hword
  have hopens : opensTransaction (front ++ rest) := by
    rwa [opensTransaction_eq, firstSignificant?_append_of_eq_nil hnil]
  have hpassive : isPassive u := by
    simp only [isPassive, Bool.or_assoc]
    rw [hu, Bool.or_true]
  have hlt := lt_plainFrom_of_passive hnil hfirst hpassive first st 1 1
  have hle := hle hopens
  omega

/-- How a statement finds its end is told by tokens that it takes in. -/
theorem opening_append (h : ShowsNoMore rest rest') (t : Token)
    (hle : extent (t :: (front ++ rest)) ≤ 1 + front.length) :
    opening t (front ++ rest') = opening t (front ++ rest) := by
  have hmodule (hkeyword : t.keyword? = some .CREATE ∨ t.keyword? = some .ALTER) :
      definesModule (front ++ rest') = definesModule (front ++ rest) := by
    refine definesModule_append h fun hdefines => ?_
    rcases hkeyword with hkeyword | hkeyword <;>
      simpa only [extent, opening, hkeyword, hdefines, if_true] using hle
  rw [opening, opening]
  split
  · rfl
  · rename_i hkeyword
    rw [hmodule (.inl hkeyword)]
  · rename_i hkeyword
    rw [hmodule (.inr hkeyword)]
  · rename_i hkeyword
    rw [opensTransaction_append h t.keyword?
      ⟨t.keyword?.elim {} ({} : Pending).note, 0, 0, t.keyword?⟩]
    intro hopens
    have hstarts : t.kind.startsStatement := by
      cases hkind : t.kind <;> simp_all [Token.keyword?, Kind.startsStatement]
      rfl
    rw [← plainExtent_of_startsStatement hstarts]
    simpa only [extent, opening, hkeyword, hopens, if_true] using hle
  · rfl
  · rfl
  · rfl

/-! ## Conditionals -/

/-- The number of tokens through the `ELSE` branch of a conditional, if it has one. Its condition
and its first statement are the first `n`. -/
def throughElse (ts : List Token) (n : Nat) : Nat :=
  if (firstSignificant? (ts.drop n)).any (·.is .ELSE) then
    let m := n + triviaLength (ts.drop n) + 1
    if skipTrivia (ts.drop m) = [] then m
    else m + triviaLength (ts.drop m) + extent (skipTrivia (ts.drop m))
  else n

theorem le_throughElse (ts : List Token) (n : Nat) : n ≤ throughElse ts n := by
  rw [throughElse]
  split
  · dsimp only
    split <;> omega
  · exact Nat.le_refl n

theorem extent_conditional {t : Token} {ts : List Token} {k : Nat}
    (hopening : opening t ts = .conditional)
    (hbody : topLevel? (fun u => u.kind.startsStatement) ts = some k) :
    extent (t :: ts) = 1 + throughElse ts (k + extent (ts.drop k)) := by
  obtain ⟨u, us, hu, -⟩ := drop_of_topLevelFrom? hbody
  have hpos := extent_pos u us
  rw [extent, hopening, throughElse]
  simp only [hbody, hu, Nat.max_eq_right hpos, drop_succ_triviaLength]
  split
  · cases hskip : skipTrivia (skipTrivia (ts.drop (k + extent (u :: us)))).tail with
    | nil => rfl
    | cons v vs =>
        have hpos' := extent_pos v vs
        simp only [List.isEmpty_cons, Bool.false_eq_true, if_false, reduceCtorEq,
          Nat.max_eq_right hpos']
        omega
  · rfl

/-- The extent of a part of a list is the same in front of `rest` and of `rest'`, once it ends in
the part. -/
def Settled (rest rest' part : List Token) : Prop :=
  part ≠ [] → extent (part ++ rest) ≤ part.length → extent (part ++ rest') = extent (part ++ rest)

/-- The statement after `ELSE`, which stands behind the first `m` tokens. -/
theorem otherwise_append (h : ShowsNoMore rest rest') {m : Nat} (hm : m ≤ front.length)
    (ih : Settled rest rest' (skipTrivia (front.drop m)))
    (hle : skipTrivia ((front ++ rest).drop m) ≠ [] →
      m + triviaLength ((front ++ rest).drop m) + extent (skipTrivia ((front ++ rest).drop m)) ≤
        front.length) :
    (skipTrivia ((front ++ rest).drop m) = [] ∧ skipTrivia ((front ++ rest').drop m) = []) ∨
      (skipTrivia ((front ++ rest).drop m) ≠ [] ∧ skipTrivia ((front ++ rest').drop m) ≠ [] ∧
        triviaLength ((front ++ rest').drop m) = triviaLength ((front ++ rest).drop m) ∧
        extent (skipTrivia ((front ++ rest').drop m)) =
          extent (skipTrivia ((front ++ rest).drop m))) := by
  have hlen := triviaLength_add_length_skipTrivia (front.drop m)
  rw [List.length_drop] at hlen
  rw [List.drop_append_of_le_length hm] at hle ⊢
  rw [List.drop_append_of_le_length hm]
  by_cases hnil : skipTrivia (front.drop m) = []
  · left
    rw [skipTrivia_append_of_eq_nil hnil, triviaLength_append_of_eq_nil hnil, List.length_drop]
      at hle
    rw [skipTrivia_append_of_eq_nil hnil, skipTrivia_append_of_eq_nil hnil]
    have hrest : skipTrivia rest = [] := by
      by_contra hne
      obtain ⟨u, us, hu⟩ := List.exists_cons_of_ne_nil hne
      have hpos := extent_pos u us
      have hend := hle hne
      rw [hu] at hend
      omega
    exact ⟨hrest, skipTrivia_of_trivia (h.isTrivia (List.dropWhile_eq_nil_iff.mp hrest))⟩
  · right
    rw [skipTrivia_append rest hnil, triviaLength_append rest hnil] at hle ⊢
    rw [skipTrivia_append rest' hnil, triviaLength_append rest' hnil]
    refine ⟨List.append_ne_nil_of_left_ne_nil hnil _, List.append_ne_nil_of_left_ne_nil hnil _, rfl,
      ih hnil ?_⟩
    have hend := hle (List.append_ne_nil_of_left_ne_nil hnil _)
    omega

theorem throughElse_append (h : ShowsNoMore rest rest') {n : Nat} (hn : n ≤ front.length)
    (ih : ∀ m, Settled rest rest' (skipTrivia (front.drop m)))
    (hle : throughElse (front ++ rest) n ≤ front.length) :
    throughElse (front ++ rest') n = throughElse (front ++ rest) n := by
  have hseparator (t : Token) (ht : t.is .GO) : t.is .ELSE = false := by
    simp [Token.is, kind_of_is ht]
  obtain ⟨heq, hin⟩ := h.any_drop hseparator hn fun helse => by
    rw [throughElse, if_pos helse] at hle
    dsimp only at hle
    split at hle <;> omega
  rw [throughElse, throughElse, heq]
  split
  · rename_i helse
    obtain ⟨-, hgap⟩ := hin helse
    rw [throughElse, if_pos helse] at hle
    dsimp only at hle ⊢
    rw [hgap]
    have hbranch := otherwise_append h
      (by split at hle <;> omega :
        n + triviaLength ((front ++ rest).drop n) + 1 ≤ front.length) (ih _)
      (fun hne => by rwa [if_neg hne] at hle)
    rcases hbranch with ⟨hnil, hnil'⟩ | ⟨hne, hne', htrivia, hextent⟩
    · rw [if_pos hnil, if_pos hnil']
    · rw [if_neg hne, if_neg hne', htrivia, hextent]
  · rfl

theorem extent_append_conditional (h : ShowsNoMore rest rest') {t : Token}
    (hopening : opening t (front ++ rest) = .conditional)
    (hopening' : opening t (front ++ rest') = .conditional)
    (ih : ∀ part : List Token, part.length ≤ front.length → Settled rest rest' part)
    (hle : extent (t :: (front ++ rest)) ≤ 1 + front.length) :
    extent (t :: (front ++ rest')) = extent (t :: (front ++ rest)) := by
  cases hbody : topLevel? (fun u => u.kind.startsStatement) (front ++ rest) with
  | none =>
      -- Without a body the condition takes in all that is significant.
      have hextent : extent (t :: (front ++ rest)) =
          max 1 (significantLength (t :: (front ++ rest))) := by
        rw [extent, hopening, hbody]
      have hall : significantLength ((t :: front) ++ rest) ≤ (t :: front).length := by
        rw [hextent, Nat.add_comm] at hle
        exact (Nat.le_max_right _ _).trans hle
      have htrivia := trivia_of_significantLength_le hall
      have htrivia' := h.isTrivia htrivia
      have hbody' : topLevel? (fun u => u.kind.startsStatement) (front ++ rest') = none := by
        have hfront : topLevelFrom? (fun u => u.kind.startsStatement) 0 front = none := by
          have hpart := topLevelFrom?_take_eq_none hbody front.length
          rwa [List.take_left] at hpart
        rw [topLevel?, topLevelFrom?_append hfront,
          topLevelFrom?_trivia htrivia' fun u hu => startsStatement_of_isTrivia hu, Option.map_none]
      rw [hextent, extent, hopening', hbody', ← List.cons_append, ← List.cons_append,
        significantLength_append_trivia htrivia, significantLength_append_trivia htrivia']
  | some k =>
      obtain ⟨u, us, hu, -⟩ := drop_of_topLevelFrom? hbody
      have hpos := extent_pos u us
      rw [extent_conditional hopening hbody, hu] at hle
      have hthen := le_throughElse (front ++ rest) (k + extent (u :: us))
      have hk : k < front.length := by omega
      rw [List.drop_append_of_le_length (Nat.le_of_lt hk)] at hu
      have hsettled : extent (front.drop k ++ rest') = extent (u :: us) := by
        rw [← hu]
        refine ih (front.drop k) ?_ (drop_ne_nil hk) ?_
        · rw [List.length_drop]
          omega
        · rw [hu, List.length_drop]
          omega
      have hbody' : topLevel? (fun u => u.kind.startsStatement) (front ++ rest') = some k := by
        have hfront := topLevelFrom?_take hbody hk
        rw [List.take_left] at hfront
        exact topLevelFrom?_append_left hfront rest'
      rw [extent_conditional hopening hbody, extent_conditional hopening' hbody',
        List.drop_append_of_le_length (Nat.le_of_lt hk),
        List.drop_append_of_le_length (Nat.le_of_lt hk), hu, hsettled]
      refine congrArg (1 + ·) (throughElse_append h (by omega) (fun m => ih _ ?_) (by omega))
      have hdrop := length_skipTrivia_le (front.drop m)
      rw [List.length_drop] at hdrop
      omega

/-- A statement that has ended does not see what follows. -/
theorem extent_append (h : ShowsNoMore rest rest') (front : List Token) :
    Settled rest rest' front := by
  induction hlen : front.length using Nat.strong_induction_on generalizing front with
  | _ len ih =>
      subst hlen
      intro hne hle
      cases front with
      | nil => contradiction
      | cons t front =>
          rw [List.cons_append, List.length_cons, Nat.add_comm] at hle
          have hopening := opening_append h t hle
          rw [List.cons_append, List.cons_append]
          cases hkind : opening t (front ++ rest) with
          | separator => rw [extent, extent, hopening, hkind]
          | definition =>
              rw [extent, hkind] at hle
              rw [extent, extent, hopening, hkind]
              exact moduleExtent_append h hle
          | block =>
              rw [extent, hkind, Nat.add_comm, ← List.cons_append, ← List.length_cons] at hle
              rw [extent, extent, hopening, hkind]
              exact blockExtent_append h hle
          | conditional =>
              refine extent_append_conditional h hkind (hopening.trans hkind) ?_ hle
              exact fun part hpart => ih part.length (Nat.lt_succ_of_le hpart) part rfl
          | plain =>
              rw [extent, hkind] at hle
              rw [extent, extent, hopening, hkind]
              exact plainExtent_append h t hle

/-- A statement ends in the same place when the list is cut off behind it. -/
theorem extent_take {ts : List Token} {m : Nat} (hts : ts ≠ []) (h : extent ts ≤ m) :
    extent (ts.take m) = extent ts := by
  rcases Nat.lt_or_ge m ts.length with hm | hm
  · have hlen : (ts.take m).length = m := List.length_take_of_le (Nat.le_of_lt hm)
    obtain ⟨t, rest, rfl⟩ := List.exists_cons_of_ne_nil hts
    have hpos := extent_pos t rest
    have hfront : (t :: rest).take m ≠ [] := by
      rw [← List.length_pos_iff, hlen]
      omega
    have hnone : ShowsNoMore ((t :: rest).drop m) [] := .inl (by simp)
    have hsettled := extent_append hnone ((t :: rest).take m) hfront
    rw [List.append_nil, List.take_append_drop, hlen] at hsettled
    exact hsettled h
  · rw [List.take_of_length_le hm]

end Statement

end SqlMigration
