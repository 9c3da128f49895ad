import SqlMigration.Proofs.Token.Nesting
import SqlMigration.Statement.Block
import SqlMigration.Token.Lexer

/-! # Conditionals

The statements of a script are divided by looking into the body of an `IF` or `WHILE`. The body is
cut out by a flat scan for a semicolon, an `ELSE` or the `END` of a block. Both agree on bodies
that are plain statements or blocks. They do not on a body that is an `IF` or `WHILE` itself, on the
start of a transaction, on `TRY` and `CATCH`, and on a definition.
-/

namespace SqlMigration.Statement

theorem plainFrom_eq_or_lt (first : Option Keyword) (st : Scan) (i stop : Nat) (ts : List Token) :
    plainFrom first st i stop ts = stop ∨ i < plainFrom first st i stop ts := by
  fun_induction plainFrom first st i stop ts with
  | case1 => exact .inl rfl
  | case2 st i stop t ts htrivia ih =>
      rcases ih with ih | ih
      · exact .inl ih
      · exact .inr (by omega)
  | case3 => exact .inl rfl
  | case4 => exact .inr (Nat.lt_succ_self _)
  | case5 st i stop t ts htrivia st' hpass ih =>
      right
      omega

/-- What a keyword that goes on with a statement does to the open parentheses and cases. -/
theorem Scan.keyword?_spec {first : Option Keyword} {st st' : Scan} {k : Keyword}
    {rest : List Token} (h : st.keyword? first k rest = some st') :
    st'.depth = st.depth ∧
      st'.cases = (if k = .CASE then st.cases + 1 else if k = .END then st.cases - 1
        else st.cases) ∧ (k = .ELSE → st.cases ≠ 0) := by
  unfold Scan.keyword? at h
  split at h
  · cases h; simp
  · split at h
    · cases h
    · cases h; simp
  · cases h
  · split at h
    · cases h
    · cases h; simp_all
  · cases h; simp
  · split at h
    · split at h
      · cases h; simp_all
      · split at h
        · cases h; simp_all
        · cases h
    · cases h; simp_all

theorem singleFrom_goesOn {first : Option Keyword} {st st' : Scan} {t : Token} {rest : List Token}
    (h : st.pass first t rest = .goesOn st') (htrivia : t.isTrivia = false) (i stop : Nat)
    (ts : List Token) :
    singleFrom st.depth st.cases i stop (t :: ts) =
      singleFrom st'.depth st'.cases (i + 1) (i + 1) ts := by
  rw [singleFrom, htrivia]
  unfold Scan.pass at h
  split at h
  · cases h; simp_all
  · cases h; simp_all
  · split at h
    · cases h
    · cases h; simp_all
  · rename_i k hkind
    simp only [hkind]
    split at h
    · rename_i hdepth
      split at h
      · rename_i st₁ hkeyword
        obtain ⟨hd, hc, helse⟩ := Scan.keyword?_spec hkeyword
        cases h
        simp only [hd, hc]
        cases k <;> simp_all
      · cases h
    · cases h
      cases k <;> simp_all
  · cases h
    cases hkind : t.kind <;> simp_all

theorem singleFrom_after {first : Option Keyword} {st : Scan} {t : Token} {rest : List Token}
    (h : st.pass first t rest = .after) (i stop : Nat) (ts : List Token) :
    singleFrom st.depth st.cases i stop (t :: ts) = i + 1 := by
  unfold Scan.pass at h
  split at h
  · cases h
  · cases h
  · rename_i hkind
    split at h
    · rename_i hdepth
      simp [singleFrom, Token.isTrivia, hkind, Kind.isTrivia, Kind.isComment, hdepth]
    · cases h
  · split at h
    · split at h <;> cases h
    · cases h
  · cases h

theorem singleFrom_before {first : Option Keyword} {st : Scan} {t : Token} {rest : List Token}
    (h : st.pass first t rest = .before) (ht : t.is .ELSE) (i stop : Nat) (ts : List Token) :
    singleFrom st.depth st.cases i stop (t :: ts) = stop := by
  have hkind : t.kind = .keyword .ELSE := kind_of_is ht
  have hfree : st.depth = 0 ∧ st.cases = 0 := by
    simp only [Scan.pass, hkind, Scan.keyword?] at h
    split at h
    · rename_i hdepth
      cases hcases : st.cases with
      | zero => exact ⟨hdepth, rfl⟩
      | succ n => simp [hcases] at h
    · cases h
  simp [singleFrom, Token.isTrivia, hkind, Kind.isTrivia, Kind.isComment, hfree]

/-- Both scans of a plain statement end in the same place, if nothing stands after it or an
`ELSE`. -/
theorem singleFrom_take (first : Option Keyword) (st : Scan) (i stop j : Nat) (ts : List Token)
    (hstop : stop ≤ i) (hle : plainFrom first st i stop ts ≤ i + j)
    (hrest : plainFrom first st i stop ts = i + j ∨
      (firstSignificant? (ts.drop (plainFrom first st i stop ts - i))).any (·.is .ELSE)) :
    singleFrom st.depth st.cases i stop (ts.take j) = plainFrom first st i stop ts := by
  fun_induction plainFrom first st i stop ts generalizing j with
  | case1 st i stop => rw [List.take_nil, singleFrom]
  | case2 st i stop t ts htrivia ih =>
      have hstep := plainFrom_eq_or_lt first st (i + 1) stop ts
      cases j with
      | zero =>
          rw [List.take_zero, singleFrom]
          omega
      | succ j =>
          rw [List.take_succ_cons, singleFrom, if_pos htrivia]
          refine ih j (by omega) (by omega) ?_
          rcases hrest with hrest | hrest
          · left; omega
          · right
            rcases hstep with hstep | hstep
            · rw [hstep] at hrest ⊢
              have h₁ : stop - i = 0 := by omega
              have h₂ : stop - (i + 1) = 0 := by omega
              rw [h₁] at hrest
              rw [h₂]
              simpa [firstSignificant?, skipTrivia, htrivia] using hrest
            · have h₁ : plainFrom first st (i + 1) stop ts - i =
                  plainFrom first st (i + 1) stop ts - (i + 1) + 1 := by
                omega
              rwa [h₁, List.drop_succ_cons] at hrest
  | case3 st i stop t ts htrivia hpass =>
      cases j with
      | zero => rw [List.take_zero, singleFrom]
      | succ j =>
          have h₁ : stop - i = 0 := by omega
          have helse : t.is .ELSE := by
            rcases hrest with hrest | hrest
            · omega
            · simpa [h₁, firstSignificant?, skipTrivia, htrivia] using hrest
          rw [List.take_succ_cons, singleFrom_before hpass helse]
  | case4 st i stop t ts htrivia hpass =>
      obtain ⟨j, rfl⟩ := Nat.exists_eq_add_one_of_ne_zero (by omega : j ≠ 0)
      rw [List.take_succ_cons, singleFrom_after hpass]
  | case5 st i stop t ts htrivia st' hpass ih =>
      have hstep := plainFrom_eq_or_lt first st' (i + 1) (i + 1) ts
      obtain ⟨j, rfl⟩ := Nat.exists_eq_add_one_of_ne_zero (by omega : j ≠ 0)
      rw [List.take_succ_cons, singleFrom_goesOn hpass (Bool.eq_false_iff.mpr htrivia)]
      refine ih j (Nat.le_refl _) (by omega) ?_
      rcases hrest with hrest | hrest
      · left; omega
      · right
        have h₁ : plainFrom first st' (i + 1) (i + 1) ts - i =
            plainFrom first st' (i + 1) (i + 1) ts - (i + 1) + 1 := by omega
        rwa [h₁, List.drop_succ_cons] at hrest

theorem singleFrom_of_skipTrivia {ts : List Token}
    (h : skipTrivia ts = [] ∨ (firstSignificant? ts).any (·.is .ELSE)) (i stop : Nat) :
    singleFrom 0 0 i stop ts = stop := by
  induction ts generalizing i with
  | nil => rfl
  | cons t ts ih =>
      rw [singleFrom]
      cases htrivia : t.isTrivia with
      | true => exact ih (by simpa [firstSignificant?, skipTrivia, htrivia] using h) (i + 1)
      | false =>
          have hkind : t.kind = .keyword .ELSE := by
            simpa [firstSignificant?, skipTrivia, htrivia, Token.is] using h
          simp [hkind]

/-- Whether the body of an `IF` or `WHILE` is a plain statement or a block, but no transaction and
no `TRY` or `CATCH`. -/
def isSimpleBody : List Token → Bool
  | [] => false
  | u :: us =>
      match opening u us with
      | .separator => true
      | .plain => !u.is .BEGIN
      | .block =>
          !(throughEnd? (u :: us)).any fun n =>
            (firstSignificant? ((u :: us).drop n)).any fun v => v.isWord "try" || v.isWord "catch"
      | .definition | .conditional => false

theorem singleFrom_cons_of_startsStatement {u : Token} (h : u.kind.startsStatement)
    (us : List Token) : singleFrom 0 0 0 1 (u :: us) = singleFrom 0 0 1 1 us := by
  rw [singleFrom, isTrivia_of_startsStatement h, if_neg Bool.false_ne_true]
  cases hkind : u.kind with
  | keyword k => cases k <;> simp_all [Kind.startsStatement, Keyword.startsStatement]
  | _ => simp_all [Kind.startsStatement]

theorem plainExtent_of_startsStatement {u : Token} (h : u.kind.startsStatement) (us : List Token) :
    plainExtent u us =
      plainFrom u.keyword? ⟨u.keyword?.elim {} ({} : Pending).note, 0, 0, u.keyword?⟩ 1 1 us := by
  rw [plainExtent]
  cases hkind : u.kind <;> simp_all [Kind.startsStatement]

/-- The flat scan of a plain statement finds its end. -/
theorem singleFrom_take_plain {u : Token} {us : List Token} (hstart : u.kind.startsStatement)
    (hopening : opening u us = .plain) {j : Nat} (hle : extent (u :: us) ≤ j)
    (hrest : extent (u :: us) = j ∨
      (firstSignificant? ((u :: us).drop (extent (u :: us)))).any (·.is .ELSE)) :
    singleFrom 0 0 0 1 ((u :: us).take j) = extent (u :: us) := by
  have hextent : extent (u :: us) = plainExtent u us := by rw [extent, hopening]
  rw [hextent, plainExtent_of_startsStatement hstart] at hle hrest ⊢
  have hpos := plainFrom_eq_or_lt u.keyword?
    ⟨u.keyword?.elim {} ({} : Pending).note, 0, 0, u.keyword?⟩ 1 1 us
  obtain ⟨j, rfl⟩ := Nat.exists_eq_add_one_of_ne_zero (by omega : j ≠ 0)
  rw [List.take_succ_cons, singleFrom_cons_of_startsStatement hstart]
  refine singleFrom_take _ ⟨_, 0, 0, _⟩ 1 1 j us (Nat.le_refl 1) (by omega) ?_
  rcases hrest with hrest | hrest
  · left; omega
  · right
    rwa [← Nat.sub_add_cancel (by omega : 1 ≤ plainFrom _ _ 1 1 us), List.drop_succ_cons] at hrest

theorem singleFrom_take_separator {u : Token} {us : List Token} (hstart : u.kind.startsStatement)
    {j : Nat} (hj : 1 ≤ j) (hrest : j = 1 ∨
      triviaLength us + 1 < j ∧ (firstSignificant? us).any (·.is .ELSE)) :
    singleFrom 0 0 0 1 ((u :: us).take j) = 1 := by
  obtain ⟨j, rfl⟩ := Nat.exists_eq_add_one_of_ne_zero (by omega : j ≠ 0)
  rw [List.take_succ_cons, singleFrom_cons_of_startsStatement hstart]
  apply singleFrom_of_skipTrivia
  rcases hrest with hrest | ⟨hlt, helse⟩
  · left
    simp_all [skipTrivia]
  · right
    rwa [firstSignificant?_take (by omega)]

theorem conditionLength_take {t : Token} {ts : List Token} {k m : Nat} (ht : t.isTrivia = false)
    (hk : topLevel? (fun u => u.kind.startsStatement) ts = some k)
    (hcondition : topLevel? (fun u => u.kind = .semicolon) (ts.take k) = none) (hm : k + 1 < m) :
    conditionLength ((t :: ts).take m) = 1 + k := by
  obtain ⟨m, rfl⟩ := Nat.exists_eq_add_one_of_ne_zero (Nat.ne_zero_of_lt hm)
  have hfirst := topLevelFrom?_take (topLevelFrom?_or hk hcondition) (by omega : k < m)
  have hlen : triviaLength (t :: ts.take m) = 0 := by simp [triviaLength, ht]
  simp only [conditionLength, List.take_succ_cons, hlen, List.drop_succ_cons, List.drop_zero,
    topLevel?, hfirst]

theorem conditionLength_take_of_none {t : Token} {ts : List Token} (ht : t.isTrivia = false)
    (hbody : topLevel? (fun u => u.kind.startsStatement) ts = none)
    (hcondition : topLevel? (fun u => u.kind = .semicolon) ts = none) (m : Nat) :
    conditionLength ((t :: ts).take m) = ((t :: ts).take m).length := by
  cases m with
  | zero => rfl
  | succ m =>
      have hnone := topLevelFrom?_take_eq_none (topLevelFrom?_or_eq_none hbody hcondition) m
      have hlen : triviaLength (t :: ts.take m) = 0 := by simp [triviaLength, ht]
      simp only [conditionLength, List.take_succ_cons, hlen, List.drop_succ_cons, List.drop_zero,
        topLevel?, hnone]

/-- The length of the body of an `IF` or `WHILE` at the head of the list. -/
def bodyLength : List Token → Nat
  | [] => 0
  | t :: ts =>
      if t.is .BEGIN then (throughEnd? (t :: ts)).getD (t :: ts).length
      else if t.kind = .semicolon then 1
      else singleFrom 0 0 0 1 (t :: ts)

theorem conditionLength_le (ts : List Token) : conditionLength ts ≤ ts.length := by
  rw [conditionLength]
  split
  · rename_i i hi
    have hlt := topLevelFrom?_lt hi
    rw [List.length_drop] at hlt
    omega
  · exact Nat.le_refl _

theorem conditionalLength_eq (ts : List Token) :
    conditionalLength ts = conditionLength ts + bodyLength (ts.drop (conditionLength ts)) := by
  have hle := conditionLength_le ts
  have hlen : (ts.drop (conditionLength ts)).length = ts.length - conditionLength ts :=
    List.length_drop
  rw [conditionalLength]
  cases hdrop : ts.drop (conditionLength ts) with
  | nil =>
      rw [hdrop, List.length_nil] at hlen
      simp only [bodyLength]
      omega
  | cons t rest =>
      rw [hdrop] at hlen
      simp only [bodyLength]
      split
      · cases throughEnd? (t :: rest) with
        | none =>
            simp only [Option.map_none, Option.getD_none]
            omega
        | some n => rfl
      · split <;> rfl

theorem withSemicolon_add (ts : List Token) (n m : Nat) :
    withSemicolon ts (n + m) = n + withSemicolon (ts.drop n) m := by
  simp only [withSemicolon, List.drop_drop]
  split <;> omega

theorem withSemicolon_take {ts : List Token} {n j : Nat} (h : withSemicolon ts n ≤ j) :
    withSemicolon ts n = n ∨ withSemicolon (ts.take j) n = withSemicolon ts n := by
  simp only [withSemicolon] at h ⊢
  split at h
  · rename_i hsemicolon
    right
    have hlt : triviaLength (ts.drop n) < j - n := by omega
    rw [List.drop_take, firstSignificant?_take hlt, triviaLength_take (Nat.le_of_lt hlt)]
  · rename_i hsemicolon
    left
    rw [if_neg hsemicolon]

theorem le_withSemicolon (ts : List Token) (n : Nat) : n ≤ withSemicolon ts n := by
  simp only [withSemicolon]
  split <;> omega

/-- The first keyword of a separator and of a block. -/
theorem keyword?_of_opening {t : Token} {ts : List Token} :
    (opening t ts = .separator → t.keyword? = some .GO) ∧
      (opening t ts = .block → t.keyword? = some .BEGIN) := by
  unfold opening
  split
  · simp [*]
  · split <;> simp
  · split <;> simp
  · split <;> simp [*]
  · simp
  · simp
  · simp

theorem extent_pos (t : Token) (ts : List Token) : 0 < extent (t :: ts) := by
  rw [extent]
  split
  · exact Nat.one_pos
  · rw [moduleExtent]
    omega
  · rw [blockExtent]
    split
    · rename_i n hn
      have hpos := triviaLength_lt_of_throughEndFrom? hn
      have hle (m : Nat) := le_withSemicolon (t :: ts) m
      dsimp only
      split
      · have := hle (n + triviaLength ((t :: ts).drop n) + 1)
        omega
      · have := hle n
        omega
    · omega
  · split
    · omega
    · simp only
      split
      · split <;> omega
      · omega
  · rw [plainExtent]
    have hplain (st : Scan) := plainFrom_eq_or_lt t.keyword? st 1 1 ts
    split
    · exact Nat.one_pos
    · rcases hplain ⟨t.keyword?.elim {} ({} : Pending).note, 1, 0, t.keyword?⟩ with h | h <;> omega
    · rcases hplain ⟨t.keyword?.elim {} ({} : Pending).note, 0, 0, t.keyword?⟩ with h | h <;> omega

/-- Both ways to delimit a block agree, but for a semicolon after it. -/
theorem bodyLength_take_block {u : Token} {us : List Token} (hopening : opening u us = .block)
    (hsimple : isSimpleBody (u :: us)) {j : Nat} (hle : extent (u :: us) ≤ j)
    (hrest : extent (u :: us) = j ∨
      (firstSignificant? ((u :: us).drop (extent (u :: us)))).any (·.is .ELSE)) :
    bodyLength ((u :: us).take j) = extent (u :: us) ∨
      withSemicolon ((u :: us).take j) (bodyLength ((u :: us).take j)) = extent (u :: us) := by
  have hextent : extent (u :: us) = blockExtent (u :: us) := by rw [extent, hopening]
  rw [hextent] at hle hrest ⊢
  have hbegin : u.is .BEGIN := by
    have hkeyword := keyword?_of_opening.2 hopening
    cases hkind : u.kind <;> simp_all [Token.keyword?, Token.is]
  cases hend : throughEnd? (u :: us) with
  | some n =>
      have hword : ((firstSignificant? ((u :: us).drop n)).any fun v =>
          v.isWord "try" || v.isWord "catch") = false := by
        simpa [isSimpleBody, hopening, hend] using hsimple
      have hblock : blockExtent (u :: us) = withSemicolon (u :: us) n := by
        simp only [blockExtent, hend, hword, Bool.false_eq_true, if_false]
      rw [hblock] at hle ⊢
      have hn := le_withSemicolon (u :: us) n
      have htake := throughEndFrom?_take hend (Nat.le_trans hn hle)
      have hpos := triviaLength_lt_of_throughEndFrom? hend
      obtain ⟨j, rfl⟩ := Nat.exists_eq_add_one_of_ne_zero (by omega : j ≠ 0)
      have hbody : bodyLength ((u :: us).take (j + 1)) = n := by
        rw [List.take_succ_cons] at htake ⊢
        rw [bodyLength, if_pos hbegin, throughEnd?, htake]
        rfl
      rw [hbody]
      rcases withSemicolon_take hle with h | h
      · exact .inl h.symm
      · exact .inr h
  | none =>
      have hblock : blockExtent (u :: us) = max 1 (significantLength (u :: us)) := by
        simp only [blockExtent, hend]
      have hpos : 0 < significantLength (u :: us) :=
        significantLength_pos (isTrivia_of_keyword? (keyword?_of_opening.2 hopening))
      rw [hblock, Nat.max_eq_right hpos] at hle hrest ⊢
      obtain ⟨core, gap, hts, hlen, hgap⟩ := exists_eq_append_gap (u :: us)
      have hcore : throughEnd? core = none := by
        rwa [hts, throughEnd?, throughEndFrom?_append_trivia hgap] at hend
      have hj : core.length = j := by
        rcases hrest with hrest | hrest
        · omega
        · have hskip : skipTrivia gap = [] := List.dropWhile_eq_nil_iff.mpr hgap
          rw [← hlen, hts, List.drop_left, firstSignificant?, hskip] at hrest
          cases hrest
      have htake : (u :: us).take j = core := by rw [hts, ← hj, List.take_left]
      rw [htake, ← hlen]
      left
      cases core with
      | nil => rfl
      | cons v core =>
          obtain rfl : u = v := (List.cons.inj hts).1
          rw [bodyLength, if_pos hbegin, hcore]
          rfl

theorem bodyLength_of_startsStatement {u : Token} {us : List Token}
    (hstart : u.kind.startsStatement) (hbegin : u.is .BEGIN = false) :
    bodyLength (u :: us) = singleFrom 0 0 0 1 (u :: us) := by
  have hsemicolon : u.kind ≠ .semicolon := by
    intro hkind
    simp [hkind, Kind.startsStatement] at hstart
  rw [bodyLength, hbegin, if_neg Bool.false_ne_true, if_neg hsemicolon]

/-- The body is delimited as the statements are divided, but for a semicolon after a block. -/
theorem bodyLength_take {u : Token} {us : List Token} (hstart : u.kind.startsStatement)
    (hsimple : isSimpleBody (u :: us)) {j : Nat} (hle : extent (u :: us) ≤ j)
    (hrest : extent (u :: us) = j ∨
      extent (u :: us) + triviaLength ((u :: us).drop (extent (u :: us))) < j ∧
        (firstSignificant? ((u :: us).drop (extent (u :: us)))).any (·.is .ELSE)) :
    bodyLength ((u :: us).take j) = extent (u :: us) ∨
      withSemicolon ((u :: us).take j) (bodyLength ((u :: us).take j)) =
        extent (u :: us) := by
  have hscan (hbegin : u.is .BEGIN = false) :
      bodyLength ((u :: us).take j) = singleFrom 0 0 0 1 ((u :: us).take j) := by
    have hpos := extent_pos u us
    obtain ⟨j, rfl⟩ := Nat.exists_eq_add_one_of_ne_zero (by omega : j ≠ 0)
    exact bodyLength_of_startsStatement hstart hbegin
  cases hopening : opening u us with
  | separator =>
      have hextent : extent (u :: us) = 1 := by rw [extent, hopening]
      have hbegin : u.is .BEGIN = false :=
        is_of_keyword? (keyword?_of_opening.1 hopening) (by decide)
      rw [hextent] at hle hrest ⊢
      left
      rw [hscan hbegin]
      apply singleFrom_take_separator hstart hle
      rcases hrest with hrest | ⟨hlt, helse⟩
      · exact .inl hrest.symm
      · right
        exact ⟨by simpa [Nat.add_comm] using hlt, helse⟩
  | plain =>
      have hbegin : u.is .BEGIN = false := by simpa [isSimpleBody, hopening] using hsimple
      left
      rw [hscan hbegin]
      exact singleFrom_take_plain hstart hopening hle (hrest.imp_right And.right)
  | block =>
      exact bodyLength_take_block hopening hsimple hle (hrest.imp_right And.right)
  | definition => simp [isSimpleBody, hopening] at hsimple
  | conditional => simp [isSimpleBody, hopening] at hsimple

theorem mem_boundsFrom {i : Nat} {ts : List Token} {b : Bounds} (h : b ∈ boundsFrom i ts) :
    i ≤ b.start ∧ ∃ t rest, ts.drop (b.start - i) = t :: rest ∧ t.isTrivia = false ∧
      b.stop = b.start + extent (t :: rest) := by
  fun_induction boundsFrom i ts with
  | case1 => cases h
  | case2 i t ts htrivia ih =>
      obtain ⟨hle, u, rest, hdrop, hu, hstop⟩ := ih h
      refine ⟨by omega, u, rest, ?_, hu, hstop⟩
      rw [← hdrop, ← Nat.sub_add_cancel (by omega : 1 ≤ b.start - i), List.drop_succ_cons,
        Nat.sub_sub]
  | case3 i t ts htrivia n ih =>
      rcases List.mem_cons.mp h with rfl | h
      · refine ⟨Nat.le_refl i, t, ts, ?_, Bool.eq_false_iff.mpr htrivia, ?_⟩
        · simp
        · have hpos := extent_pos t ts
          simp only [n]
          omega
      · obtain ⟨hle, u, rest, hdrop, hu, hstop⟩ := ih h
        refine ⟨by omega, u, rest, ?_, hu, hstop⟩
        rw [List.drop_drop] at hdrop
        have hsub : b.start - i = n + (b.start - (i + n + 1)) + 1 := by omega
        rw [hsub, List.drop_succ_cons, hdrop]

/-- The position of the body of the `IF` or `WHILE` at the head of the list. -/
def bodyStart? (ts : List Token) : Option Nat :=
  (topLevel? (fun u => u.kind.startsStatement) ts.tail).map (· + 1)

/-- The length of the `IF` or `WHILE` at the head of the list through its first statement, as the
statements are divided. -/
def thenLength (ts : List Token) : Nat :=
  match bodyStart? ts with
  | none => significantLength ts
  | some k => k + extent (ts.drop k)

/-- An `IF` or `WHILE` with no semicolon in its condition and with a simple body, if it has one. -/
structure SimpleConditional (ts : List Token) : Prop where
  keyword : ts.head?.bind Token.keyword? = some .IF ∨ ts.head?.bind Token.keyword? = some .WHILE
  condition : topLevel? (fun u => u.kind = .semicolon)
    (ts.take ((bodyStart? ts).getD ts.length)) = none
  body : ∀ k ∈ bodyStart? ts, isSimpleBody (ts.drop k)

instance (ts : List Token) : Decidable (SimpleConditional ts) :=
  decidable_of_iff ((ts.head?.bind Token.keyword? = some .IF ∨
        ts.head?.bind Token.keyword? = some .WHILE) ∧
      topLevel? (fun u => u.kind = .semicolon)
        (ts.take ((bodyStart? ts).getD ts.length)) = none ∧
      ∀ k ∈ bodyStart? ts, isSimpleBody (ts.drop k))
    ⟨fun ⟨h₁, h₂, h₃⟩ => ⟨h₁, h₂, h₃⟩, fun h => ⟨h.keyword, h.condition, h.body⟩⟩

theorem extent_of_conditional {t : Token} {ts : List Token} (ht : t.isTrivia = false)
    (h : opening t ts = .conditional) :
    extent (t :: ts) = thenLength (t :: ts) ∨
      thenLength (t :: ts) + triviaLength ((t :: ts).drop (thenLength (t :: ts))) <
          extent (t :: ts) ∧
        (firstSignificant? ((t :: ts).drop (thenLength (t :: ts)))).any (·.is .ELSE) := by
  rw [extent, thenLength, h, bodyStart?, List.tail_cons]
  cases hk : topLevel? (fun u => u.kind.startsStatement) ts with
  | none => exact .inl (Nat.max_eq_right (significantLength_pos ht))
  | some k =>
      obtain ⟨u, us, hu, -⟩ := drop_of_topLevelFrom? hk
      have hpos := extent_pos u us
      have hdrop : (t :: ts).drop (k + 1 + extent (u :: us)) = ts.drop (k + extent (u :: us)) := by
        rw [Nat.add_right_comm, List.drop_succ_cons]
      simp only [Option.map_some, List.drop_succ_cons, hu, Nat.max_eq_right hpos, hdrop]
      split
      · rename_i helse
        right
        refine ⟨?_, helse⟩
        split <;> omega
      · left
        omega

namespace SimpleConditional

variable {t : Token} {ts : List Token}

theorem keyword?_eq (h : SimpleConditional (t :: ts)) :
    t.keyword? = some .IF ∨ t.keyword? = some .WHILE := h.keyword

theorem isTrivia_eq (h : SimpleConditional (t :: ts)) : t.isTrivia = false := by
  rcases h.keyword?_eq with hkeyword | hkeyword <;> exact isTrivia_of_keyword? hkeyword

theorem opening_eq (h : SimpleConditional (t :: ts)) : opening t ts = .conditional := by
  rw [opening]
  rcases h.keyword?_eq with hkeyword | hkeyword <;> simp [hkeyword]

theorem condition_tail (h : SimpleConditional (t :: ts)) :
    topLevel? (fun u => u.kind = .semicolon)
      (ts.take ((topLevel? (fun u => u.kind.startsStatement) ts).getD ts.length)) = none := by
  have hkind : ∃ k, t.kind = .keyword k := by
    rcases h.keyword?_eq with hkeyword | hkeyword <;>
      cases hkind : t.kind <;> simp_all [Token.keyword?]
  obtain ⟨k, hkind⟩ := hkind
  have hcondition := h.condition
  have hlen : (bodyStart? (t :: ts)).getD (t :: ts).length =
      (topLevel? (fun u => u.kind.startsStatement) ts).getD ts.length + 1 := by
    rw [bodyStart?, List.tail_cons]
    cases topLevel? (fun u => u.kind.startsStatement) ts <;> rfl
  rw [hlen, List.take_succ_cons] at hcondition
  simpa [topLevel?, topLevelFrom?, hkind] using hcondition

/-- Inside a statement the flat scan of a simple `IF` or `WHILE` stops where its first statement
does, but for a semicolon after a block. -/
theorem conditionalLength_take (h : SimpleConditional (t :: ts)) :
    let statement := (t :: ts).take (extent (t :: ts))
    conditionalLength statement = thenLength (t :: ts) ∨
      withSemicolon statement (conditionalLength statement) = thenLength (t :: ts) := by
  intro statement
  have hcondition := h.condition_tail
  have hlen := extent_le_length (t :: ts)
  cases hk : topLevel? (fun u => u.kind.startsStatement) ts with
  | none =>
      have hthen : thenLength (t :: ts) = extent (t :: ts) := by
        rw [thenLength, extent, h.opening_eq, bodyStart?, List.tail_cons, hk]
        exact (Nat.max_eq_right (significantLength_pos h.isTrivia_eq)).symm
      rw [hk, Option.getD_none, List.take_length] at hcondition
      have hlength : statement.length = extent (t :: ts) := by
        rw [List.length_take, Nat.min_eq_left hlen]
      have hcut : conditionLength statement = statement.length :=
        conditionLength_take_of_none h.isTrivia_eq hk hcondition _
      left
      rw [conditionalLength_eq, hcut, List.drop_length, hlength, hthen]
      rfl
  | some k =>
      obtain ⟨u, us, hu, hstart⟩ := drop_of_topLevelFrom? hk
      have hpos := extent_pos u us
      have hextent := extent_of_conditional h.isTrivia_eq h.opening_eq
      have hstart? : bodyStart? (t :: ts) = some (k + 1) := by
        rw [bodyStart?, List.tail_cons, hk]
        rfl
      have hbody : (t :: ts).drop (k + 1) = u :: us := hu
      have hthen : thenLength (t :: ts) = k + 1 + extent (u :: us) := by
        rw [thenLength, hstart?]
        exact congrArg (k + 1 + extent ·) hbody
      rw [hthen] at hextent ⊢
      rw [hk] at hcondition
      have hcut : conditionLength statement = k + 1 := by
        rw [Nat.add_comm]
        exact conditionLength_take h.isTrivia_eq hk hcondition (by omega)
      have hrest : statement.drop (k + 1) = (u :: us).take (extent (t :: ts) - (k + 1)) := by
        rw [List.drop_take, hbody]
      have hdrop : (t :: ts).drop (k + 1 + extent (u :: us)) =
          (u :: us).drop (extent (u :: us)) := by
        rw [← hbody, List.drop_drop]
      rw [hdrop] at hextent
      rw [conditionalLength_eq, hcut, withSemicolon_add, hrest]
      have hsimple := h.body (k + 1) hstart?
      rw [hbody] at hsimple
      have hscan := bodyLength_take hstart hsimple
        (by omega : extent (u :: us) ≤ extent (t :: ts) - (k + 1))
        (hextent.imp (by omega) (And.imp_left (by omega)))
      omega

/-- What a statement holds after its first statement is an `ELSE` of its own. -/
theorem drop_thenLength (h : SimpleConditional (t :: ts)) :
    let rest := ((t :: ts).take (extent (t :: ts))).drop (thenLength (t :: ts))
    rest = [] ∨ (firstSignificant? rest).any (·.is .ELSE) := by
  intro rest
  have hrest : rest = ((t :: ts).drop (thenLength (t :: ts))).take
      (extent (t :: ts) - thenLength (t :: ts)) := List.drop_take
  rcases extent_of_conditional h.isTrivia_eq h.opening_eq with hextent | ⟨hlt, helse⟩
  · left
    rw [hrest, hextent, Nat.sub_self, List.take_zero]
  · right
    rwa [hrest, firstSignificant?_take (by omega)]

end SimpleConditional

/-- What is cut out of a statement with `IF` or `WHILE` is its condition and its first statement, up
to a semicolon right after that. If more is left, it starts with the `ELSE` of the statement. -/
theorem conditional_eq_then_statement {ts : List Token} {b : Bounds} (hb : b ∈ bounds ts)
    (h : SimpleConditional (ts.drop b.start)) :
    let statement := (ts.take b.stop).drop b.start
    let stop := thenLength (ts.drop b.start)
    (∃ n, conditional statement 0 = (statement.take n, n) ∧
      (n = stop ∨ withSemicolon statement n = stop)) ∧
      (statement.drop stop = [] ∨
        (firstSignificant? (statement.drop stop)).any (·.is .ELSE)) := by
  obtain ⟨-, t, rest, hdrop, ht, hstop⟩ := mem_boundsFrom hb
  rw [Nat.sub_zero] at hdrop
  have hstatement : (ts.take b.stop).drop b.start = (t :: rest).take (extent (t :: rest)) := by
    rw [List.drop_take, hdrop, hstop, Nat.add_sub_cancel_left]
  rw [hdrop] at h ⊢
  rw [hstatement]
  refine ⟨⟨_, ?_, h.conditionalLength_take⟩, h.drop_thenLength⟩
  have hpos := extent_pos t rest
  rw [conditional, if_neg, scanned, List.drop_zero, Nat.zero_min, Nat.zero_add]
  rw [List.length_take, List.length_cons]
  omega

theorem conditional_eq_then_statement_nested :
    let ts := tokenize
      "SELECT 0 IF @a = 1 BEGIN IF @b = 2 SELECT 1 ELSE SELECT 2 END; ELSE SELECT 3".toList
    let statement := (ts.take 40).drop 4
    ⟨4, 40⟩ ∈ bounds ts ∧ SimpleConditional (ts.drop 4) ∧ thenLength (ts.drop 4) = 30 ∧
      (∃ n, conditional statement 0 = (statement.take n, n) ∧
        (n = 30 ∨ withSemicolon statement n = 30)) ∧
      (statement.drop 30 = [] ∨ (firstSignificant? (statement.drop 30)).any (·.is .ELSE)) := by
  intro ts statement
  have hfacts : ⟨4, 40⟩ ∈ bounds ts ∧ SimpleConditional (ts.drop 4) ∧
      thenLength (ts.drop 4) = 30 := by decide +kernel
  obtain ⟨hb, h, hstop⟩ := hfacts
  have hthen := conditional_eq_then_statement hb h
  rw [hstop] at hthen
  exact ⟨hb, h, hstop, hthen⟩

/-- The flat scan ends before the `ELSE` of an inner `IF`, which the statement at the head then
takes for its own. -/
theorem conditional_ne_then_statement :
    let ts := tokenize "IF @a = 1 IF @b = 2 SELECT 1 ELSE SELECT 2".toList
    bounds ts = [⟨0, 25⟩] ∧ thenLength ts = 25 ∧ conditional ts 0 = (ts.take 19, 19) ∧
      (firstSignificant? (ts.drop 19)).any (·.is .ELSE) := by
  decide +kernel

end SqlMigration.Statement
