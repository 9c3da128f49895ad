import SqlMigration.Proofs.Statement.Isolation
import SqlMigration.Statement.Block

/-! # Blocks and their ends

A block is taken apart by looking for the last `END` of a list, without counting. That is its own
`END` as long as no other one follows in the list. Statements are cut so that this is the case:
what they hold behind the `END` of a block are the word of `END TRY` and a semicolon at most, and
an `IF` or `WHILE` is cut off behind the `END` of its body.
-/

namespace SqlMigration.Statement

/-! ## Counting blocks -/

/-- What the token does to the number of open blocks, where `rest` follows it. -/
def blockChange (t : Token) (rest : List Token) : Int :=
  if t.is .END then -1
  else if t.is .CASE || (t.is .BEGIN && !opensTransaction rest) then 1
  else 0

/-- The number of blocks that are open after the first `n` tokens, less those closed too many. -/
def blockDepth : Nat → List Token → Int
  | n + 1, t :: ts => blockChange t ts + blockDepth n ts
  | _, _ => 0

/-- The tokens from `start` through `stop` are a block: it opens with a `BEGIN` that does not start
a transaction, and counting from there comes to zero at the `END` at `stop` and not before. -/
structure IsBlock (ts : List Token) (start stop : Nat) : Prop where
  begins : (ts.drop start).head?.any (·.is .BEGIN)
  notTransaction : opensTransaction (ts.drop (start + 1)) = false
  lt : start < stop
  ends : (ts.drop stop).head?.any (·.is .END)
  depth_eq_zero : blockDepth (stop + 1 - start) (ts.drop start) = 0
  depth_pos : ∀ n < stop + 1 - start, 0 < n → 0 < blockDepth n (ts.drop start)

instance (ts : List Token) (start stop : Nat) : Decidable (IsBlock ts start stop) :=
  decidable_of_iff (((ts.drop start).head?.any (·.is .BEGIN) ∧
      opensTransaction (ts.drop (start + 1)) = false) ∧ start < stop ∧
      (ts.drop stop).head?.any (·.is .END) ∧
      blockDepth (stop + 1 - start) (ts.drop start) = 0 ∧
      ∀ n < stop + 1 - start, 0 < n → 0 < blockDepth n (ts.drop start))
    ⟨fun h => ⟨h.1.1, h.1.2, h.2.1, h.2.2.1, h.2.2.2.1, h.2.2.2.2⟩,
      fun h => ⟨⟨h.1, h.2⟩, h.3, h.4, h.5, h.6⟩⟩

theorem throughEndFrom?_cons {depth depth' : Nat} {t : Token} {ts : List Token}
    (h : (depth : Int) + blockChange t ts = depth') (hpos : 0 < depth') :
    throughEndFrom? depth (t :: ts) = (throughEndFrom? depth' ts).map (· + 1) := by
  unfold blockChange at h
  rw [throughEndFrom?]
  split
  · rename_i hkeyword
    have hend := is_of_keyword? hkeyword (by decide : Keyword.BEGIN ≠ .END)
    have hcase := is_of_keyword? hkeyword (by decide : Keyword.BEGIN ≠ .CASE)
    have hbegin : t.is .BEGIN := by
      cases hkind : t.kind <;> simp_all [Token.keyword?, Token.is]
    cases hopens : opensTransaction ts <;>
      simp only [hend, hcase, hbegin, hopens, Bool.not_true, Bool.not_false, Bool.and_true,
        Bool.and_false, Bool.or_false, Bool.false_or, Bool.false_eq_true, if_true, if_false] at h ⊢
    · obtain rfl : depth + 1 = depth' := by omega
      rfl
    · obtain rfl : depth = depth' := by omega
      rfl
  · rename_i hkeyword
    have hend := is_of_keyword? hkeyword (by decide : Keyword.CASE ≠ .END)
    have hcase : t.is .CASE := by
      cases hkind : t.kind <;> simp_all [Token.keyword?, Token.is]
    simp only [hend, hcase, Bool.true_or, Bool.false_eq_true, if_true, if_false] at h
    obtain rfl : depth + 1 = depth' := by omega
    rfl
  · rename_i hkeyword
    have hend : t.is .END := by
      cases hkind : t.kind <;> simp_all [Token.keyword?, Token.is]
    rw [if_pos hend] at h
    obtain rfl : depth - 1 = depth' := by omega
    rw [if_neg (by omega)]
  · rename_i hbegin hcase hend
    have hne {k : Keyword} (hk : t.keyword? ≠ some k) : t.is k = false := by
      rw [Bool.eq_false_iff]
      intro his
      exact hk (by rw [Token.keyword?, kind_of_is his])
    simp only [hne hbegin, hne hcase, hne hend, Bool.false_and, Bool.or_false, Bool.false_eq_true,
      if_false] at h
    obtain rfl : depth = depth' := by omega
    rfl

/-- The count that the splitter makes ends where the number of open blocks comes to zero. -/
theorem throughEndFrom?_of_blockDepth {n depth : Nat} {ts : List Token}
    (hend : (ts.drop n).head?.any (·.is .END)) (hzero : (depth : Int) + blockDepth (n + 1) ts = 0)
    (hpos : ∀ m ≤ n, 0 < (depth : Int) + blockDepth m ts) :
    throughEndFrom? depth ts = some (n + 1) := by
  induction n generalizing depth ts with
  | zero =>
      obtain ⟨t, ht, hend⟩ := (Option.any_eq_true _ _).mp hend
      rw [List.drop_zero] at ht
      obtain ⟨rest, rfl⟩ := List.head?_eq_some_iff.mp ht
      have hdepth : depth ≤ 1 := by
        simp only [blockDepth, blockChange] at hzero
        omega
      have hkeyword : t.keyword? = some .END := by rw [Token.keyword?, kind_of_is hend]
      rw [throughEndFrom?, hkeyword]
      exact if_pos hdepth
  | succ n ih =>
      cases ts with
      | nil => cases hend
      | cons t ts =>
          have hstep := hpos 1 (by omega)
          simp only [blockDepth] at hstep hzero
          have hcast : ((depth + blockChange t ts).toNat : Int) = depth + blockChange t ts :=
            Int.toNat_of_nonneg (by omega)
          rw [throughEndFrom?_cons hcast.symm (by omega), ih hend, Option.map_some]
          · omega
          · intro m hm
            have hnext := hpos (m + 1) (by omega)
            simp only [blockDepth] at hnext
            omega

namespace IsBlock

variable {ts : List Token} {start stop : Nat}

theorem exists_drop (h : IsBlock ts start stop) :
    ∃ t rest, ts.drop start = t :: rest ∧ t.is .BEGIN ∧ opensTransaction rest = false := by
  obtain ⟨t, ht, hbegin⟩ := (Option.any_eq_true _ _).mp h.begins
  obtain ⟨rest, hdrop⟩ := List.head?_eq_some_iff.mp ht
  refine ⟨t, rest, hdrop, hbegin, ?_⟩
  have hnot := h.notTransaction
  rwa [← List.drop_drop, hdrop, List.drop_one, List.tail_cons] at hnot

theorem throughEnd?_eq (h : IsBlock ts start stop) :
    throughEnd? (ts.drop start) = some (stop + 1 - start) := by
  obtain ⟨t, rest, hdrop, hbegin, hnot⟩ := h.exists_drop
  have hlt := h.lt
  obtain ⟨n, hn⟩ : ∃ n, stop = start + n + 1 := ⟨stop - start - 1, by omega⟩
  have hchange : blockChange t rest = 1 := by
    have hend : t.is .END = false := by simp [Token.is, kind_of_is hbegin]
    simp [blockChange, hbegin, hnot, hend]
  have hopen : ((0 : Nat) : Int) + blockChange t rest = (1 : Nat) := by rw [hchange]; rfl
  have hzero := h.depth_eq_zero
  have hpos := h.depth_pos
  have hend := h.ends
  have hcount : stop + 1 - start = n + 1 + 1 := by omega
  rw [hn, Nat.add_assoc, ← List.drop_drop, hdrop, List.drop_succ_cons] at hend
  rw [hcount, hdrop, blockDepth, hchange] at hzero
  rw [hcount, hdrop, throughEnd?, throughEndFrom?_cons hopen Nat.one_pos,
    throughEndFrom?_of_blockDepth hend hzero]
  · rfl
  · intro m hm
    have hm := hpos (m + 1) (by omega) (Nat.succ_pos m)
    rwa [hdrop, blockDepth, hchange] at hm

end IsBlock

/-! ## The last end -/

/-- The last token of a kind, where none of that kind follows it. -/
theorem lastOf?_append_cons {k : Kind} {t : Token} (ht : t.kind = k) {us : List Token}
    (hus : ∀ u ∈ us, u.kind ≠ k) (ts : List Token) :
    lastOf? k (ts ++ t :: us) = some ts.length := by
  have hrun : ((ts ++ t :: us).reverse.dropWhile fun u => u.kind ≠ k) = t :: ts.reverse := by
    rw [List.reverse_append, List.reverse_cons, List.append_assoc,
      List.dropWhile_append_of_pos fun u hu => by simpa using hus u (List.mem_reverse.mp hu)]
    exact List.dropWhile_cons_of_neg (by simp [ht])
  rw [lastOf?, hrun, List.length_cons, List.length_reverse]

/-- The inside of a block reaches to the last `END` of the list. -/
theorem findBlock?_of_last {t e : Token} {inner us : List Token} (ht : t.is .BEGIN)
    (he : e.is .END) (hus : ∀ u ∈ us, u.is .END = false) :
    findBlock? (t :: (inner ++ e :: us)) 0 = some (inner, inner.length + 2) := by
  have hlast : lastOf? (.keyword .END) (inner ++ e :: us) = some inner.length :=
    lastOf?_append_cons (kind_of_is he)
      (fun u hu hkind => by simpa [Token.is, hkind] using hus u hu) inner
  have hskip : skipTrivia (t :: (inner ++ e :: us)) = t :: (inner ++ e :: us) := by
    simp [skipTrivia, isTrivia_of_is ht]
  have hgap : triviaLength (t :: (inner ++ e :: us)) = 0 := by
    simp [triviaLength, isTrivia_of_is ht]
  simp [findBlock?, blockInside?, hskip, hgap, kind_of_is ht, terminator?, hlast]

/-- What a statement takes in beyond its first `n` tokens is trivia and the token looked for. -/
theorem take_throughNext (q : Token → Bool) (ts : List Token) (n : Nat) :
    ∃ us, ts.take (throughNext q ts n) = ts.take n ++ us ∧ ∀ u ∈ us, u.isTrivia ∨ q u := by
  rw [throughNext]
  split
  · rename_i hfound
    obtain ⟨u, hu, hq⟩ := (Option.any_eq_true _ _).mp hfound
    obtain ⟨rest, hskip⟩ := List.head?_eq_some_iff.mp hu
    obtain ⟨gap, hdrop, hgap, hlength, -⟩ := eq_append_of_skipTrivia hskip
    refine ⟨gap ++ [u], ?_, ?_⟩
    · rw [Nat.add_assoc, List.take_add, hlength, hdrop]
      exact congrArg (ts.take n ++ ·) (take_gap gap u rest 0)
    · intro v hv
      rcases List.mem_append.mp hv with hv | hv
      · exact .inl (hgap v hv)
      · rw [List.mem_singleton.mp hv]
        exact .inr hq
  · exact ⟨[], (List.append_nil _).symm, by simp⟩

/-- Behind the `END` of a block its statement holds no other. -/
theorem take_blockExtent {ts : List Token} {n : Nat} (hend : throughEnd? ts = some n) :
    ∃ us, ts.take (blockExtent ts) = ts.take n ++ us ∧ ∀ u ∈ us, u.is .END = false := by
  obtain ⟨us, hus, hword⟩ := take_throughNext isHandlerWord ts n
  obtain ⟨vs, hvs, hsemicolon⟩ :=
    take_throughNext (fun t => t.kind = .semicolon) ts (throughNext isHandlerWord ts n)
  refine ⟨us ++ vs, by rw [blockExtent_of_end hend, hvs, hus, List.append_assoc], ?_⟩
  intro u hu
  rw [Bool.eq_false_iff]
  intro his
  have hkind := kind_of_is his
  rcases List.mem_append.mp hu with hu | hu
  · rcases hword u hu with htrivia | hword
    · rw [is_of_isTrivia htrivia] at his
      cases his
    · simp [isHandlerWord, Token.isWord, hkind, Kind.isIdentifier, Kind.identifiers] at hword
  · rcases hsemicolon u hu with htrivia | hsemicolon
    · rw [is_of_isTrivia htrivia] at his
      cases his
    · simp [hkind] at hsemicolon

namespace IsBlock

variable {ts : List Token} {start stop : Nat}

/-- The block is the `BEGIN`, the inside and the `END`. -/
theorem take_eq (h : IsBlock ts start stop) :
    ∃ t e, t.is .BEGIN ∧ e.is .END ∧
      (ts.drop start).take (stop + 1 - start) = t :: (slice ts ⟨start + 1, stop⟩ ++ [e]) ∧
      (slice ts ⟨start + 1, stop⟩).length + 2 = stop + 1 - start := by
  obtain ⟨t, rest, hdrop, hbegin, -⟩ := h.exists_drop
  obtain ⟨e, he, hend⟩ := (Option.any_eq_true _ _).mp h.ends
  obtain ⟨after, hafter⟩ := List.head?_eq_some_iff.mp he
  have hlt := h.lt
  obtain ⟨n, rfl⟩ : ∃ n, stop = start + n + 1 := ⟨stop - start - 1, by omega⟩
  have hcount : start + n + 1 + 1 - start = n + 1 + 1 := by omega
  have hrest : rest.drop n = e :: after := by
    rw [Nat.add_assoc, ← List.drop_drop, hdrop, List.drop_succ_cons] at hafter
    exact hafter
  have hinside : slice ts ⟨start + 1, start + n + 1⟩ = rest.take n := by
    have hsub : start + n + 1 - (start + 1) = n := by omega
    rw [slice, List.drop_take, hsub, ← List.drop_drop, hdrop, List.drop_one, List.tail_cons]
  have hlength : (rest.take n).length = n := by
    have := congrArg List.length hrest
    rw [List.length_drop, List.length_cons] at this
    rw [List.length_take]
    omega
  refine ⟨t, e, hbegin, hend, ?_, by rw [hinside, hlength, hcount]⟩
  rw [hcount, hdrop, List.take_succ_cons, List.take_add, hrest, hinside]
  rfl

/-- A list that starts with the block and holds no other `END` behind it. -/
theorem findBlock?_eq (h : IsBlock ts start stop) {us : List Token}
    (hus : ∀ u ∈ us, u.is .END = false) :
    findBlock? ((ts.drop start).take (stop + 1 - start) ++ us) 0 =
      some (slice ts ⟨start + 1, stop⟩, stop + 1 - start) := by
  obtain ⟨t, e, hbegin, hend, htake, hlength⟩ := h.take_eq
  rw [htake, List.cons_append, List.append_assoc, List.singleton_append,
    findBlock?_of_last hbegin hend hus, hlength]

end IsBlock

/-! ## Blocks that are statements -/

theorem opening_of_begin {t : Token} {ts : List Token} (ht : t.is .BEGIN)
    (hnot : opensTransaction ts = false) : opening t ts = .block := by
  have hkeyword : t.keyword? = some .BEGIN := by rw [Token.keyword?, kind_of_is ht]
  simp [opening, hkeyword, hnot]

theorem findBlock?_statement {ts : List Token} {b : Bounds} {stop : Nat} (hb : b ∈ bounds ts)
    (h : IsBlock ts b.start stop) :
    findBlock? (slice ts b) 0 = some (slice ts ⟨b.start + 1, stop⟩, stop + 1 - b.start) := by
  obtain ⟨-, t, rest, hdrop, -, hstop⟩ := mem_boundsFrom hb
  rw [Nat.sub_zero] at hdrop
  obtain ⟨t', rest', hdrop', hbegin, hnot⟩ := h.exists_drop
  obtain ⟨rfl, rfl⟩ := List.cons.inj (hdrop.symm.trans hdrop')
  have hend := h.throughEnd?_eq
  have hextent : extent (t :: rest) = blockExtent (t :: rest) := by
    rw [extent, opening_of_begin hbegin hnot]
  have hslice : slice ts b = (ts.drop b.start).take (blockExtent (ts.drop b.start)) := by
    rw [slice, List.drop_take, hstop, Nat.add_sub_cancel_left, hdrop, hextent]
  obtain ⟨us, htake, hus⟩ := take_blockExtent hend
  rw [hslice, htake, h.findBlock?_eq hus]

/-! ## Blocks that are bodies -/

theorem conditionLength_eq {t : Token} (ht : t.isTrivia = false) (ts : List Token) :
    conditionLength (t :: ts) =
      ((topLevel? (fun u => u.kind = .semicolon || u.kind.startsStatement) ts).map (· + 1)).getD
        (ts.length + 1) := by
  have hgap : triviaLength (t :: ts) = 0 := by simp [triviaLength, ht]
  simp only [conditionLength, hgap, Nat.zero_add, List.drop_succ_cons, List.drop_zero,
    List.length_cons]
  cases topLevel? (fun u => u.kind = .semicolon || u.kind.startsStatement) ts with
  | none => rfl
  | some i => exact Nat.add_comm 1 i

/-- A condition that ends within a list is not changed by what follows the list. -/
theorem conditionLength_append {t : Token} {ts : List Token} (ht : t.isTrivia = false)
    (h : conditionLength (t :: ts) < (t :: ts).length) (us : List Token) :
    conditionLength (t :: ts ++ us) = conditionLength (t :: ts) := by
  rw [List.cons_append, conditionLength_eq ht, conditionLength_eq ht]
  rw [conditionLength_eq ht] at h
  cases hfound : topLevel? (fun u => u.kind = .semicolon || u.kind.startsStatement) ts with
  | none =>
      rw [hfound, List.length_cons] at h
      exact absurd h (Nat.lt_irrefl _)
  | some i =>
      have happend :
          topLevel? (fun u => u.kind = .semicolon || u.kind.startsStatement) (ts ++ us) = some i :=
        topLevelFrom?_append_left hfound us
      rw [happend]
      rfl

/-- A condition that ends within a list is the same where the list is cut off behind it. -/
theorem conditionLength_take_of_lt {t : Token} {ts : List Token} {m : Nat}
    (ht : t.isTrivia = false) (h : conditionLength (t :: ts) < (t :: ts).length)
    (hm : conditionLength (t :: ts) < m) :
    conditionLength ((t :: ts).take m) = conditionLength (t :: ts) := by
  obtain ⟨m, rfl⟩ := Nat.exists_eq_add_one_of_ne_zero (Nat.ne_zero_of_lt hm)
  rw [List.take_succ_cons, conditionLength_eq ht, conditionLength_eq ht]
  rw [conditionLength_eq ht] at h hm
  cases hfound : topLevel? (fun u => u.kind = .semicolon || u.kind.startsStatement) ts with
  | none =>
      rw [hfound, List.length_cons] at h
      exact absurd h (Nat.lt_irrefl _)
  | some i =>
      rw [hfound, Option.map_some, Option.getD_some] at hm
      have htake :
          topLevel? (fun u => u.kind = .semicolon || u.kind.startsStatement) (ts.take m) = some i :=
        topLevelFrom?_take hfound (by omega)
      rw [htake]
      rfl

theorem conditionLength_of_take {t : Token} {ts : List Token} {n : Nat} (ht : t.isTrivia = false)
    (h : conditionLength ((t :: ts).take n) < ((t :: ts).take n).length) :
    conditionLength (t :: ts) = conditionLength ((t :: ts).take n) := by
  cases n with
  | zero => cases h
  | succ n =>
      rw [List.take_succ_cons] at h ⊢
      rw [← conditionLength_append ht h (ts.drop n), List.cons_append, List.take_append_drop]

/-- The first token of a wider class is the first of a narrower one, if it belongs to that. -/
theorem topLevelFrom?_of_imp {p q : Token → Bool} (hpq : ∀ t, p t → q t) {depth k : Nat}
    {ts : List Token} (h : topLevelFrom? q depth ts = some k) (hp : ∀ u ∈ (ts.drop k).head?, p u) :
    topLevelFrom? p depth ts = some k := by
  fun_induction topLevelFrom? q depth ts generalizing k with
  | case1 => cases h
  | case4 depth t ts hq hleft hright =>
      cases h
      have hfree : depth = 0 := by simp_all
      have ht : p t := hp t rfl
      rw [topLevelFrom?]
      simp [hfree, ht]
  | case2 depth t ts hkind ih | case3 depth t ts hkind ih =>
      obtain ⟨j, hj, rfl⟩ := Option.map_eq_some_iff.mp h
      simp [topLevelFrom?, hkind, ih hj hp]
  | case5 depth t ts hq hleft hright ih =>
      obtain ⟨j, hj, rfl⟩ := Option.map_eq_some_iff.mp h
      have ht : ¬(depth = 0 && p t) := by
        intro ht
        obtain ⟨hfree, ht⟩ := Bool.and_eq_true_iff.mp ht
        exact hq (Bool.and_eq_true_iff.mpr ⟨hfree, hpq t ht⟩)
      rw [topLevelFrom?]
      simp [ht, ih hj hp]

/-- Where the condition ends at a keyword that opens a statement, the body starts. -/
theorem topLevel?_of_conditionLength {t u : Token} {ts us : List Token} (ht : t.isTrivia = false)
    (h : (t :: ts).drop (conditionLength (t :: ts)) = u :: us) (hu : u.kind.startsStatement) :
    ∃ k, conditionLength (t :: ts) = k + 1 ∧
      topLevel? (fun u => u.kind.startsStatement) ts = some k := by
  rw [conditionLength_eq ht] at h ⊢
  cases hfound : topLevel? (fun u => u.kind = .semicolon || u.kind.startsStatement) ts with
  | none =>
      rw [hfound, Option.map_none, Option.getD_none, List.drop_succ_cons, List.drop_length] at h
      cases h
  | some k =>
      rw [hfound, Option.map_some, Option.getD_some, List.drop_succ_cons] at h
      refine ⟨k, rfl, topLevelFrom?_of_imp (fun t ht => by simp [ht]) hfound ?_⟩
      rw [h]
      intro v hv
      cases hv
      exact hu

/-- A body that is a block lies within the statement. -/
theorem le_extent_of_block {t : Token} {ts : List Token} {n : Nat}
    (hopening : opening t ts = .conditional) (ht : t.isTrivia = false)
    (hbegins : ∃ u us, (t :: ts).drop (conditionLength (t :: ts)) = u :: us ∧ u.is .BEGIN ∧
      opensTransaction us = false)
    (hend : throughEnd? ((t :: ts).drop (conditionLength (t :: ts))) = some n) :
    conditionLength (t :: ts) + n ≤ extent (t :: ts) := by
  obtain ⟨u, us, hdrop, hbegin, hnot⟩ := hbegins
  have hstarts : u.kind.startsStatement := by rw [kind_of_is hbegin]; rfl
  obtain ⟨k, hk, hbody⟩ := topLevel?_of_conditionLength ht hdrop hstarts
  rw [hdrop] at hend
  rw [hk, List.drop_succ_cons] at hdrop
  have hextent : extent (ts.drop k) = blockExtent (u :: us) := by
    rw [hdrop, extent, opening_of_begin hbegin hnot]
  have helse := le_throughElse ts (k + extent (ts.drop k))
  have hword := le_throughNext isHandlerWord (u :: us) n
  have hsemicolon := le_throughNext (fun t => t.kind = .semicolon) (u :: us)
    (throughNext isHandlerWord (u :: us) n)
  rw [extent_conditional hopening hbody, hk]
  rw [hextent, blockExtent_of_end hend] at helse ⊢
  omega

/-- An `IF` or `WHILE` with a block as its body is cut off behind the `END` of the block. -/
theorem conditional_block {ts : List Token} {n : Nat}
    (hbegin : (ts.drop (conditionLength ts)).head?.any (·.is .BEGIN))
    (hend : throughEnd? (ts.drop (conditionLength ts)) = some n) :
    conditional ts 0 = (ts.take (conditionLength ts + n), conditionLength ts + n) := by
  obtain ⟨u, hu, hbegin⟩ := (Option.any_eq_true _ _).mp hbegin
  obtain ⟨us, hdrop⟩ := List.head?_eq_some_iff.mp hu
  have hlength : conditionalLength ts = conditionLength ts + n := by
    rw [hdrop] at hend
    rw [conditionalLength_eq, hdrop, bodyLength, if_pos hbegin, hend, Option.getD_some]
  have hpos : ¬ts.length ≤ 0 := by
    intro hle
    rw [List.length_eq_zero_iff.mp (Nat.le_zero.mp hle), List.drop_nil] at hdrop
    cases hdrop
  rw [conditional, if_neg hpos, scanned, List.drop_zero, hlength, Nat.zero_min, Nat.zero_add]

theorem condition_eq {ts : List Token} (h : ts ≠ []) :
    condition ts 0 = (ts.take (conditionLength ts), conditionLength ts) := by
  have hpos : ¬ts.length ≤ 0 := fun hle => h (List.length_eq_zero_iff.mp (Nat.le_zero.mp hle))
  rw [condition, if_neg hpos, scanned, List.drop_zero, Nat.zero_min, Nat.zero_add]

/-- In its statement too an `IF` or `WHILE` is cut off behind its block, and the condition is the
same in the statement and in the cut. -/
theorem conditional_take_extent {t : Token} {ts : List Token} {n : Nat} (ht : t.isTrivia = false)
    (hopening : opening t ts = .conditional)
    (hbegins : ∃ u us, (t :: ts).drop (conditionLength (t :: ts)) = u :: us ∧ u.is .BEGIN ∧
      opensTransaction us = false)
    (hend : throughEnd? ((t :: ts).drop (conditionLength (t :: ts))) = some n) (hn : 0 < n) :
    let m := conditionLength (t :: ts) + n
    conditional ((t :: ts).take (extent (t :: ts))) 0 = ((t :: ts).take m, m) ∧
      conditionLength ((t :: ts).take m) = conditionLength (t :: ts) := by
  intro m
  have hin : m ≤ extent (t :: ts) := le_extent_of_block hopening ht hbegins hend
  obtain ⟨u, us, hdrop, hbegin, -⟩ := hbegins
  have hlt : conditionLength (t :: ts) < (t :: ts).length :=
    List.drop_eq_nil_iff.not.mp (by rw [hdrop]; exact List.cons_ne_nil u us) |> Nat.lt_of_not_le
  have htake {k : Nat} (hk : m ≤ k) :
      conditionLength ((t :: ts).take k) = conditionLength (t :: ts) :=
    conditionLength_take_of_lt ht hlt (by omega)
  refine ⟨?_, htake (Nat.le_refl m)⟩
  have hcut : ((t :: ts).take (extent (t :: ts))).drop (conditionLength (t :: ts)) =
      (u :: us).take (extent (t :: ts) - conditionLength (t :: ts)) := by
    rw [List.drop_take, hdrop]
  obtain ⟨k, hk⟩ :=
    Nat.exists_eq_add_one_of_ne_zero (by omega : extent (t :: ts) - conditionLength (t :: ts) ≠ 0)
  rw [conditional_block (n := n), htake hin, List.take_take, Nat.min_eq_left hin]
  · rw [htake hin, hcut, hk, List.take_succ_cons]
    exact hbegin
  · rw [htake hin, hcut]
    rw [hdrop] at hend
    exact throughEndFrom?_take hend (by omega)

theorem findBlock?_body {ts : List Token} {b : Bounds} {stop : Nat} (hb : b ∈ bounds ts)
    (hkeyword : (ts.drop b.start).head?.any fun t => t.is .IF || t.is .WHILE) :
    let body := b.start + conditionLength (slice ts b)
    let cut := conditional (slice ts b) 0
    body < b.stop → IsBlock ts body stop →
      cut = (slice ts ⟨b.start, stop + 1⟩, stop + 1 - b.start) ∧
      b.start + (condition cut.1 0).2 = body ∧
      findBlock? (cut.1.drop (condition cut.1 0).2) 0 =
        some (slice ts ⟨body + 1, stop⟩, stop + 1 - body) := by
  intro body cut hbody h
  obtain ⟨-, t, rest, hdrop, ht, hstop⟩ := mem_boundsFrom hb
  rw [Nat.sub_zero] at hdrop
  have hopening : opening t rest = .conditional := by
    rw [hdrop] at hkeyword
    rcases Bool.or_eq_true_iff.mp hkeyword with hkeyword | hkeyword <;>
      simp [opening, Token.keyword?, kind_of_is hkeyword]
  have hslice : slice ts b = (t :: rest).take (extent (t :: rest)) := by
    rw [slice, List.drop_take, hstop, Nat.add_sub_cancel_left, hdrop]
  have hwhole : conditionLength (t :: rest) = conditionLength (slice ts b) := by
    have hle := extent_le_length (t :: rest)
    have hlength : (slice ts b).length = b.stop - b.start := by
      rw [hslice, List.length_take, Nat.min_eq_left hle]
      omega
    have hin : conditionLength (slice ts b) < (slice ts b).length := by omega
    rw [hslice] at hin ⊢
    exact conditionLength_of_take ht hin
  have hlt := h.lt
  have hbegins := h.exists_drop
  have hend := h.throughEnd?_eq
  have hat : ts.drop body = (t :: rest).drop (conditionLength (t :: rest)) := by
    rw [hwhole, ← hdrop, List.drop_drop]
  rw [hat] at hbegins hend
  obtain ⟨hcut, hcondition⟩ := conditional_take_extent ht hopening hbegins hend (by omega)
  have hcount : conditionLength (t :: rest) + (stop + 1 - body) = stop + 1 - b.start := by omega
  rw [hcount] at hcut hcondition
  rw [← hslice] at hcut
  have hfirst : cut.1 = (t :: rest).take (stop + 1 - b.start) := congrArg Prod.fst hcut
  have hne : cut.1 ≠ [] := by
    obtain ⟨i, hi⟩ := Nat.exists_eq_add_one_of_ne_zero (by omega : stop + 1 - b.start ≠ 0)
    rw [hfirst, hi, List.take_succ_cons]
    exact List.cons_ne_nil _ _
  have hlength : (condition cut.1 0).2 = conditionLength (slice ts b) := by
    rw [condition_eq hne, hfirst, hcondition, hwhole]
  have hpart : cut.1.drop (condition cut.1 0).2 = (ts.drop body).take (stop + 1 - body) := by
    rw [hlength, hfirst, List.drop_take, ← hwhole, ← hat, hwhole, Nat.sub_sub]
  refine ⟨?_, by rw [hlength], ?_⟩
  · rw [slice, List.drop_take, hdrop]
    exact hcut
  · rw [hpart, ← List.append_nil (List.take _ _)]
    exact h.findBlock?_eq (by simp)

/-- A block is paired with its own `END`, both as a statement and as the body of an `IF` or
`WHILE`. -/
theorem findBlock?_pairs_end {ts : List Token} {b : Bounds} (hb : b ∈ bounds ts) (stop : Nat) :
    (IsBlock ts b.start stop →
      findBlock? (slice ts b) 0 = some (slice ts ⟨b.start + 1, stop⟩, stop + 1 - b.start)) ∧
    let body := b.start + conditionLength (slice ts b)
    let cut := conditional (slice ts b) 0
    ((ts.drop b.start).head?.any fun t => t.is .IF || t.is .WHILE) → body < b.stop →
      IsBlock ts body stop →
      cut = (slice ts ⟨b.start, stop + 1⟩, stop + 1 - b.start) ∧
      b.start + (condition cut.1 0).2 = body ∧
      findBlock? (cut.1.drop (condition cut.1 0).2) 0 =
        some (slice ts ⟨body + 1, stop⟩, stop + 1 - body) :=
  ⟨findBlock?_statement hb, findBlock?_body hb⟩

theorem findBlock?_pairs_end_nested :
    let ts := tokenize
      ("BEGIN TRY SELECT CASE WHEN @a = 1 THEN 2 END BEGIN TRAN END TRY; ".toList ++
        "IF @a = 1 BEGIN BEGIN SELECT 1 END END ELSE BEGIN SELECT 2 END".toList)
    let cut := conditional (slice ts ⟨31, 60⟩) 0
    bounds ts = [⟨0, 30⟩, ⟨31, 60⟩] ∧ IsBlock ts 0 26 ∧ IsBlock ts 39 49 ∧
      findBlock? (slice ts ⟨0, 30⟩) 0 = some (slice ts ⟨1, 26⟩, 27) ∧
      cut = (slice ts ⟨31, 50⟩, 19) ∧ 31 + (condition cut.1 0).2 = 39 ∧
      findBlock? (cut.1.drop (condition cut.1 0).2) 0 = some (slice ts ⟨40, 49⟩, 11) := by
  intro ts cut
  have hfacts : bounds ts = [⟨0, 30⟩, ⟨31, 60⟩] ∧ IsBlock ts 0 26 ∧ IsBlock ts 39 49 ∧
      31 + conditionLength (slice ts ⟨31, 60⟩) = 39 ∧
      (ts.drop 31).head?.any fun t => t.is .IF || t.is .WHILE := by
    decide +kernel
  obtain ⟨hbounds, htry, hbody, hcondition, hkeyword⟩ := hfacts
  have hfirst : ⟨0, 30⟩ ∈ bounds ts := by simp [hbounds]
  have hsecond : ⟨31, 60⟩ ∈ bounds ts := by simp [hbounds]
  have hpairs := (findBlock?_pairs_end hsecond 49).2
  rw [hcondition] at hpairs
  exact ⟨hbounds, htry, hbody, (findBlock?_pairs_end hfirst 26).1 htry,
    hpairs hkeyword (by decide) hbody⟩

end SqlMigration.Statement
