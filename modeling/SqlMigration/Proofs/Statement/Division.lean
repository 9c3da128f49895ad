import SqlMigration.Proofs.Token.Nesting

/-! # Statements divide the significant tokens

Each scan for the end of a statement stops right after a significant token, also where the script is
cut short. So a list of tokens is divided into statements, which start and end with a significant
token, and into the blank space and the comments between them.
-/

namespace SqlMigration

/-- The first `n` tokens of the list end with a significant one. -/
def EndsAt (ts : List Token) (n : Nat) : Prop :=
  ∃ front u rest, ts = front ++ u :: rest ∧ u.isTrivia = false ∧ n = front.length + 1

namespace EndsAt

variable {t : Token} {ts us : List Token} {n : Nat}

theorem head (ht : t.isTrivia = false) (ts : List Token) : EndsAt (t :: ts) 1 :=
  ⟨[], t, ts, rfl, ht, rfl⟩

theorem append_left (us : List Token) (h : EndsAt ts n) : EndsAt (us ++ ts) (us.length + n) := by
  obtain ⟨front, u, rest, rfl, hu, rfl⟩ := h
  refine ⟨us ++ front, u, rest, ?_, hu, ?_⟩
  · rw [List.append_assoc]
  · rw [List.length_append, Nat.add_assoc]

theorem append_right (us : List Token) (h : EndsAt ts n) : EndsAt (ts ++ us) n := by
  obtain ⟨front, u, rest, rfl, hu, rfl⟩ := h
  refine ⟨front, u, rest ++ us, ?_, hu, rfl⟩
  rw [List.append_assoc, List.cons_append]

theorem cons (t : Token) (h : EndsAt ts n) : EndsAt (t :: ts) (n + 1) := by
  rw [Nat.add_comm]
  exact h.append_left [t]

theorem of_isPrefix (hpart : us <+: ts) (h : EndsAt us n) : EndsAt ts n := by
  obtain ⟨rest, rfl⟩ := hpart
  exact h.append_right rest

/-- What is found behind the first `k` tokens. -/
theorem of_drop {k : Nat} (h : EndsAt (ts.drop k) n) : EndsAt ts (k + n) := by
  have hk : k < ts.length := by
    obtain ⟨front, u, rest, hdrop, -, -⟩ := h
    apply Nat.lt_of_not_le
    intro hle
    rw [List.drop_of_length_le hle] at hdrop
    simp at hdrop
  have happend := h.append_left (ts.take k)
  rwa [List.take_append_drop, List.length_take_of_le (Nat.le_of_lt hk)] at happend

theorem pos (h : EndsAt ts n) : 0 < n := by
  obtain ⟨front, u, rest, -, -, rfl⟩ := h
  exact Nat.succ_pos _

theorem max_one (h : EndsAt ts n) : EndsAt ts (max 1 n) := by
  rwa [Nat.max_eq_right h.pos]

/-- The tokens that end so. -/
theorem take_eq (h : EndsAt ts n) :
    ∃ front u, ts.take n = front ++ [u] ∧ u.isTrivia = false ∧ (ts.take n).length = n := by
  obtain ⟨front, u, rest, rfl, hu, rfl⟩ := h
  have htake : (front ++ u :: rest).take (front.length + 1) = front ++ [u] := by
    rw [List.take_length_add_append]
    rfl
  refine ⟨front, u, htake, hu, ?_⟩
  rw [htake, List.length_append, List.length_singleton]

theorem of_firstSignificant? {p : Token → Bool} (h : (firstSignificant? ts).any p) :
    EndsAt ts (triviaLength ts + 1) := by
  cases hskip : skipTrivia ts with
  | nil => simp [firstSignificant?, hskip] at h
  | cons u rest =>
      obtain ⟨gap, rfl, -, hlen, hu⟩ := eq_append_of_skipTrivia hskip
      rw [hlen]
      exact (head hu rest).append_left gap

theorem of_significantLength (h : 0 < significantLength ts) :
    EndsAt ts (significantLength ts) := by
  rw [significantLength] at h ⊢
  cases hdrop : ts.reverse.dropWhile Token.isTrivia with
  | nil => simp [hdrop] at h
  | cons u front =>
      have hu : u.isTrivia = false := by
        have hhead := List.head?_dropWhile_not Token.isTrivia ts.reverse
        rw [hdrop] at hhead
        simpa using hhead
      have hsplit : ts = front.reverse ++ u :: (ts.reverse.takeWhile Token.isTrivia).reverse := by
        have hwhole := List.takeWhile_append_dropWhile (p := Token.isTrivia) (l := ts.reverse)
        rw [hdrop] at hwhole
        have hreverse := congrArg List.reverse hwhole
        rw [List.reverse_append, List.reverse_cons, List.append_assoc, List.singleton_append,
          List.reverse_reverse] at hreverse
        exact hreverse.symm
      refine ⟨front.reverse, u, _, hsplit, hu, ?_⟩
      rw [List.length_cons, List.length_reverse]

theorem of_throughEndFrom? {depth : Nat} (h : throughEndFrom? depth ts = some n) :
    EndsAt ts n := by
  fun_induction throughEndFrom? depth ts generalizing n with
  | case1 => cases h
  | case2 depth t ts hkeyword ih | case3 depth t ts hkeyword ih
  | case5 depth t ts hkeyword _ ih | case6 depth t ts _ _ _ ih =>
      obtain ⟨m, hm, rfl⟩ := Option.map_eq_some_iff.mp h
      exact (ih hm).cons t
  | case4 depth t ts hkeyword =>
      cases h
      exact head (isTrivia_of_keyword? hkeyword) ts

end EndsAt

namespace Statement

/-! ## Ends of statements -/

variable {t : Token} {ts : List Token} {n : Nat}

theorem endsAt_significantLength (ht : t.isTrivia = false) (ts : List Token) :
    EndsAt (t :: ts) (max 1 (significantLength (t :: ts))) :=
  (EndsAt.of_significantLength (significantLength_pos ht)).max_one

theorem endsAt_moduleExtent (ht : t.isTrivia = false) (ts : List Token) :
    EndsAt (t :: ts) (moduleExtent ts) := by
  rw [moduleExtent, Nat.add_comm]
  rcases Nat.eq_zero_or_pos (significantLength (ts.takeWhile fun u => !u.is .GO)) with hzero | hpos
  · rw [hzero]
    exact .head ht ts
  · have hend := EndsAt.of_significantLength hpos
    exact (hend.of_isPrefix (List.takeWhile_prefix _)).cons t

theorem endsAt_withSemicolon (h : EndsAt ts n) : EndsAt ts (withSemicolon ts n) := by
  rw [withSemicolon]
  split
  · rename_i hsemicolon
    rw [Nat.add_assoc]
    exact (EndsAt.of_firstSignificant? hsemicolon).of_drop
  · exact h

theorem endsAt_blockExtent (ht : t.isTrivia = false) (ts : List Token) :
    EndsAt (t :: ts) (blockExtent (t :: ts)) := by
  rw [blockExtent]
  split
  · rename_i n hend
    dsimp only
    split
    · rename_i hword
      apply endsAt_withSemicolon
      rw [Nat.add_assoc]
      exact (EndsAt.of_firstSignificant? hword).of_drop
    · exact endsAt_withSemicolon (EndsAt.of_throughEndFrom? hend)
  · exact endsAt_significantLength ht ts

/-- A plain statement ends where its last significant token was seen. -/
theorem endsAt_plainFrom (first : Option Keyword) (st : Scan) {i stop : Nat}
    {before : List Token} (ts : List Token) (hi : before.length = i) (hstop : EndsAt before stop) :
    EndsAt (before ++ ts) (plainFrom first st i stop ts) := by
  fun_induction plainFrom first st i stop ts generalizing before with
  | case1 st i stop => exact hstop.append_right []
  | case2 st i stop t ts htrivia ih =>
      rw [List.append_cons]
      apply ih
      · rw [List.length_append, hi, List.length_singleton]
      · exact hstop.append_right [t]
  | case3 st i stop t ts htrivia hpass => exact hstop.append_right (t :: ts)
  | case4 st i stop t ts htrivia hpass =>
      rw [← hi]
      exact (EndsAt.head (Bool.eq_false_iff.mpr htrivia) ts).append_left before
  | case5 st i stop t ts htrivia st' hpass ih =>
      rw [List.append_cons]
      apply ih
      · rw [List.length_append, hi, List.length_singleton]
      · rw [← hi]
        exact (EndsAt.head (Bool.eq_false_iff.mpr htrivia) []).append_left before

theorem endsAt_plainExtent (ht : t.isTrivia = false) (ts : List Token) :
    EndsAt (t :: ts) (plainExtent t ts) := by
  have hplain (st : Scan) : EndsAt (t :: ts) (plainFrom t.keyword? st 1 1 ts) :=
    endsAt_plainFrom t.keyword? st ts (by rfl) (EndsAt.head ht [])
  rw [plainExtent]
  split
  · exact .head ht ts
  · exact hplain _
  · exact hplain _

theorem exists_head_skipTrivia {ts : List Token} (h : skipTrivia ts ≠ []) :
    ∃ u ∈ (skipTrivia ts).head?, u.isTrivia = false := by
  obtain ⟨u, rest, hskip⟩ := List.exists_cons_of_ne_nil h
  obtain ⟨-, -, -, -, hu⟩ := eq_append_of_skipTrivia hskip
  exact ⟨u, by rw [hskip]; rfl, hu⟩

theorem drop_succ_triviaLength (ts : List Token) (n : Nat) :
    ts.drop (n + triviaLength (ts.drop n) + 1) = (skipTrivia (ts.drop n)).tail := by
  rw [Nat.add_assoc, ← List.drop_drop, ← List.drop_drop, drop_triviaLength, List.drop_one]

/-- A statement ends with a significant token if it starts with one. -/
theorem endsAt_extent {ts : List Token} (h : ∃ t ∈ ts.head?, t.isTrivia = false) :
    EndsAt ts (extent ts) := by
  fun_induction extent ts with
  | case1 => simp at h
  | case2 t ts hopening => exact .head (by simpa using h) ts
  | case3 t ts hopening => exact endsAt_moduleExtent (by simpa using h) ts
  | case4 t ts hopening => exact endsAt_blockExtent (by simpa using h) ts
  | case5 t ts hopening hbody => exact endsAt_significantLength (by simpa using h) ts
  | case6 t ts hopening k hbody n rest helse m after otherwise hempty ih =>
      rw [Nat.add_comm]
      apply EndsAt.cons
      rw [show m = n + (triviaLength rest + 1) from Nat.add_assoc _ _ _]
      exact (EndsAt.of_firstSignificant? helse).of_drop
  | case7 t ts hopening k hbody n rest helse m after otherwise hne ihbody ihelse =>
      have hfirst : ∃ v ∈ otherwise.head?, v.isTrivia = false :=
        exists_head_skipTrivia (by simpa using hne)
      have hafter : ts.drop m = after := drop_succ_triviaLength ts n
      rw [Nat.add_assoc, Nat.add_assoc, Nat.add_comm 1]
      apply EndsAt.cons
      apply EndsAt.of_drop
      rw [hafter]
      apply EndsAt.of_drop
      rw [drop_triviaLength]
      exact (ihelse hfirst).max_one
  | case8 t ts hopening k hbody n rest helse ih =>
      obtain ⟨v, vs, hdrop, hv⟩ := drop_of_topLevelFrom? hbody
      have hfirst : ∃ v ∈ (ts.drop k).head?, v.isTrivia = false := by
        rw [hdrop]
        exact ⟨v, rfl, isTrivia_of_startsStatement hv⟩
      rw [Nat.add_comm]
      apply EndsAt.cons
      apply EndsAt.of_drop
      exact (ih hfirst).max_one
  | case9 t ts hopening => exact endsAt_plainExtent (by simpa using h) ts

/-! ## Division -/

/-- Tokens that start and end with a significant one. -/
structure Framed (ts : List Token) : Prop where
  head : ∃ t ∈ ts.head?, t.isTrivia = false
  last : ∃ t ∈ ts.getLast?, t.isTrivia = false

theorem Framed.length_pos (h : Framed ts) : 0 < ts.length := by
  obtain ⟨t, ht, -⟩ := h.head
  exact List.length_pos_of_mem (List.mem_of_mem_head? ht)

theorem framed_of_endsAt (ht : t.isTrivia = false) (h : EndsAt (t :: ts) n) :
    Framed ((t :: ts).take n) := by
  obtain ⟨front, u, htake, hu, -⟩ := h.take_eq
  constructor
  · obtain ⟨m, rfl⟩ := Nat.exists_eq_succ_of_ne_zero h.pos.ne'
    exact ⟨t, rfl, ht⟩
  · rw [htake]
    exact ⟨u, List.getLast?_concat, hu⟩

/-- A list that starts at position `i` is divided into the statements with the given bounds and the
trivia between them. -/
inductive Divides : Nat → List Token → List Bounds → Prop where
  | nil {i : Nat} : Divides i [] []
  | trivia {i : Nat} {t : Token} {ts : List Token} {bs : List Bounds} (ht : t.isTrivia)
      (rest : Divides (i + 1) ts bs) : Divides i (t :: ts) bs
  | statement {i : Nat} {piece ts : List Token} {bs : List Bounds} (hpiece : Framed piece)
      (rest : Divides (i + piece.length) ts bs) :
      Divides i (piece ++ ts) (⟨i, i + piece.length⟩ :: bs)

/-- The bounds that are found divide the list. -/
theorem divides_boundsFrom (i : Nat) (ts : List Token) : Divides i ts (boundsFrom i ts) := by
  fun_induction boundsFrom i ts with
  | case1 => exact .nil
  | case2 i t ts htrivia ih => exact .trivia htrivia ih
  | case3 i t ts htrivia n ih =>
      have ht : t.isTrivia = false := Bool.eq_false_iff.mpr htrivia
      have hend : EndsAt (t :: ts) (n + 1) := by
        have hextent : EndsAt (t :: ts) (extent (t :: ts)) := endsAt_extent ⟨t, rfl, ht⟩
        rwa [← Nat.sub_add_cancel hextent.pos] at hextent
      have hpiece := framed_of_endsAt ht hend
      obtain ⟨-, -, -, -, hlen⟩ := hend.take_eq
      rw [Nat.add_assoc, ← hlen] at ih
      have hdivides := Divides.statement hpiece ih
      rwa [← List.drop_succ_cons, List.take_append_drop, hlen] at hdivides

namespace Divides

variable {i : Nat} {bs : List Bounds}

theorem within (h : Divides i ts bs) :
    ∀ b ∈ bs, i ≤ b.start ∧ b.start < b.stop ∧ b.stop ≤ i + ts.length := by
  induction h with
  | nil => simp
  | trivia ht rest ih =>
      intro b hb
      have hb := ih b hb
      rw [List.length_cons]
      omega
  | @statement i piece ts bs hpiece rest ih =>
      intro b hb
      have hpos := hpiece.length_pos
      rw [List.length_append]
      rcases List.mem_cons.mp hb with rfl | hb
      · dsimp only
        omega
      · have hb := ih b hb
        omega

theorem ordered (h : Divides i ts bs) : bs.Pairwise fun b c => b.stop ≤ c.start := by
  induction h with
  | nil => exact .nil
  | trivia ht rest ih => exact ih
  | statement hpiece rest ih => exact .cons (fun c hc => (rest.within c hc).1) ih

theorem length_le (h : Divides i ts bs) : bs.length ≤ ts.length := by
  induction h with
  | nil => exact Nat.le_refl 0
  | trivia ht rest ih => exact Nat.le_succ_of_le ih
  | statement hpiece rest ih =>
      have hpos := hpiece.length_pos
      rw [List.length_cons, List.length_append]
      omega

/-- The tokens of each statement start and end with a significant one. -/
theorem framed (h : Divides i ts bs) :
    ∀ b ∈ bs, Framed ((ts.take (b.stop - i)).drop (b.start - i)) := by
  induction h with
  | nil => simp
  | @trivia i t ts bs ht rest ih =>
      intro b hb
      obtain ⟨hstart, hlt, -⟩ := rest.within b hb
      have hsucc (m : Nat) (hm : i + 1 ≤ m) : m - i = m - (i + 1) + 1 := by omega
      rw [hsucc b.start hstart, hsucc b.stop (by omega), List.take_succ_cons, List.drop_succ_cons]
      exact ih b hb
  | @statement i piece ts bs hpiece rest ih =>
      intro b hb
      rcases List.mem_cons.mp hb with rfl | hb
      · simpa using hpiece
      · obtain ⟨hstart, hlt, -⟩ := rest.within b hb
        have hadd (m : Nat) (hm : i + piece.length ≤ m) :
            m - i = piece.length + (m - (i + piece.length)) := by omega
        rw [hadd b.start hstart, hadd b.stop (by omega), List.take_length_add_append,
          List.drop_length_add_append]
        exact ih b hb

theorem starts (h : Divides 0 ts bs) {b : Bounds} (hb : b ∈ bs) :
    ∃ t, ts[b.start]? = some t ∧ t.isTrivia = false := by
  obtain ⟨t, ht, hsignificant⟩ := (h.framed b hb).head
  rw [Option.mem_def, List.head?_drop, List.getElem?_take_of_lt] at ht
  · exact ⟨t, ht, hsignificant⟩
  · exact (h.within b hb).2.1

theorem ends (h : Divides 0 ts bs) {b : Bounds} (hb : b ∈ bs) :
    ∃ t, ts[b.stop - 1]? = some t ∧ t.isTrivia = false := by
  obtain ⟨t, ht, hsignificant⟩ := (h.framed b hb).last
  obtain ⟨-, hlt, hle⟩ := h.within b hb
  have hlen : (ts.take b.stop).length = b.stop := List.length_take_of_le (by omega)
  have hlast : ts[b.stop - 1]? = some t := by
    rw [Option.mem_def, List.getLast?_drop, Nat.sub_zero, Nat.sub_zero, hlen,
      if_neg (Nat.not_le_of_lt hlt), List.getLast?_eq_getElem?, hlen,
      List.getElem?_take_of_lt (by omega)] at ht
    exact ht
  exact ⟨t, hlast, hsignificant⟩

/-- A significant token belongs to a statement. -/
theorem exists_mem (h : Divides i ts bs) {k : Nat} (hk : ts[k]? = some t)
    (ht : t.isTrivia = false) : ∃ b ∈ bs, b.start ≤ i + k ∧ i + k < b.stop := by
  induction h generalizing k with
  | nil => simp at hk
  | @trivia i u ts bs hu rest ih =>
      cases k with
      | zero =>
          cases hk
          simp [hu] at ht
      | succ k =>
          have hmem := ih hk
          rwa [Nat.add_assoc, Nat.add_comm 1] at hmem
  | @statement i piece ts bs hpiece rest ih =>
      by_cases hlt : k < piece.length
      · exact ⟨_, List.mem_cons_self, Nat.le_add_right i k, Nat.add_lt_add_left hlt i⟩
      · have hle := Nat.le_of_not_lt hlt
        rw [List.getElem?_append_right hle] at hk
        obtain ⟨b, hb, hstart, hstop⟩ := ih hk
        exact ⟨b, List.mem_cons_of_mem _ hb, by omega, by omega⟩

/-- No token belongs to two statements. -/
theorem eq_of_mem (h : Divides i ts bs) {b c : Bounds} {k : Nat} (hb : b ∈ bs) (hc : c ∈ bs)
    (hmem : b.start ≤ k ∧ k < b.stop) (hmem' : c.start ≤ k ∧ k < c.stop) : b = c := by
  induction h with
  | nil => cases hb
  | trivia ht rest ih => exact ih hb hc
  | statement hpiece rest ih =>
      rcases List.mem_cons.mp hb with rfl | hb
      · rcases List.mem_cons.mp hc with rfl | hc
        · rfl
        · have hlater := (rest.within c hc).1
          exact absurd hmem.2 (Nat.not_lt.mpr (hlater.trans hmem'.1))
      · rcases List.mem_cons.mp hc with rfl | hc
        · have hlater := (rest.within b hb).1
          exact absurd hmem'.2 (Nat.not_lt.mpr (hlater.trans hmem.1))
        · exact ih hb hc

end Divides

/-- What it means that bounds share out the significant tokens of a list among statements. -/
structure Partition (ts : List Token) (bs : List Bounds) : Prop where
  length_le : bs.length ≤ ts.length
  within : ∀ b ∈ bs, b.start < b.stop ∧ b.stop ≤ ts.length
  ordered : bs.Pairwise fun b c => b.start < c.start ∧ b.stop ≤ c.start
  starts : ∀ b ∈ bs, ∃ t, ts[b.start]? = some t ∧ t.isTrivia = false
  ends : ∀ b ∈ bs, ∃ t, ts[b.stop - 1]? = some t ∧ t.isTrivia = false
  outside : ∀ k t, ts[k]? = some t → (∀ b ∈ bs, ¬(b.start ≤ k ∧ k < b.stop)) → t.isTrivia
  inside : ∀ k t, ts[k]? = some t → t.isTrivia = false →
    ∃! b, b ∈ bs ∧ b.start ≤ k ∧ k < b.stop

/-- The bounds of the statements share out the significant tokens, whatever the list: there is at
most one statement for each token, and every significant token belongs to exactly one. -/
theorem bounds_partition (ts : List Token) : Partition ts (bounds ts) := by
  have hdivides : Divides 0 ts (bounds ts) := divides_boundsFrom 0 ts
  have hwithin : ∀ b ∈ bounds ts, b.start < b.stop ∧ b.stop ≤ ts.length := by
    intro b hb
    have hb := hdivides.within b hb
    omega
  have hinside : ∀ k t, ts[k]? = some t → t.isTrivia = false →
      ∃ b ∈ bounds ts, b.start ≤ k ∧ k < b.stop := by
    intro k t hk ht
    have hmem := hdivides.exists_mem hk ht
    rwa [Nat.zero_add] at hmem
  exact {
    length_le := hdivides.length_le
    within := hwithin
    ordered := by
      refine hdivides.ordered.imp_of_mem ?_
      intro b c hb _ hle
      exact ⟨Nat.lt_of_lt_of_le (hwithin b hb).1 hle, hle⟩
    starts := fun b => hdivides.starts
    ends := fun b => hdivides.ends
    outside := by
      intro k t hk houtside
      by_contra htrivia
      obtain ⟨b, hb, hmem⟩ := hinside k t hk (Bool.eq_false_iff.mpr htrivia)
      exact houtside b hb hmem
    inside := by
      intro k t hk ht
      obtain ⟨b, hb, hmem⟩ := hinside k t hk ht
      refine ⟨b, ⟨hb, hmem⟩, ?_⟩
      rintro c ⟨hc, hmem'⟩
      exact hdivides.eq_of_mem hc hb hmem' hmem }

end Statement

end SqlMigration
