import SqlMigration.Proofs.Expression.Call
import SqlMigration.Proofs.Expression.Tame

/-! # The texts of calls

The text of a call is put together from the texts of its arguments, which are trimmed and taken out
of their parentheses. It flows if the arguments can lose their ends. An amount or a date can also
lose its start, so that it may hold no line comment.
-/

namespace SqlMigration

open Token

/-! ## Texts without apostrophes -/

namespace Binary64

theorem mem_positional {n : Nat} {p : Int} {c : Char} (h : c ∈ positional n p) :
    c.isDigit ∨ c = '.' := by
  have hdigits : ∀ c ∈ Nat.toDigits 10 n, c.isDigit :=
    fun _ hc => Nat.isDigit_of_mem_toDigits (b := 10) (n := n) (by decide) (by decide) hc
  have hzeros (k : Nat) : ∀ c ∈ List.replicate k '0', c.isDigit := by
    intro c hc
    rw [List.eq_of_mem_replicate hc]
    rfl
  have hpadded (k : Nat) : ∀ c ∈ List.replicate k '0' ++ Nat.toDigits 10 n, c.isDigit := by
    intro c hc
    rcases List.mem_append.mp hc with hc | hc
    · exact hzeros k c hc
    · exact hdigits c hc
  unfold positional at h
  dsimp only at h
  have hwhole {k i j : Nat} {c : Char}
      (hc : c ∈ (List.replicate k '0' ++ Nat.toDigits 10 n).take i ++ List.replicate j '0') :
      c.isDigit := by
    rcases List.mem_append.mp hc with hc | hc
    · exact hpadded k c (List.mem_of_mem_take hc)
    · exact hzeros j c hc
  split at h
  · exact .inl (hwhole h)
  · rw [List.mem_append, List.mem_cons] at h
    rcases h with h | h | h
    · exact .inl (hwhole h)
    · exact .inr h
    · left
      exact hpadded _ c (List.mem_of_mem_drop ((Text.trimEndWhere_sublist _ _).subset h))

/-- A number is written with digits, a point and a sign, or in words. -/
theorem not_mem_toText {c : Char} (hdigit : c.isDigit = false) (hc : c ∉ ".NaN-inf".toList)
    (x : Binary64) : c ∉ x.toText := by
  have hmark {d : Char} (hd : d ∈ ".NaN-inf".toList) : c ≠ d := fun h => hc (h ▸ hd)
  have hpositional (n : Nat) (p : Int) : c ∉ positional n p := by
    intro h
    rcases mem_positional h with h | h
    · rw [hdigit] at h
      cases h
    · exact hmark (by decide) h
  unfold toText
  split
  · exact fun h => hc (List.mem_append_right ".".toList (List.mem_append_left "-inf".toList h))
  · split
    · exact fun h => hc (List.mem_append_right ".NaN".toList h)
    · exact fun h => hc (List.mem_append_right ".NaN-".toList h)
  · dsimp only
    split
    · rw [List.mem_cons, not_or]
      exact ⟨hmark (by decide), hpositional _ _⟩
    · exact hpositional _ _

end Binary64

namespace Expression

theorem toLower_ne {c d : Char} (hd : d.isLower = false) (h : c ≠ d) : c.toLower ≠ d := by
  intro hlower
  unfold Char.toLower at hlower
  split at hlower
  · rename_i hupper
    have hval : (c.val + 32).toNat = d.val.toNat :=
      congrArg (fun d : Char => d.val.toNat) hlower
    have hlow : 65 ≤ c.val.toNat := UInt32.le_iff_toNat_le.mp hupper.1
    have hhigh : c.val.toNat ≤ 90 := UInt32.le_iff_toNat_le.mp hupper.2
    rw [UInt32.toNat_add] at hval
    change (c.val.toNat + 32) % 4294967296 = d.val.toNat at hval
    have hletter : d.isLower := by
      have hlow : 97 ≤ d.val.toNat := by omega
      have hhigh : d.val.toNat ≤ 122 := by omega
      exact Bool.and_eq_true_iff.mpr ⟨decide_eq_true (UInt32.le_iff_toNat_le.mpr hlow),
        decide_eq_true (UInt32.le_iff_toNat_le.mpr hhigh)⟩
    rw [hd] at hletter
    cases hletter
  · exact h hlower

/-- The unit of a date part holds an apostrophe only if its name does. -/
theorem apostrophe_not_mem_unit {s : Text} (hs : '\'' ∉ s) : '\'' ∉ (DatePart.ofText s).unit := by
  have hname : '\'' ∉ (s.trim.trimWhere ['\'', '"'].contains).asciiLower := by
    intro h
    obtain ⟨c, hc, hlower⟩ := List.mem_map.mp h
    have hmem := (Text.trimWhere_sublist _ _).subset ((Text.trimWhere_sublist _ _).subset hc)
    have hne : c ≠ '\'' := fun h => hs (h ▸ hmem)
    exact toLower_ne (by decide) hne hlower
  unfold DatePart.ofText
  dsimp only
  split
  · decide
  split
  · rename_i names unit hfind
    have hunits : unitNames.all fun entry => !entry.2.toList.contains '\'' := by decide
    have hunit := List.all_eq_true.mp hunits _ (List.mem_of_find?_eq_some hfind)
    simpa using hunit
  · exact hname

/-! ## Casts -/

variable {P : Kind → Text → Prop} {m : Mode}

/-- The text of an argument, which can lose its end. -/
theorem sturdy_getD {args : List Text} (hargs : ∀ a ∈ args, Sturdy .argument P .apart a) (i : Nat) :
    Sturdy .argument P .apart (args[i]?.getD []) := by
  cases h : args[i]? with
  | none => exact .nil (by decide)
  | some a => exact hargs a (List.mem_of_getElem? h)

/-- A cast flows and can lose its end: at most its parenthesis and the end of its type are cut
off. -/
theorem flow_castText {args : List Text} (hargs : ∀ a ∈ args, Sturdy .argument P .apart a)
    (hm : m ≠ .line) :
    Flow P m (castText args) .solid ∧ ∀ e, Sturdy e P m (castText args) := by
  obtain ⟨m₀, hm₀, hvalue⟩ := (sturdy_getD hargs 1).stripParens.flow
  obtain ⟨m₁, hm₁, hvalue⟩ := hvalue.restart (by decide) hm₀ (.inr rfl)
  have htype := (sturdy_getD hargs 0).trim
  obtain ⟨m₂, hm₂, htypeFlow⟩ := htype.flow
  have hopen : Flow P m "CAST(".toList .solid := .of_leadsTo (by decide) hm
  have hfront := hopen.append hvalue
  have hmiddle := hfront.append (.of_leadsTo (by decide : leadsTo .apart " AS ".toList) hm₁)
  have hbefore := hmiddle.append htypeFlow
  have hclose : leadsTo .solid [')'] := by decide
  refine ⟨hbefore.append (.of_leadsTo hclose hm₂), fun e => ?_⟩
  have hback : Sturdy e P m₂ [')'] := .of_leadsTo hclose hm₂
  cases e with
  | query =>
      have hkept : ∃ c ∈ [')'], Ending.query.cuts c = false := ⟨')', by simp, by decide⟩
      exact hback.append_of_kept hbefore hkept
  | argument =>
      have has : Sturdy .argument P m₁ " AS ".toList :=
        .of_leadsTo (by decide : leadsTo .apart " AS ".toList) hm₁
      have hkept : ∃ c ∈ " AS ".toList, Ending.argument.cuts c = false :=
        ⟨'A', by decide, by decide⟩
      exact ((has.append_of_kept hfront hkept).append hmiddle htype).append hbefore hback

/-! ## Date arithmetic -/

section
variable (hP : LineFree P)
include hP

theorem flow_of_sturdy {s : Text} (hs : Sturdy .argument P .apart s) (hm : m.isFirm) :
    ∃ m', m' ≠ .line ∧ Flow P m s m' := by
  obtain ⟨_, _, h⟩ := hs.flow
  obtain ⟨m', h'⟩ := h.rebase hP (by decide) hm
  exact ⟨m', h'.ne_line hP (Mode.ne_line_of_isFirm hm), h'⟩

theorem sturdy_splitMinus {s : Text} (hs : Sturdy .argument P .apart s) :
    Sturdy .argument P .apart (splitMinus s).2 := by
  unfold splitMinus
  split
  · rename_i s
    obtain ⟨m', -, hflow⟩ := hs.flow
    have hrest : ∃ m', Flow P .apart s m' := by
      cases hflow with
      | dash _ _ h => exact h.rebase hP (by decide) rfl
      | comment _ hcomment _ _ => exact absurd hcomment (hP _)
      | blank _ hc _ | bare _ hc _ => exact absurd hc (by decide)
      | quoted _ hq _ _ => cases hq
    obtain ⟨m₁, hrest⟩ := hrest
    exact (Sturdy.of_flow hP (by decide) hrest).trim
  · exact hs

theorem flow_dateText {s : Text} (hs : Sturdy .argument P .apart s) (hm : m.isFirm) :
    ∃ m', m' ≠ .line ∧ Flow P m (dateText s) m' := by
  have hline := Mode.ne_line_of_isFirm hm
  unfold dateText
  dsimp only
  split
  · exact ⟨.solid, by decide, .of_leadsTo (by decide) hline⟩
  split
  · have hopen : Flow P m "TIMEZONE(".toList .solid := .of_leadsTo (by decide) hline
    have hzone : Flow P .solid ('\'' :: "UTC".toList ++ ['\'']) .solid :=
      .quote rfl (by decide) (by decide)
    have hclose : Flow P .solid ", NOW())".toList .solid := .of_leadsTo (by decide) (by decide)
    exact ⟨.solid, by decide, (hopen.append hzone).append hclose⟩
  · exact flow_of_sturdy hP hs.trim hm

theorem flow_intervalText {part : DatePart} {amount : Text} (hunit : '\'' ∉ part.unit)
    (hamount : Sturdy .argument P .apart amount) :
    Flow P .apart (intervalText part amount) .solid := by
  obtain ⟨m₁, hm₁, hflow⟩ := flow_of_sturdy hP hamount (m := .solid) rfl
  unfold intervalText
  split
  · rename_i x _
    have hopen : Flow P .apart "INTERVAL ".toList .apart := .of_leadsTo (by decide) (by decide)
    have hinside : '\'' ∉ (x.scaleBy part.factor).toText ++ ' ' :: part.unit := by
      have hnumber := Binary64.not_mem_toText (c := '\'') (by decide) (by decide)
      simp [hnumber, hunit]
    have hquoted : Flow P .apart _ .solid := .quote rfl hinside (by decide)
    have hflow := hopen.append hquoted
    simpa using hflow
  · have hproduct : ∃ m', m' ≠ .line ∧ Flow P .solid
        (if part.factor = 1 then '(' :: amount ++ [')']
          else "((".toList ++ amount ++ ") * ".toList ++ Nat.toDigits 10 part.factor ++ [')'])
        m' := by
      split
      · have hopen : Flow P .solid ['('] .solid := .of_leadsTo (by decide) (by decide)
        have hclose : Flow P m₁ [')'] .solid := .of_leadsTo (by decide) hm₁
        exact ⟨.solid, by decide, (hopen.append hflow).append hclose⟩
      · have hopen : Flow P .solid "((".toList .solid := .of_leadsTo (by decide) (by decide)
        have htimes : Flow P m₁ ") * ".toList .apart := .of_leadsTo (by decide) hm₁
        have hfactor : Flow P .apart (Nat.toDigits 10 part.factor) _ :=
          .bares (by decide) fun c hc => Text.isBare_of_isDigit
            (Nat.isDigit_of_mem_toDigits (b := 10) (by decide) (by decide) hc)
        have hclose : Flow P _ [')'] .solid := .of_leadsTo (by decide)
          (Mode.foldl_next_ne_line (m := .apart) (s := Nat.toDigits 10 part.factor) (by decide))
        exact ⟨.solid, by decide,
          (((hopen.append hflow).append htimes).append hfactor).append hclose⟩
    obtain ⟨m₂, hm₂, hproduct⟩ := hproduct
    have hopen : Flow P .apart ['('] .solid := .of_leadsTo (by decide) (by decide)
    have htext : Flow P m₂ "::text || ".toList .apart := .of_leadsTo (by decide) hm₂
    have hquoted : Flow P .apart ('\'' :: (' ' :: part.unit) ++ ['\'']) .solid :=
      .quote rfl (by simp [hunit]) (by decide)
    have hclose : Flow P .solid ")::interval".toList .solid := .of_leadsTo (by decide) (by decide)
    have hflow := (((hopen.append hproduct).append htext).append hquoted).append hclose
    simpa using hflow

theorem flow_dateAddText {args : List Text} (hargs : ∀ a ∈ args, Sturdy .argument P .apart a)
    (hunit : '\'' ∉ args[0]?.getD []) (hm : m.isFirm) : Flow P m (dateAddText args) .solid := by
  obtain ⟨m₁, hm₁, hdate⟩ := flow_dateText hP (sturdy_getD hargs 2) hm
  have hamount := sturdy_splitMinus hP (sturdy_getD hargs 1).stripParens
  have hinterval := flow_intervalText hP (apostrophe_not_mem_unit hunit) hamount
  have hsign (negative : Bool) : leadsTo .apart (if negative then " - " else " + ").toList := by
    cases negative <;> decide
  exact (hdate.append (.of_leadsTo (hsign _) hm₁)).append hinterval

end

/-! ## The unit of an interval -/

theorem emitHead_of_namesUnit {t : Token} (h : namesUnit t) (ts : List Token) :
    emitHead t ts = (tokenText t, 0) := by
  simp only [namesUnit, Bool.and_eq_true, Bool.not_eq_true'] at h
  obtain ⟨⟨⟨⟨-, hconvert⟩, hdate⟩, hdbo⟩, -⟩ := h
  have hstart : startsWithDbo (t :: ts) = false := by
    cases ts <;> simp [startsWithDbo, hdbo]
  simp [emitHead, hconvert, hdate, hstart]

theorem getElem?_prepend (s : Text) (args : List Text) :
    (prepend s args)[0]?.getD [] = s ++ args[0]?.getD [] := by
  cases args <;> simp [prepend]

/-- The name of a unit holds no apostrophe. -/
theorem apostrophe_not_mem_arguments {ts : List Token}
    (hunit : (ts.takeWhile fun t => t.kind ≠ .comma && t.kind ≠ .rightParen).all namesUnit) :
    '\'' ∉ (arguments 0 ts).1[0]?.getD [] := by
  induction ts with
  | nil => simp [arguments]
  | cons t ts ih =>
      by_cases hright : t.kind = .rightParen
      · simp [arguments, hright]
      by_cases hcomma : t.kind = .comma
      · simp [arguments, hcomma]
      rw [List.takeWhile_cons_of_pos (by simp [hright, hcomma]), List.all_cons,
        Bool.and_eq_true] at hunit
      have hnames := hunit.1
      simp only [namesUnit, Bool.and_eq_true, decide_eq_true_eq, Bool.not_eq_true'] at hnames
      have harguments : arguments 0 (t :: ts) =
          (prepend (tokenText t) (arguments 0 ts).1, 0 + 1 + (arguments 0 ts).2) := by
        rw [arguments, emitHead_of_namesUnit hunit.1]
        simp [hright, hcomma, hnames]
      rw [harguments, getElem?_prepend, List.mem_append]
      rintro (h | h)
      · simp [h] at hnames
      · exact ih hunit.2 h

theorem apostrophe_not_mem_unitArgument {ts : List Token} {args : List Text} {n : Nat}
    (hunit : tameUnit ts) (h : callArguments? ts = some (args, n)) : '\'' ∉ args[0]?.getD [] := by
  rw [callArguments?_eq] at h
  unfold tameUnit at hunit
  cases hskip : skipTrivia ts with
  | nil => simp [hskip] at h
  | cons u inner =>
      simp only [hskip] at h hunit
      by_cases hleft : u.kind = .leftParen
      · rw [if_pos hleft] at h
        cases h
        exact apostrophe_not_mem_arguments (by simpa [hleft] using hunit)
      · rw [if_neg hleft] at h
        cases h

end Expression

end SqlMigration
