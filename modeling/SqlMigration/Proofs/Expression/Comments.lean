import SqlMigration.Proofs.Expression.Arguments
import SqlMigration.Proofs.Expression.CallText
import SqlMigration.Proofs.Expression.Ending

/-! # Comments in emitted expressions

Where the tokens are tame and the arguments of calls can be taken out of their places, the emitted
text flows, so that it holds no other comments than those of the tokens.
-/

namespace SqlMigration.Expression

open Token

/-- Whether an argument of the call that `t` starts can be taken out of its place. What `DATEADD`
moves to another place holds no line comment. -/
def argumentHolds (t : Token) (arg : List Token) : Bool :=
  if t.is .CONVERT then holdsEnd .argument arg else arg.all fun u => u.kind ≠ .lineComment

/-- Whether the arguments of all calls can be taken out of their places. -/
def callsHold : List Token → Bool
  | [] => true
  | t :: ts =>
      (headTokens t ts).attach.all (fun arg => callsHold arg.1 && argumentHolds t arg.1) &&
        callsHold (ts.drop (headLength t ts))
  termination_by ts => ts.length
  decreasing_by
    · have := (isInfix_of_mem_headTokens arg.2).2
      simp only [List.length_cons]
      omega
    · simp only [List.length_drop, List.length_cons]
      omega

/-- Whether an expression can be emitted without a new comment. -/
def isSafe (ts : List Token) : Bool := tame ts && callsHold ts

/-! ## Parts of tame expressions -/

theorem tame_of_suffix {ts us : List Token} (h : us <:+ ts) (hts : tame ts) : tame us := by
  induction ts with
  | nil =>
      rw [List.suffix_nil.mp h]
      rfl
  | cons t ts ih =>
      rcases List.suffix_cons_iff.mp h with rfl | h
      · exact hts
      · simp only [tame, Bool.and_eq_true] at hts
        exact ih h hts.2

theorem tameUnit_of_isPrefix {ts us : List Token} (h : us <+: ts) (hts : tameUnit ts) :
    tameUnit us := by
  obtain ⟨rest, rfl⟩ := h
  unfold tameUnit at hts ⊢
  cases hskip : skipTrivia us with
  | nil => rfl
  | cons u inner =>
      rw [skipTrivia_append rest (by simp [hskip]), hskip] at hts
      simp only [List.cons_append, Bool.or_eq_true, List.all_eq_true] at hts ⊢
      refine hts.imp_right fun hall t ht => hall t ?_
      rw [List.takeWhile_append]
      split
      · exact List.mem_append_left _ ((List.takeWhile_prefix _).subset ht)
      · exact ht

theorem tame_of_isPrefix {ts us : List Token} (h : us <+: ts) (hts : tame ts) : tame us := by
  induction us generalizing ts with
  | nil => rfl
  | cons t us ih =>
      obtain ⟨rest, rfl⟩ := h
      have hstart : us <+: us ++ rest := List.prefix_append us rest
      simp only [List.cons_append, tame, Bool.and_eq_true, Bool.or_eq_true] at hts ⊢
      obtain ⟨⟨⟨htoken, hpair⟩, hunit⟩, hrest⟩ := hts
      refine ⟨⟨⟨htoken, ?_⟩, hunit.imp_right (tameUnit_of_isPrefix hstart)⟩, ih hstart hrest⟩
      cases us with
      | nil => rfl
      | cons u us => exact hpair

theorem callsHold_cons (t : Token) (ts : List Token) : callsHold (t :: ts) ↔
    (∀ arg ∈ headTokens t ts, callsHold arg ∧ argumentHolds t arg) ∧
      callsHold (ts.drop (headLength t ts)) := by
  rw [callsHold]
  simp

/-- The arguments of the first call are safe, and so is what follows it. -/
theorem isSafe_parts {t : Token} {ts : List Token} (h : isSafe (t :: ts)) :
    (∀ arg ∈ headTokens t ts, isSafe arg ∧ argumentHolds t arg) ∧
      isSafe (ts.drop (headLength t ts)) := by
  obtain ⟨htame, hcalls⟩ := Bool.and_eq_true_iff.mp h
  obtain ⟨hargs, hrest⟩ := (callsHold_cons t ts).mp hcalls
  have htail : tame ts := tame_of_suffix (List.suffix_cons t ts) htame
  constructor
  · intro arg harg
    obtain ⟨us, hstart, hsuffix⟩ :=
      List.infix_iff_prefix_suffix.mp (isInfix_of_mem_headTokens harg).1
    have htame := tame_of_isPrefix hstart (tame_of_suffix hsuffix htail)
    exact ⟨Bool.and_eq_true_iff.mpr ⟨htame, (hargs arg harg).1⟩, (hargs arg harg).2⟩
  · exact Bool.and_eq_true_iff.mpr ⟨tame_of_suffix (List.drop_suffix _ ts) htail, hrest⟩

theorem callsHold_of_lineFree {ts : List Token} (h : ∀ t ∈ ts, t.kind ≠ .lineComment) :
    callsHold ts := by
  induction hn : ts.length using Nat.strongRecOn generalizing ts with
  | ind n ih =>
      cases ts with
      | nil => rw [callsHold]
      | cons t ts =>
          rw [List.length_cons] at hn
          have hts := (List.forall_mem_cons.mp h).2
          refine (callsHold_cons t ts).mpr ⟨fun arg harg => ?_, ?_⟩
          · obtain ⟨hpart, hlt⟩ := isInfix_of_mem_headTokens harg
            have hfree : ∀ u ∈ arg, u.kind ≠ .lineComment := fun u hu => hts u (hpart.subset hu)
            refine ⟨ih arg.length (by omega) hfree rfl, ?_⟩
            unfold argumentHolds
            split
            · exact holdsEnd_of_lineFree hfree
            · exact List.all_eq_true.mpr fun u hu => decide_eq_true (hfree u hu)
          · refine ih _ ?_ (fun u hu => hts u (List.mem_of_mem_drop hu)) rfl
            rw [List.length_drop]
            omega

/-! ## Emitting tokens one by one -/

/-- The token was read and is no error, and if it is a comment, it is a given one. -/
structure Sound (P : Kind → Text → Prop) (t : Token) : Prop where
  shape : Shape t.kind t.text
  no_error : t.kind ≠ .error
  comment : t.kind.isComment → P t.kind t.text

/-- The given comments that are no line comments. -/
def BlocksOf (P : Kind → Text → Prop) (k : Kind) (s : Text) : Prop := P k s ∧ k ≠ .lineComment

variable {P : Kind → Text → Prop} {m m' : Mode} {t : Token} {ts : List Token} {s : Text}

theorem lineFree_blocksOf : LineFree (BlocksOf P) := fun _ h => h.2 rfl

theorem of_blocksOf (k : Kind) (s : Text) (h : BlocksOf P k s) : P k s := h.1

theorem Sound.blocksOf (h : Sound P t) (ht : t.kind ≠ .lineComment) : Sound (BlocksOf P) t where
  shape := h.shape
  no_error := h.no_error
  comment hcomment := ⟨h.comment hcomment, ht⟩

/-- The text for a token flows, the next token may follow it, and it can lose its end unless it is
a line comment. -/
def Leads (P : Kind → Text → Prop) (m : Mode) (t : Token) (s : Text) (rest : List Token) : Prop :=
  ∃ m', Flow P m s m' ∧ (∀ u ∈ rest.head?, Admits m' u) ∧
    (t.kind ≠ .lineComment → m ≠ .line → m' ≠ .line ∧ ∀ e, Sturdy e P m s)

theorem Leads.of_blocks (h : Flow (BlocksOf P) m s m') (hnext : ∀ u ∈ ts.head?, Admits m' u) :
    Leads P m t s ts := by
  refine ⟨m', h.mono of_blocksOf, hnext, fun _ hm => ⟨h.ne_line lineFree_blocksOf hm, fun e => ?_⟩⟩
  exact (Sturdy.of_flow lineFree_blocksOf hm h).mono of_blocksOf

theorem tamePair_of_tame (h : tame (t :: ts)) :
    ∀ u ∈ ts.head?, tamePair t u := by
  simp only [tame, Bool.and_eq_true] at h
  intro u hu
  rw [Option.mem_def] at hu
  simpa [hu] using h.1.1.2

/-- A token that is no call leads on to the next one. -/
theorem leads_alone (htame : tame (t :: ts)) (ht : Sound P t) (hm : Admits m t) :
    Leads P m t (aloneText t) ts := by
  have htoken : tameToken t := by
    simp only [tame, Bool.and_eq_true] at htame
    exact htame.1.1.1
  have hnext {m' : Mode} (h : ∀ u, tamePair t u → Admits m' u) : ∀ u ∈ ts.head?, Admits m' u :=
    fun u hu => h u (tamePair_of_tame htame u hu)
  by_cases hline : t.kind = .lineComment
  · obtain ⟨m', hflow, h⟩ := leadsOn_aloneText ht.shape ht.no_error htoken ht.comment hm
    exact ⟨m', hflow, hnext h, fun hne => absurd hline hne⟩
  · obtain ⟨m', hflow, h⟩ :=
      leadsOn_aloneText ht.shape ht.no_error htoken (ht.blocksOf hline).comment hm
    exact .of_blocks hflow (hnext h)

/-- A qualifier is left out, and what follows it can stand in its place. -/
theorem admits_after_dbo (htame : tame (t :: ts))
    (hdbo : startsWithDbo (t :: ts)) (hm : Admits m t) : ∀ u ∈ (ts.drop 1).head?, Admits m u := by
  obtain ⟨d, rest, rfl, hdot⟩ := eq_cons_of_startsWithDbo hdbo
  have hword : t.isWord "dbo" := (Bool.and_eq_true_iff.mp hdbo).1
  have hblank : t.kind ≠ .blank := by
    intro hblank
    simp [Token.isWord, hblank, Kind.isIdentifier, Kind.identifiers] at hword
  intro u hu
  have hpair := tamePair_of_tame (tame_of_suffix (List.suffix_cons t _) htame) u hu
  simp only [tamePair, hdot, decide_eq_true_eq] at hpair
  exact .of_isFirm (hm.isFirm_of_isFleeting hblank (by simp [isFleeting, hword]))
    fun hcomment => absurd hcomment hpair

theorem tameUnit_of_tame (h : tame (t :: ts))
    (hword : t.isWord "dateadd") : tameUnit ts := by
  simp only [tame, Bool.and_eq_true, hword, Bool.not_true, Bool.false_or] at h
  exact h.1.2

/-- The text for `t` leads on if the arguments of its call can lose their ends. -/
theorem leads_emitHead (hsafe : isSafe (t :: ts)) (ht : Sound P t) (hts : ∀ u ∈ ts, Sound P u)
    (hm : Admits m t)
    (hemit : ∀ {Q : Kind → Text → Prop} {arg : List Token}, arg.length < ts.length →
      isSafe arg → holdsEnd .argument arg → (∀ u ∈ arg, Sound Q u) →
      Sturdy .argument Q .apart (emit arg)) :
    Leads P m t (emitHead t ts).1 (ts.drop (emitHead t ts).2) := by
  have htame := (Bool.and_eq_true_iff.mp hsafe).1
  have hargs := (isSafe_parts hsafe).1
  have halone := leads_alone htame ht hm
  have hpart {arg : List Token} (harg : arg ∈ headTokens t ts) := isInfix_of_mem_headTokens harg
  rw [emitHead]
  split
  · rename_i hconvert
    have hblank : t.kind ≠ .blank := by
      intro hblank
      simp [Token.is, hblank] at hconvert
    have htokens : headTokens t ts = callTokens ts := by simp [headTokens, hconvert]
    split
    · rename_i args n hcall
      have hsturdy : ∀ a ∈ args, Sturdy .argument P .apart a := by
        rw [eq_map_of_callArguments? hcall, ← htokens, List.forall_mem_map]
        intro arg harg
        have hend := (hargs arg harg).2
        rw [argumentHolds, if_pos hconvert] at hend
        exact hemit (hpart harg).2 (hargs arg harg).1 hend
          fun u hu => hts u ((hpart harg).1.subset hu)
      have hcast := flow_castText hsturdy (hm.ne_line hblank)
      exact ⟨.solid, hcast.1, fun u _ => .solid u, fun _ _ => ⟨by decide, hcast.2⟩⟩
    · rwa [aloneText_of_is hconvert] at halone
  rename_i hconvert
  split
  · rename_i hword
    have hblank : t.kind ≠ .blank := by
      intro hblank
      simp [Token.isWord, hblank, Kind.isIdentifier, Kind.identifiers] at hword
    have htokens : headTokens t ts = callTokens ts := by simp [headTokens, hword]
    split
    · rename_i args n hcall
      have hsturdy : ∀ a ∈ args, Sturdy .argument (BlocksOf P) .apart a := by
        rw [eq_map_of_callArguments? hcall, ← htokens, List.forall_mem_map]
        intro arg harg
        have hfree := (hargs arg harg).2
        rw [argumentHolds, if_neg hconvert, List.all_eq_true] at hfree
        have hfree : ∀ u ∈ arg, u.kind ≠ .lineComment := fun u hu => of_decide_eq_true (hfree u hu)
        exact hemit (hpart harg).2 (hargs arg harg).1 (holdsEnd_of_lineFree hfree)
          fun u hu => (hts u ((hpart harg).1.subset hu)).blocksOf (hfree u hu)
      have hunit := apostrophe_not_mem_unitArgument (tameUnit_of_tame htame hword) hcall
      have hfirm := hm.isFirm_of_isFleeting hblank (by simp [isFleeting, hword])
      exact .of_blocks (flow_dateAddText lineFree_blocksOf hsturdy hunit hfirm) fun u _ => .solid u
    · rwa [aloneText, if_pos hword] at halone
  rename_i hword
  split
  · rename_i hdbo
    exact ⟨m, .nil, admits_after_dbo htame hdbo hm, fun _ hm => ⟨hm, fun _ => .nil hm⟩⟩
  · rwa [aloneText, if_neg hword] at halone

/-! ## Whole expressions -/

/-- An expression can lose its end if its last visible token is no line comment. -/
theorem sturdy_emit {e : Ending} (hsafe : isSafe ts) (hend : holdsEnd e ts)
    (hts : ∀ t ∈ ts, Sound P t) (hm : ∀ u ∈ ts.head?, Admits m u)
    (hline : m = .line → ∃ u ∈ ts, isVisible e u) : Sturdy e P m (emit ts) := by
  induction hn : ts.length using Nat.strongRecOn generalizing e P m ts with
  | ind n ih =>
      cases ts with
      | nil =>
          rw [emit]
          exact .nil fun h => by simpa using hline h
      | cons t ts =>
          obtain ⟨ht, hts⟩ := List.forall_mem_cons.mp hts
          rw [List.length_cons] at hn
          obtain ⟨m₁, hflow, hnext, hkeep⟩ := leads_emitHead hsafe ht hts (hm t rfl)
            fun hlt hsafe hend hsound => ih _ (by omega) hsafe hend hsound
              (fun u _ => Admits.apart u) (by simp) rfl
          have hrest (hline : m₁ = .line → ∃ u ∈ ts.drop (emitHead t ts).2, isVisible e u) :
              Sturdy e P m₁ (emit (ts.drop (emitHead t ts).2)) := by
            have hsuffix : ts.drop (emitHead t ts).2 <:+ t :: ts :=
              (List.drop_suffix _ ts).trans (List.suffix_cons t ts)
            refine ih _ ?_ ?_ (holdsEnd_of_suffix hsuffix hend)
              (fun u hu => hts u (List.mem_of_mem_drop hu)) hnext hline rfl
            · rw [List.length_drop]
              omega
            · rw [snd_emitHead]
              exact (isSafe_parts hsafe).2
          rw [emit_cons]
          -- A line comment, and blank space right after one, is not reached from the end.
          have hreach (htrivia : t.isTrivia) (hvisible : ∃ u ∈ ts, isVisible e u) :
              Sturdy e P m ((emitHead t ts).1 ++ emit (ts.drop (emitHead t ts).2)) := by
            rw [emitHead_of_isTrivia htrivia] at hflow hrest ⊢
            exact .append_of_kept hflow (hrest fun _ => hvisible) (exists_kept_emit hvisible)
          by_cases hkind : t.kind = .lineComment
          · have hvisible :=
              exists_visible_of_holdsEnd hend (isVisible_of_lineComment ht.shape hkind) hkind
            exact hreach (by rw [Token.isTrivia, hkind]; rfl) hvisible
          by_cases hm' : m = .line
          · have hblank := ((hm t rfl).line hm').1
            obtain ⟨u, hu, hvisible⟩ := hline hm'
            rcases List.mem_cons.mp hu with rfl | hu
            · simp [not_isVisible_of_blank ht.shape hblank] at hvisible
            · exact hreach (by rw [Token.isTrivia, hblank]; rfl) ⟨u, hu, hvisible⟩
          · obtain ⟨hne, hsturdy⟩ := hkeep hkind hm'
            exact (hsturdy e).append hflow (hrest fun h => absurd h hne)

/-- An expression that is safe flows. -/
theorem flow_emit (hsafe : isSafe ts) (hts : ∀ t ∈ ts, Sound P t)
    (hm : ∀ u ∈ ts.head?, Admits m u) : ∃ m', Flow P m (emit ts) m' := by
  fun_induction emit ts generalizing m with
  | case1 => exact ⟨m, .nil⟩
  | case2 t ts text n heq ih =>
      obtain ⟨ht, hts⟩ := List.forall_mem_cons.mp hts
      have hlead := leads_emitHead hsafe ht hts (hm t rfl) fun _ hsafe hend hsound =>
        sturdy_emit hsafe hend hsound (fun u _ => Admits.apart u) (by simp)
      have hrest := (isSafe_parts hsafe).2
      rw [← snd_emitHead, heq] at hrest
      rw [heq] at hlead
      obtain ⟨m₁, hflow, hnext, -⟩ := hlead
      obtain ⟨m₂, hafter⟩ := ih hrest (fun u hu => hts u (List.mem_of_mem_drop hu)) hnext
      exact ⟨m₂, hflow.append hafter⟩

end SqlMigration.Expression
