import SqlMigration.Expression.Basic
import SqlMigration.Proofs.Token.Joining

/-! # Tokens that stay apart

Emitting a token can change its text or take it away, so that its neighbours meet. A list of
tokens is tame if no two of them can make a comment in this way, and if the names in it can be
quoted. Then each token leads on from the mode that the tokens before it have left.
-/

namespace SqlMigration

open Token

namespace Expression

/-- The text of a token that is no call. -/
def aloneText (t : Token) : Text := if t.isWord "dateadd" then t.text else tokenText t

/-- Whether the text for a token may be empty or start with the text of another one. -/
def isFleeting (t : Token) : Bool :=
  t.isWord "dbo" || t.isWord "dateadd" || (tokenText t).isEmpty

/-- Whether the second token may follow the first. -/
def tamePair (t u : Token) : Bool :=
  match t.kind with
  | .lineComment => u.kind = .blank && (u.text.head? = some '\n' || u.text.head? = some '\r')
  | .minus => u.kind ≠ .minus && u.kind ≠ .lineComment && !isFleeting u
  | .slash => u.kind ≠ .star && !isFleeting u
  | .dot => u.kind ≠ .lineComment
  | _ => u.kind ≠ .lineComment || !(aloneText t).takesDash

/-- Whether a token can be emitted by itself: a name in brackets holds no quote, and an exponent
has digits. -/
def tameToken (t : Token) : Bool :=
  match t.kind with
  | .bracketed => !(Name.normalize t.text).contains '"'
  | .numeric => t.text.getLast? ≠ some '-'
  | _ => true

/-- Whether a token may stand in the first argument of `DATEADD`. It names a unit, which ends up
in a string. -/
def namesUnit (t : Token) : Bool :=
  t.kind ≠ .leftParen && !t.is .CONVERT && !t.isWord "dateadd" && !t.isWord "dbo" &&
    !(tokenText t).contains '\''

/-- Whether the call of `DATEADD` whose name stands before `ts` starts with the name of a unit. -/
def tameUnit (ts : List Token) : Bool :=
  match skipTrivia ts with
  | [] => true
  | u :: inner =>
      u.kind ≠ .leftParen ||
        (inner.takeWhile fun t => t.kind ≠ .comma && t.kind ≠ .rightParen).all namesUnit

/-- Whether all tokens can be emitted by themselves and may follow each other, and all calls of
`DATEADD` name their units. -/
def tame : List Token → Bool
  | [] => true
  | t :: ts =>
      tameToken t && ts.head?.all (tamePair t) && (!t.isWord "dateadd" || tameUnit ts) && tame ts

/-! ## Modes and tokens -/

/-- The token may follow in the mode. -/
structure Admits (m : Mode) (t : Token) : Prop where
  line : m = .line → t.kind = .blank ∧ (t.text.head? = some '\n' ∨ t.text.head? = some '\r')
  comment : t.kind = .lineComment → m.isBoundary
  dash : m = .dash → t.kind ≠ .minus ∧ isFleeting t = false
  slash : m = .slash → t.kind ≠ .star ∧ isFleeting t = false

namespace Admits

variable {m : Mode} {t u : Token}

theorem of_isFirm (hm : m.isFirm) (hcomment : t.kind = .lineComment → m.isBoundary) :
    Admits m t where
  line h := by simp [h, Mode.isFirm] at hm
  comment := hcomment
  dash h := by simp [h, Mode.isFirm] at hm
  slash h := by simp [h, Mode.isFirm] at hm

theorem apart (t : Token) : Admits .apart t := of_isFirm rfl fun _ => rfl

theorem solid (t : Token) : Admits .solid t := of_isFirm rfl fun _ => rfl

theorem ne_line (h : Admits m t) (ht : t.kind ≠ .blank) : m ≠ .line :=
  fun hm => ht (h.line hm).1

theorem isFirm_of_isFleeting (h : Admits m t) (ht : t.kind ≠ .blank) (hfleeting : isFleeting t) :
    m.isFirm := by
  cases m with
  | line => exact absurd rfl (h.ne_line ht)
  | dash => simp [(h.dash rfl).2] at hfleeting
  | slash => simp [(h.slash rfl).2] at hfleeting
  | apart | solid | digit | exponent => rfl

theorem line_of_tamePair (ht : t.kind = .lineComment) (h : tamePair t u) : Admits .line u := by
  simp only [tamePair, ht, Bool.and_eq_true, Bool.or_eq_true, decide_eq_true_eq] at h
  exact {
    line := fun _ => h
    comment := fun hu => by simp [h.1] at hu
    dash := fun hm => by cases hm
    slash := fun hm => by cases hm }

theorem dash_of_tamePair (ht : t.kind = .minus) (h : tamePair t u) : Admits .dash u := by
  simp only [tamePair, ht, Bool.and_eq_true, decide_eq_true_eq, Bool.not_eq_true'] at h
  exact {
    line := fun hm => by cases hm
    comment := fun hu => absurd hu h.1.2
    dash := fun _ => ⟨h.1.1, h.2⟩
    slash := fun hm => by cases hm }

theorem slash_of_tamePair (ht : t.kind = .slash) (h : tamePair t u) : Admits .slash u := by
  simp only [tamePair, ht, Bool.and_eq_true, decide_eq_true_eq, Bool.not_eq_true'] at h
  exact {
    line := fun hm => by cases hm
    comment := fun _ => rfl
    dash := fun hm => by cases hm
    slash := fun _ => h }

end Admits

/-! ## Names -/

end Expression

namespace Name

theorem dropUnicodeMark_suffix (s : Text) : dropUnicodeMark s <:+ s := by
  unfold dropUnicodeMark
  split
  · exact List.suffix_append [_, _] _
  · exact List.suffix_append [_, _] _
  · exact List.suffix_rfl

theorem trimQuotes_sublist (s : Text) : (trimQuotes s).Sublist s :=
  (Text.trimWhere_sublist _ _).trans <| (dropUnicodeMark_suffix _).sublist.trans <|
    (Text.trimWhere_sublist _ _).trans (Text.trimWhere_sublist _ _)

theorem dropSchema_suffix (s : Text) : dropSchema s <:+ s := by
  fun_induction dropSchema s with
  | case1 s ih => exact ih.trans (List.suffix_append ['d', 'b', 'o', '.'] s)
  | case2 s ih => exact ih.trans (List.suffix_append ['[', 'd', 'b', 'o', ']', '.'] s)
  | case3 s ih => exact ih.trans (List.suffix_append ['"', 'd', 'b', 'o', '"', '.'] s)
  | case4 s => exact List.suffix_rfl

theorem settle_sublist (s : Text) : (settle s).Sublist s := by
  fun_induction settle s with
  | case1 s next hlt ih =>
      exact ih.trans ((trimQuotes_sublist _).trans (dropSchema_suffix s).sublist)
  | case2 s next hlt => exact List.Sublist.refl _

theorem isBare_of_isPlain {s : Text} (h : isPlain s) : ∀ c ∈ s, Text.isBare c := by
  unfold isPlain at h
  split at h
  · simp
  · rename_i c s
    intro d hd
    have hd := List.all_eq_true.mp (Bool.and_eq_true_iff.mp h).2 d hd
    rcases Bool.or_eq_true_iff.mp hd with hd | hd
    · exact Text.isBare_of_isAlphanumeric hd
    · rw [of_decide_eq_true hd]
      decide

/-- A bare name stays bare when it is normalised. -/
theorem isBare_of_mem_normalize {s : Text} (hs : ∀ c ∈ s, Text.isBare c) :
    ∀ c ∈ normalize s, Text.isBare c := by
  intro c hc
  have hc := (settle_sublist _).subset hc
  exact Text.isBare_of_mem_lower (fun d hd => hs d ((Text.trimWhere_sublist _ _).subset hd)) c hc

end Name

namespace Expression

/-- What is left of a token is flowing, and each token that may come after it may follow there. -/
def LeadsOn (P : Kind → Text → Prop) (m : Mode) (t : Token) (s : Text) : Prop :=
  ∃ m', Flow P m s m' ∧ ∀ u, tamePair t u → Admits m' u

variable {P : Kind → Text → Prop} {m : Mode} {t : Token} {s : Text}

theorem takesDash_of_tamePair {u : Token} (ht : isInert t.kind) (h : tamePair t u)
    (hu : u.kind = .lineComment) : (aloneText t).takesDash = false := by
  unfold tamePair at h
  split at h <;> simp_all [isInert, Kind.isTrivia, Kind.isComment]

theorem leadsOn_solid (h : Flow P m s .solid) : LeadsOn P m t s := ⟨_, h, fun u _ => .solid u⟩

/-- Bare text can be empty, but not where that matters. -/
theorem leadsOn_bare (ht : isInert t.kind) (hm : Admits m t)
    (hs : ∀ c ∈ aloneText t, Text.isBare c) : LeadsOn P m t (aloneText t) := by
  have hblank : t.kind ≠ .blank := by
    intro h
    simp [h, isInert, Kind.isTrivia] at ht
  refine ⟨_, Flow.bares (hm.ne_line hblank) hs, ?_⟩
  intro u hu
  refine .of_isFirm ?_ fun hcomment =>
    Mode.isBoundary_foldl_next (takesDash_of_tamePair ht hu hcomment)
  by_cases hne : aloneText t = []
  · rw [hne]
    refine hm.isFirm_of_isFleeting hblank ?_
    unfold aloneText at hne
    split at hne
    · rename_i hword
      simp [isFleeting, hword]
    · simp [isFleeting, hne]
  · exact Mode.isFirm_foldl_next hne

theorem flow_render (hm : m ≠ .line) (hs : '"' ∉ Name.normalize s) :
    ∃ m', m' ≠ .line ∧ Flow P m (Name.render s) m' := by
  unfold Name.render
  dsimp only
  split
  · rename_i hplain
    exact ⟨_, Mode.foldl_next_ne_line hm, .bares hm (Name.isBare_of_isPlain hplain)⟩
  · exact ⟨.solid, by decide, .quote rfl hs hm⟩

theorem leadsOn_render (ht : isInert t.kind) (hm : Admits m t) (hs : '"' ∉ Name.normalize s)
    (heq : aloneText t = Name.render s) : LeadsOn P m t (aloneText t) := by
  have hblank : t.kind ≠ .blank := by
    intro h
    simp [h, isInert, Kind.isTrivia] at ht
  unfold Name.render at heq
  dsimp only at heq
  split at heq
  · rename_i hplain
    exact leadsOn_bare ht hm (heq ▸ Name.isBare_of_isPlain hplain)
  · rw [heq]
    exact leadsOn_solid (.quote rfl hs (hm.ne_line hblank))

/-- Blank text that starts with the end of a line where a comment is open ends the comment. -/
theorem flow_blank (hm : m = .line → s.head? = some '\n' ∨ s.head? = some '\r') (hne : s ≠ [])
    (hs : ∀ c ∈ s, Text.isBlank c) : Flow P m s .apart := by
  by_cases hline : m = .line
  · cases s with
    | nil => exact absurd rfl hne
    | cons c s =>
        have hc := hm hline
        simp only [List.head?_cons, Option.some.injEq] at hc
        rw [hline]
        refine .lineEnd hc ?_
        by_cases hnil : s = []
        · exact hnil ▸ .nil
        · exact .blanks (by decide) hnil (List.forall_mem_cons.mp hs).2
  · exact .blanks hline hne hs

/-- An exponent that has digits does not end with its sign. -/
theorem flow_exponent {a b : Text} (hm : m ≠ .line) (hne : a ≠ []) (ha : ∀ c ∈ a, Text.isBare c)
    (hdigits : b ≠ []) (hb : ∀ c ∈ b, c.isDigit) : Flow P m (a ++ '-' :: b) .digit := by
  have hfirm : (a.foldl Mode.next m).isFirm := Mode.isFirm_foldl_next hne
  have hafter : Flow P .dash b _ :=
    .bares (by decide) fun c hc => Text.isBare_of_isDigit (hb c hc)
  rw [Mode.foldl_next_digits hdigits hb] at hafter
  refine (Flow.bares hm ha).append (.dash (Mode.ne_line_of_isFirm hfirm) ?_ hafter)
  intro hdash
  simp [hdash, Mode.isFirm] at hfirm

/-- A token leads on by its own text. -/
theorem leadsOn_text (hshape : Shape t.kind t.text) (herror : t.kind ≠ .error)
    (htame : tameToken t) (hcomment : t.kind.isComment → P t.kind t.text) (hm : Admits m t)
    (halone : aloneText t = t.text) : LeadsOn P m t t.text := by
  generalize hkind : t.kind = k at hshape hcomment
  generalize htext : t.text = s at hshape hcomment
  have hline (hk : k ≠ .blank) : m ≠ .line := hm.ne_line (hkind ▸ hk)
  cases hshape with
  | blank hne hblank =>
      refine ⟨.apart, flow_blank (fun hm' => ?_) hne hblank, fun u _ => .apart u⟩
      rw [← htext]
      exact (hm.line hm').2
  | @lineComment body hbody =>
      have hflow := Flow.comment (P := P) (hm.comment hkind) (hcomment rfl) hbody .nil
      rw [List.append_nil] at hflow
      exact ⟨.line, hflow, fun u hu => .line_of_tamePair hkind hu⟩
  | @blockComment body hbody =>
      have hflow := Flow.block (P := P) (hline (by decide)) (hcomment rfl) hbody .nil
      rw [List.append_nil] at hflow
      exact ⟨.apart, hflow, fun u _ => .apart u⟩
  | minus =>
      refine ⟨.dash, .dash (hline (by decide)) ?_ .nil, fun u hu => .dash_of_tamePair hkind hu⟩
      intro hdash
      exact (hm.dash hdash).1 hkind
  | slash =>
      exact ⟨.slash, .slash (hline (by decide)) .nil, fun u hu => .slash_of_tamePair hkind hu⟩
  | star =>
      refine leadsOn_solid (.star (hline (by decide)) ?_ .nil)
      intro hslash
      exact (hm.slash hslash).1 hkind
  | bare hk _ hbare =>
      have hleads : LeadsOn P m t (aloneText t) :=
        leadsOn_bare (hkind ▸ hk) hm (by rwa [halone, htext])
      rwa [halone, htext] at hleads
  | @exponent a b hne ha hb =>
      have hdigits : b ≠ [] := by
        rintro rfl
        simp [tameToken, hkind, htext] at htame
      exact ⟨.digit, flow_exponent (hline (by decide)) hne ha hdigits hb,
        fun u _ => .of_isFirm rfl fun _ => rfl⟩
  | @quoted _ before _ _ _ hk hbefore hq hbody =>
      have hne : k ≠ .blank := by
        rintro rfl
        exact absurd hk (by decide)
      have hquoted : Flow P (before.foldl Mode.next m) _ .solid :=
        .quoted (Mode.foldl_next_ne_line (hline hne)) hq hbody .nil
      rw [List.append_nil] at hquoted
      exact leadsOn_solid ((Flow.bares (hline hne) hbefore).append hquoted)
  | error => exact absurd hkind herror

/-- The tokens that are not emitted as they are. -/
theorem aloneText_cases (t : Token) :
    aloneText t = t.text ∨
      (t.kind = .variable ∧ aloneText t = Name.ofVariable t.text) ∨
      (t.kind = .identifier ∧ aloneText t = Name.render (Name.dropTemporaryMark t.text)) ∨
      (t.kind = .bracketed ∧ aloneText t = Name.render t.text) := by
  unfold aloneText tokenText
  split
  · exact .inl rfl
  split
  · rename_i hkind
    exact .inr (.inl ⟨hkind, rfl⟩)
  · rename_i hkind
    split
    · exact .inr (.inr (.inl ⟨hkind, rfl⟩))
    · exact .inl rfl
  · rename_i hkind
    exact .inr (.inr (.inr ⟨hkind, rfl⟩))
  · exact .inl rfl

/-- A token leads on by the text that it is emitted with. -/
theorem leadsOn_aloneText (hshape : Shape t.kind t.text) (herror : t.kind ≠ .error)
    (htame : tameToken t) (hcomment : t.kind.isComment → P t.kind t.text) (hm : Admits m t) :
    LeadsOn P m t (aloneText t) := by
  rcases aloneText_cases t with halone | ⟨hkind, halone⟩ | ⟨hkind, halone⟩ | ⟨hkind, halone⟩
  · rw [halone]
    exact leadsOn_text hshape herror htame hcomment hm halone
  · refine leadsOn_bare (by rw [hkind]; rfl) hm ?_
    rw [halone]
    refine Text.isBare_of_mem_lower fun c hc => ?_
    have hc := (Text.trimWhere_sublist _ _).subset ((List.dropWhile_sublist _).subset hc)
    exact hshape.isBare_of_mem (by rw [hkind]; rfl) c hc
  · refine leadsOn_render (by rw [hkind]; rfl) hm ?_ halone
    intro hquote
    have hbare : ∀ c ∈ Name.dropTemporaryMark t.text, Text.isBare c :=
      fun c hc => hshape.isBare_of_mem (by rw [hkind]; rfl) c ((List.dropWhile_sublist _).subset hc)
    exact absurd (Name.isBare_of_mem_normalize hbare _ hquote) (by decide)
  · refine leadsOn_render (by rw [hkind]; rfl) hm ?_ halone
    simpa [tameToken, hkind] using htame

end Expression

end SqlMigration
