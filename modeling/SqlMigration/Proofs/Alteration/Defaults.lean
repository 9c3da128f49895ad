import SqlMigration.Proofs.Alteration.Columns
import SqlMigration.Proofs.Text.Parens
import SqlMigration.Proofs.Token.Spaced

/-! # Default values

The default of a column is recorded as a text without blank space, except after commas, and without
one pair of parentheses around it. The expression can be read back from that text exactly if it is
taken in whole and its tokens stay apart without the blank space.
-/

namespace SqlMigration

open Grammar

/-! ## The default that is recorded -/

namespace Column

/-- The tokens after the last `DEFAULT` that the scan of the options comes to. -/
def lastDefault? (d : Dialect) (ts : List Token) : Option (List Token) :=
  match _h : skipTrivia ts with
  | [] => none
  | t :: rest =>
      match option? d {} t rest with
      | none => none
      | some (_, n) =>
          (lastDefault? d (rest.drop n)).or (if t.is .DEFAULT then some rest else none)
  termination_by ts.length
  decreasing_by
    have := length_lt_of_skipTrivia_eq_cons _h
    simp only [List.length_drop]
    omega

/-- The tokens after the type of a column, where `ts` follows its name. -/
def afterType (d : Dialect) (ts : List Token) : List Token :=
  match skipTrivia ts with
  | u :: us => if u.kind.isIdentifier then us.drop (dataType d u us).2 else ts
  | [] => ts

/-- The default that `us` spells after `DEFAULT`. -/
def defaultOf (us : List Token) : Text := (defaultValue (skipTrivia us)).1

theorem defaultValue_of_option? {d : Dialect} {c c' : ColumnType} {t : Token} {ts : List Token}
    {n : Nat} (h : option? d c t ts = some (c', n)) :
    c'.defaultValue =
      if t.is .DEFAULT then some (d.mapDefault (defaultOf ts)) else c.defaultValue := by
  by_cases ht : t.is .DEFAULT
  · simp only [option?, kind_of_is ht, Option.some.injEq, Prod.mk.injEq] at h
    rw [if_pos ht, ← h.1, defaultOf]
  · rw [if_neg ht]
    unfold option? at h
    dsimp only at h
    split at h
    case h_10 hkind => exact absurd (by simp [Token.is, hkind]) ht
    all_goals
      repeat' split at h
      all_goals first | cases h; rfl | cases h

theorem lastDefault?_of_skipTrivia {d : Dialect} {t : Token} {ts rest : List Token}
    (h : skipTrivia ts = t :: rest) :
    lastDefault? d ts = ((option? d {} t rest).map Prod.snd).bind fun n =>
      (lastDefault? d (rest.drop n)).or (if t.is .DEFAULT then some rest else none) := by
  rw [lastDefault?]
  split
  · rename_i hnil
    rw [h] at hnil
    cases hnil
  · rename_i t' rest' hskip
    obtain ⟨rfl, rfl⟩ := List.cons.inj (h.symm.trans hskip)
    cases option? d {} t rest <;> rfl

theorem defaultValue_options (d : Dialect) (c : ColumnType) (ts : List Token) :
    (options d c ts).1.defaultValue =
      ((lastDefault? d ts).map fun us => d.mapDefault (defaultOf us)).or c.defaultValue := by
  fun_induction options d c ts with
  | case1 c ts hskip =>
      have hnone : lastDefault? d ts = none := by
        rw [lastDefault?]
        split
        · rfl
        · rename_i hcons
          rw [hskip] at hcons
          cases hcons
      rw [hnone]
      rfl
  | case2 c ts t rest hskip hnone =>
      rw [lastDefault?_of_skipTrivia hskip, ← map_snd_option? c, hnone]
      rfl
  | case3 c ts t rest hskip c' n hoption c'' m hrest ih =>
      rw [lastDefault?_of_skipTrivia hskip, ← map_snd_option? c, hoption]
      rw [hrest, defaultValue_of_option? hoption] at ih
      rw [ih]
      simp only [Option.map_some, Option.bind_some]
      cases lastDefault? d (rest.drop n) <;> cases t.is .DEFAULT <;> rfl

/-- A column records the last of its defaults. -/
theorem defaultValue_define (d : Dialect) (t : Token) (ts : List Token) :
    (define d t ts).1.type.defaultValue =
      (lastDefault? d (afterType d ts)).map fun us => d.mapDefault (defaultOf us) := by
  unfold define afterType
  cases hskip : skipTrivia ts with
  | nil => simp [defaultValue_options]
  | cons u us =>
      cases hu : u.kind.isIdentifier with
      | true => simp [hu, defaultValue_options, drop_of_skipTrivia hskip]
      | false => simp [hu, defaultValue_options]

theorem lastDefault?_isSuffix {d : Dialect} {ts us : List Token} (h : lastDefault? d ts = some us) :
    us <:+ ts := by
  fun_induction lastDefault? d ts generalizing us with
  | case1 ts hskip => cases h
  | case2 ts t rest hskip hnone => cases h
  | case3 ts t rest hskip c n hoption ih =>
      have hrest : rest <:+ ts := by
        obtain ⟨gap, rfl, _⟩ := eq_append_of_skipTrivia hskip
        exact ⟨gap ++ [t], by simp⟩
      rcases Option.or_eq_some_iff.mp h with hlater | ⟨-, hhere⟩
      · exact ((ih hlater).trans (List.drop_suffix n rest)).trans hrest
      · split at hhere
        · cases hhere
          exact hrest
        · cases hhere

theorem afterType_isSuffix (d : Dialect) (ts : List Token) : afterType d ts <:+ ts := by
  unfold afterType
  split
  · rename_i u us hskip
    split
    · obtain ⟨gap, rfl, _⟩ := eq_append_of_skipTrivia hskip
      exact (List.drop_suffix _ us).trans ⟨gap ++ [u], by simp⟩
    · exact List.suffix_rfl
  · exact List.suffix_rfl

end Column

/-! ## Expressions -/

namespace Grammar

/-- Whether a function can be called by a token of this kind. -/
def namesFunction (k : Kind) : Bool :=
  k.isIdentifier || k = .keyword .CONVERT || k = .keyword .LEFT || k = .keyword .RIGHT

/-- The name of a function, with or without qualifiers. -/
inductive IsFunctionName : List Token → Prop where
  | plain {t : Token} (ht : namesFunction t.kind) : IsFunctionName [t]
  | qualified {q dot : Token} {us : List Token} (hq : q.kind.isIdentifier) (hdot : dot.kind = .dot)
      (h : IsFunctionName us) : IsFunctionName (q :: dot :: us)

/-- A group in parentheses or the call of a function. -/
inductive IsExpression : List Token → Prop where
  | group {us : List Token} (h : IsGroup us) : IsExpression us
  | call {name us : List Token} (hname : IsFunctionName name) (h : IsGroup us) :
      IsExpression (name ++ us)

instance (us : List Token) : Decidable (IsGroup us) := inferInstanceAs (Decidable (_ ∧ _))

/-- A group is what stands between its first token and its last one. -/
theorem IsGroup.exists_between {us : List Token} (h : IsGroup us) :
    ∃ l inner r, us = l :: (inner ++ [r]) ∧ l.kind = .leftParen ∧ r.kind = .rightParen := by
  obtain ⟨hhead, hclose⟩ := h
  cases us with
  | nil => simp at hhead
  | cons l us =>
      have hl : l.kind = .leftParen := by simpa using hhead
      obtain ⟨r, rest, hdrop, hr⟩ := kind_of_closingParenFrom? hclose
      have hne : us ≠ [] := by
        rintro rfl
        obtain ⟨rfl, -⟩ := List.cons.inj hdrop
        rw [hl] at hr
        cases hr
      have hlast : us = us.dropLast ++ [r] := by
        obtain ⟨front, z, rfl⟩ := (List.eq_nil_or_concat us).resolve_left hne
        rw [List.concat_eq_append] at hdrop ⊢
        have hlength : (l :: (front ++ [z])).length - 1 = (l :: front).length := by simp
        rw [hlength, ← List.cons_append, List.drop_left] at hdrop
        rw [List.dropLast_concat, (List.cons.inj hdrop).1]
      exact ⟨l, us.dropLast, r, by rw [← hlast], hl, hr⟩

end Grammar

namespace Column

/-- Whether an expression is taken in as a whole. -/
def isDirect : List Token → Bool
  | t :: u :: _ => t.kind = .leftParen || (t.kind.isIdentifier && u.kind = .leftParen)
  | _ => false

/-- Whether an expression stands in parentheses that are taken away. -/
def losesParens (us : List Token) : Bool :=
  (us.head?.any fun t => t.kind = .leftParen) &&
    Text.balancedFrom 0 false (compactText us.tail.dropLast)

/-- The tokens of an expression whose texts are recorded. -/
def recorded (us : List Token) : List Token := if losesParens us then us.tail.dropLast else us

/-- The text has the significant tokens of the expression, perhaps without the parentheses around
it. -/
def Faithful (us : List Token) (value : Text) : Prop :=
  ∃ vs, (vs = us ∨ ∃ l r, l.kind = .leftParen ∧ r.kind = .rightParen ∧ us = l :: (vs ++ [r])) ∧
    spellings (tokenize value) = spellings vs

/-! ## The text of an expression -/

theorem compactText_eq (ts : List Token) : compactText ts = compactText (significant ts) := by
  simp [compactText, significant, List.filter_filter]

theorem compactText_of_significant {us : List Token} (hus : ∀ t ∈ us, t.isTrivia = false) :
    compactText us = spacedText us ++ lastSpace us := by
  induction us with
  | nil => rfl
  | cons t us ih =>
      obtain ⟨ht, hus⟩ := List.forall_mem_cons.mp hus
      have hcons : compactText (t :: us) =
          (if t.kind = .comma then t.text ++ [' '] else t.text) ++ compactText us := by
        simp [compactText, ht]
      rw [hcons, ih hus, spacedText, spaceAfter]
      cases us with
      | nil => by_cases hcomma : t.kind = .comma <;> simp [hcomma, spacedText, lastSpace]
      | cons u us =>
          have hlast : lastSpace (t :: u :: us) = lastSpace (u :: us) := by simp [lastSpace]
          rw [hlast]
          by_cases hcomma : t.kind = .comma <;> simp [hcomma]

theorem compactText_eq_spacedText (ts : List Token) :
    compactText ts = spacedText (significant ts) ++ lastSpace (significant ts) := by
  rw [compactText_eq]
  exact compactText_of_significant fun t ht => by simpa using (List.mem_filter.mp ht).2

theorem compactText_concat (ts : List Token) {r : Token} (hr : r.kind = .rightParen) :
    compactText (ts ++ [r]) = spacedText (significant (ts ++ [r])) := by
  have hlast : significant (ts ++ [r]) = significant ts ++ [r] := by
    rw [significant_append, significant_cons (isTrivia_of_kind hr rfl)]
    rfl
  rw [compactText_eq_spacedText, hlast, lastSpace_concat hr, List.append_nil]

theorem compactText_between {l r : Token} (inner : List Token) (hl : l.kind = .leftParen)
    (hr : r.kind = .rightParen) (hopen : l.text = ['(']) (hclose : r.text = [')']) :
    compactText (l :: (inner ++ [r])) = '(' :: (compactText inner ++ [')']) := by
  simp [compactText, isTrivia_of_kind hl rfl, isTrivia_of_kind hr rfl, hl, hr, hopen, hclose]

theorem trim_compactText (ts : List Token) :
    (compactText ts).trim = (spacedText (significant ts)).trim := by
  rw [compactText_eq_spacedText]
  exact Text.trimWhere_append (a := []) (by simp) (isBlank_of_mem_lastSpace _)

theorem compactText_take {ts us vs : List Token} {n : Nat} (hts : significant ts = us ++ vs)
    (hdrop : significant (ts.drop n) = vs) : compactText (ts.take n) = compactText us := by
  have hsplit := significant_append (ts.take n) (ts.drop n)
  rw [List.take_append_drop, hts, hdrop] at hsplit
  have htake : significant (ts.take n) = us := (List.append_cancel_right hsplit).symm
  rw [compactText_eq, htake]

theorem ne_leftParen_of_namesFunction {t : Token} (h : namesFunction t.kind) :
    t.kind ≠ .leftParen := by
  intro hkind
  rw [hkind] at h
  revert h
  decide

section
variable {ts us vs : List Token}

theorem defaultOf_group (h : IsGroup us) (hts : significant ts = us ++ vs) :
    defaultOf ts = Text.stripParens (compactText us) := by
  obtain ⟨l, rest, hskip, hl, -, hrest⟩ := closes_of_isGroup h hts
  have hdrop : significant ((l :: rest).drop (groupEnd (l :: rest) + 1)) = vs := hrest
  rw [← significant_skipTrivia, hskip] at hts
  rw [defaultOf, hskip, defaultValue, if_pos hl]
  exact congrArg Text.stripParens (compactText_take hts hdrop)

theorem defaultOf_call {t : Token} (ht : t.kind.isIdentifier) (h : IsGroup us)
    (hts : significant ts = t :: us ++ vs) : defaultOf ts = compactText (t :: us) := by
  obtain ⟨rest, hskip, hrest⟩ := exists_skipTrivia hts
  obtain ⟨l, more, hnext, hl, -, hmore⟩ := closes_of_isGroup h hrest
  have hleft : t.kind ≠ .leftParen :=
    ne_leftParen_of_namesFunction (by simp [namesFunction, ht])
  have hdrop : significant
      ((t :: rest).drop (triviaLength rest + groupEnd (l :: more) + 2)) = vs := by
    have hcount : triviaLength rest + groupEnd (l :: more) + 2 =
        triviaLength rest + 1 + groupEnd (l :: more) + 1 := by omega
    rw [hcount, List.drop_succ_cons, drop_of_skipTrivia hnext, hmore]
  rw [← significant_skipTrivia, hskip] at hts
  rw [defaultOf, hskip, defaultValue, if_neg hleft]
  simp only [drop_triviaLength, hnext, ht, hl, decide_true, Bool.and_self, if_true]
  exact compactText_take hts hdrop

/-- Any other expression is cut off after its first token. -/
theorem defaultOf_single {t u : Token} (ht : namesFunction t.kind)
    (hcall : (t.kind.isIdentifier && u.kind = .leftParen) = false)
    (hts : significant ts = t :: u :: vs) : defaultOf ts = t.text := by
  obtain ⟨rest, hskip, hrest⟩ := exists_skipTrivia hts
  obtain ⟨more, hnext, -⟩ := exists_skipTrivia hrest
  have hminus : t.kind ≠ .minus := by
    intro hkind
    rw [hkind] at ht
    revert ht
    decide
  rw [defaultOf, hskip, defaultValue, if_neg (ne_leftParen_of_namesFunction ht)]
  simp only [drop_triviaLength, hnext, hcall, Bool.false_eq_true, if_false, hminus, decide_false,
    Bool.false_and]

end

end Column

/-! ## Tokens of a script -/

/-- A significant token of a slice of a script, with what follows it there. -/
theorem exists_stays {script : Text} {ts us vs : List Token} {t : Token}
    (hts : ts <:+: tokenize script) (h : significant ts = us ++ t :: vs) :
    t.text ≠ [] ∧ t.isTrivia = false ∧
      ∃ rest, t.stays (joinText rest) ∧ significant rest = vs ∧ rest <:+: tokenize script := by
  obtain ⟨before, after, rfl, -, hafter⟩ := List.filter_eq_append_iff.mp h
  obtain ⟨gap, rest, rfl, -, ht, hrest⟩ := List.filter_eq_cons_iff.mp hafter
  refine ⟨?_, by simpa using ht, rest, ?_, hrest, ?_⟩
  · exact Token.text_ne_nil_of_mem_read .unicode (hts.subset (by simp))
  · exact Token.stays_of_isInfix hts (List.append_assoc before gap (t :: rest)).symm
  · exact List.IsInfix.trans ⟨before ++ (gap ++ [t]), [], by simp⟩ hts

section
variable {script : Text} {ts us vs : List Token}

theorem sharp_of_mem (hts : ts <:+: tokenize script) (h : significant ts = us ++ vs) :
    ∀ t ∈ us, t.Sharp := by
  intro t ht
  obtain ⟨before, after, rfl⟩ := List.append_of_mem ht
  rw [List.append_assoc, List.cons_append] at h
  obtain ⟨hne, hsignificant, rest, hstays, -⟩ := exists_stays hts h
  exact Token.sharp_of_stays hne hstays hsignificant

/-- A token that is followed by another one does not end with a blank character. -/
theorem isBlank_getLast?_of_mem (hts : ts <:+: tokenize script) {t r : Token}
    (h : significant ts = us ++ t :: r :: vs) : ∀ c ∈ t.text.getLast?, Text.isBlank c = false := by
  obtain ⟨hne, hsignificant, rest, hstays, hrest, hinfix⟩ := exists_stays hts h
  obtain ⟨hr, -⟩ := @exists_stays script rest [] vs r hinfix hrest
  refine Token.isBlank_getLast?_text hne hstays hsignificant fun hnil => hr ?_
  have hmem : r ∈ significant rest := by rw [hrest]; exact List.mem_cons_self
  exact List.flatMap_eq_nil_iff.mp hnil r (List.mem_filter.mp hmem).1

theorem isBlank_getLast?_spacedText (hts : ts <:+: tokenize script) {before : List Token}
    {r : Token} (h : significant ts = before ++ (us ++ r :: vs)) :
    ∀ c ∈ (spacedText us).getLast?, Text.isBlank c = false := by
  intro c hc
  rcases List.eq_nil_or_concat us with rfl | ⟨front, z, rfl⟩
  · cases hc
  · rw [List.concat_eq_append] at h hc
    rw [List.append_assoc, ← List.append_assoc before] at h
    have hlast := isBlank_getLast?_of_mem hts h
    obtain ⟨hne, -⟩ := exists_stays hts h
    have hend : spacedText [z] = z.text := by simp [spacedText, spaceAfter]
    rw [spacedText_append _ (List.cons_ne_nil z []), hend, ← List.append_assoc,
      List.getLast?_append, List.getLast?_eq_some_getLast hne, Option.some_or,
      ← List.getLast?_eq_some_getLast hne] at hc
    exact hlast c hc

namespace Column

/-- The text of a group loses its parentheses if they are balanced between them. -/
theorem stripParens_compactText (hts : ts <:+: tokenize script) {l r : Token} {inner : List Token}
    (hl : l.kind = .leftParen) (hr : r.kind = .rightParen) (hus : us = l :: (inner ++ [r]))
    (h : significant ts = us ++ vs) :
    Text.stripParens (compactText us) = spacedText (recorded us) := by
  have hsharp := sharp_of_mem hts h
  have hsignificant : ∀ t ∈ us, t.isTrivia = false := fun t ht => (hsharp t ht).significant
  have hinner : ∀ t ∈ inner, t ∈ us := by rw [hus]; intro t ht; simp [ht]
  have hclose : significant ts = (l :: inner) ++ r :: vs := by rw [h, hus]; simp
  have hcompact : compactText us = '(' :: (compactText inner ++ [')']) := by
    obtain ⟨hlne, -, _, hlstays, -⟩ :=
      @exists_stays script ts [] (inner ++ [r] ++ vs) l hts (by rw [h, hus]; rfl)
    obtain ⟨hrne, -, _, hrstays, -⟩ := exists_stays hts hclose
    rw [hus]
    exact compactText_between inner hl hr ((Token.text_of_paren hlne hlstays).1 hl)
      ((Token.text_of_paren hrne hrstays).2 hr)
  have hbetween : us.tail.dropLast = inner := by rw [hus, List.tail_cons, List.dropLast_concat]
  have hhead : (us.head?.any fun t => t.kind = .leftParen) = true := by simp [hus, hl]
  rw [hcompact, Text.stripParens_between, recorded, losesParens, hhead, Bool.true_and, hbetween]
  split
  · have hinside : significant ts = [l] ++ (inner ++ r :: vs) := hclose
    have hfirst := isBlank_head?_spacedText fun t ht => hsharp t (hinner t ht)
    have hlast := isBlank_getLast?_spacedText hts hinside
    have hself : significant inner = inner :=
      List.filter_eq_self.mpr fun t ht => by simp [hsignificant t (hinner t ht)]
    rw [trim_compactText, hself]
    exact Text.trimWhere_of_ends hfirst hlast
  · rw [← hcompact, compactText_of_significant hsignificant, hus, ← List.cons_append,
      lastSpace_concat hr, List.append_nil]

end Column

end

/-! ## Reading the value back -/

namespace Column

/-- An expression that does not open a parenthesis has none to lose. -/
theorem faithful_iff_of_head {t : Token} {us : List Token} {value : Text}
    (ht : t.kind ≠ .leftParen) :
    Faithful (t :: us) value ↔ spellings (tokenize value) = spellings (t :: us) := by
  constructor
  · rintro ⟨vs, rfl | ⟨l, r, hl, -, hus⟩, h⟩
    · exact h
    · rw [(List.cons.inj hus).1] at ht
      exact absurd hl ht
  · exact fun h => ⟨t :: us, .inl rfl, h⟩

theorem faithful_group_iff {l r : Token} {inner : List Token} (hl : l.kind = .leftParen)
    (htext : l.text = ['(']) (hr : r.kind = .rightParen)
    (hsharp : ∀ t ∈ l :: (inner ++ [r]), t.Sharp) :
    Faithful (l :: (inner ++ [r])) (spacedText (recorded (l :: (inner ++ [r])))) ↔
      keptApart (recorded (l :: (inner ++ [r]))) := by
  have hinner : ∀ t ∈ inner, t.Sharp := fun t ht => hsharp t (by simp [ht])
  unfold recorded
  split
  · rw [List.tail_cons, List.dropLast_concat, ← spellings_spacedText_iff hinner]
    constructor
    · rintro ⟨vs, rfl | ⟨l', r', -, -, hus⟩, h⟩
      · exact absurd h (@spellings_spacedText_ne [l] inner [] r hsharp)
      · obtain rfl : inner = vs := (List.append_inj' (List.cons.inj hus).2 rfl).1
        exact h
    · exact fun h => ⟨inner, .inr ⟨l, r, hl, hr, rfl⟩, h⟩
  · rw [← spellings_spacedText_iff hsharp]
    constructor
    · rintro ⟨vs, rfl | ⟨l', r', -, -, hus⟩, h⟩
      · exact h
      · obtain rfl : inner = vs := (List.append_inj' (List.cons.inj hus).2 rfl).1
        have hspaced : spacedText (l :: (inner ++ [r])) = '(' :: spacedText (inner ++ [r]) := by
          rw [spacedText, spaceAfter, hl, htext]
          rfl
        rw [hspaced] at h
        exact absurd h (spellings_ne_of_leftParen (fun t ht => (hinner t ht).significant) [r])
    · exact fun h => ⟨_, .inl rfl, h⟩

section
variable {script : Text} {ts us vs : List Token}

theorem faithful_group (hts : ts <:+: tokenize script) (hgroup : IsGroup us)
    (h : significant ts = us ++ vs) :
    Faithful us (defaultOf ts) ↔ isDirect us ∧ keptApart (recorded us) := by
  obtain ⟨l, inner, r, hus, hl, hr⟩ := hgroup.exists_between
  have hdirect : isDirect us := by
    rw [hus]
    cases inner <;> simp [isDirect, hl]
  obtain ⟨hne, -, _, hstays, -⟩ :=
    @exists_stays script ts [] (inner ++ [r] ++ vs) l hts (by rw [h, hus]; rfl)
  rw [defaultOf_group hgroup h, stripParens_compactText hts hl hr hus h, hdirect]
  simp only [true_and]
  rw [hus]
  exact faithful_group_iff hl ((Token.text_of_paren hne hstays).1 hl) hr
    (hus ▸ sharp_of_mem hts h)

theorem faithful_call {t : Token} (hts : ts <:+: tokenize script) (ht : t.kind.isIdentifier)
    (hgroup : IsGroup us) (h : significant ts = t :: us ++ vs) :
    Faithful (t :: us) (defaultOf ts) ↔ isDirect (t :: us) ∧ keptApart (recorded (t :: us)) := by
  have hleft : t.kind ≠ .leftParen := ne_leftParen_of_namesFunction (by simp [namesFunction, ht])
  have hsharp := sharp_of_mem hts h
  obtain ⟨l, inner, r, hus, hl, hr⟩ := hgroup.exists_between
  have hdirect : isDirect (t :: us) := by simp [hus, isDirect, ht, hl]
  have hrecorded : recorded (t :: us) = t :: us := by simp [recorded, losesParens, hleft]
  have hvalue : defaultOf ts = spacedText (t :: us) := by
    rw [defaultOf_call ht hgroup h,
      compactText_of_significant fun u hu => (hsharp u hu).significant, hus, ← List.cons_append,
      ← List.cons_append, lastSpace_concat hr, List.append_nil]
  rw [faithful_iff_of_head hleft, hvalue, spellings_spacedText_iff hsharp, hdirect, hrecorded]
  simp

theorem faithful_single {t u : Token} (hts : ts <:+: tokenize script)
    (ht : namesFunction t.kind) (hcall : (t.kind.isIdentifier && u.kind = .leftParen) = false)
    (h : significant ts = t :: u :: us ++ vs) :
    Faithful (t :: u :: us) (defaultOf ts) ↔
      isDirect (t :: u :: us) ∧ keptApart (recorded (t :: u :: us)) := by
  have hleft := ne_leftParen_of_namesFunction ht
  have hdirect : isDirect (t :: u :: us) = false := by simp [isDirect, hleft, hcall]
  have hvalue : defaultOf ts = spacedText [t] := by
    rw [defaultOf_single ht hcall h]
    simp [spacedText, spaceAfter]
  rw [faithful_iff_of_head hleft, hvalue, hdirect]
  simp only [Bool.false_eq_true, false_and, iff_false]
  exact @spellings_spacedText_ne [] [t] us u (sharp_of_mem hts h)

/-- The value that is read for an expression has its tokens if and only if the expression is taken
in as a whole, and its tokens stay apart without the space between them. -/
theorem faithful_defaultOf_iff (hts : ts <:+: tokenize script) (hus : IsExpression us)
    (h : significant ts = us ++ vs) :
    Faithful us (defaultOf ts) ↔ isDirect us ∧ keptApart (recorded us) := by
  cases hus with
  | group hgroup => exact faithful_group hts hgroup h
  | @call name us hname hgroup =>
      obtain ⟨l, inner, r, hus, hl, hr⟩ := hgroup.exists_between
      cases hname with
      | @plain t ht =>
          cases hid : t.kind.isIdentifier with
          | true => exact faithful_call hts hid hgroup h
          | false =>
              rw [hus] at h ⊢
              exact faithful_single hts ht (by rw [hid]; rfl) h
      | @qualified q dot name hq hdot hname =>
          exact faithful_single hts (by simp [namesFunction, hq]) (by simp [hdot]) h

end

/-- A default that is a group or a call is recorded faithfully if and only if it is taken in as a
whole and its tokens stay apart without the space between them. -/
theorem default_faithful_iff {d : Dialect} (hd : ∀ s, d.mapDefault s = s) {script : Text}
    {ts us expr rest : List Token} (hts : ts <:+: tokenize script) (t : Token)
    (hdefault : lastDefault? d (afterType d ts) = some us)
    (hus : significant us = expr ++ rest) (hexpr : IsExpression expr) :
    ∃ value, (define d t ts).1.type.defaultValue = some value ∧
      (Faithful expr value ↔ isDirect expr ∧ keptApart (recorded expr)) := by
  have hslice : us <:+: tokenize script :=
    ((lastDefault?_isSuffix hdefault).trans (afterType_isSuffix d ts)).isInfix.trans hts
  refine ⟨defaultOf us, ?_, faithful_defaultOf_iff hslice hexpr hus⟩
  rw [defaultValue_define, hdefault, Option.map_some, hd]

/-- Writes types and defaults as they are. -/
def verbatim : Dialect := { name := "verbatim", mapType := fun name _ => name }

theorem default_faithful_iff_sum :
    let ts := tokenize "c int DEFAULT (a + f(2)) NOT NULL".toList
    let expr := (significant ts).extract 3 11
    ∃ us rest, lastDefault? verbatim (afterType verbatim ts.tail) = some us ∧
      significant us = expr ++ rest ∧ IsExpression expr ∧
      ∃ t ∈ ts.head?, ∃ value, (define verbatim t ts.tail).1.type.defaultValue = some value ∧
        Faithful expr value := by
  intro ts expr
  have hchecks : lastDefault? verbatim (afterType verbatim ts.tail) = some (ts.drop 5) ∧
      significant (ts.drop 5) = expr ++ (significant ts).drop 11 ∧
      (isDirect expr ∧ keptApart (recorded expr)) ∧ IsGroup expr ∧ ts.head?.isSome := by
    decide +kernel
  obtain ⟨hdefault, hsplit, hkept, hgroup, hsome⟩ := hchecks
  obtain ⟨t, ht⟩ := Option.isSome_iff_exists.mp hsome
  refine ⟨_, _, hdefault, hsplit, .group hgroup, t, ht, ?_⟩
  obtain ⟨value, hvalue, hiff⟩ := default_faithful_iff (fun _ => rfl)
    (List.tail_suffix ts).isInfix t hdefault hsplit (.group hgroup)
  exact ⟨value, hvalue, hiff.mpr hkept⟩

/-- The words of `(a AND b)` are recorded as one. -/
theorem default_merges_words :
    let ts := tokenize "c int DEFAULT (a AND b)".toList
    let expr := (significant ts).drop 3
    IsExpression expr ∧ (ts.head?.map fun t => (define verbatim t ts.tail).1.type.defaultValue) =
      some (some "aANDb".toList) ∧ ¬ Faithful expr "aANDb".toList := by
  intro ts expr
  have hchecks : IsGroup expr ∧
      (ts.head?.map fun t => (define verbatim t ts.tail).1.type.defaultValue) =
        some (some "aANDb".toList) ∧
      spellings (tokenize "aANDb".toList) ≠ spellings expr ∧
      spellings (tokenize "aANDb".toList) ≠ spellings expr.tail.dropLast := by decide +kernel
  obtain ⟨hgroup, hvalue, hwhole, hinner⟩ := hchecks
  refine ⟨.group hgroup, hvalue, ?_⟩
  rintro ⟨vs, rfl | ⟨l, r, -, -, hexpr⟩, h⟩
  · exact hwhole h
  · rw [hexpr, List.tail_cons, List.dropLast_concat] at hinner
    exact hinner h

end Column

end SqlMigration
