import SqlMigration.Proofs.Batch.Tagless
import SqlMigration.Proofs.Batch.Termination

/-! # Dynamic SQL between dollar signs

The statements of a string are put between two tags, and the target takes the first tag that comes
again for the end of the string. So the string holds what it should if the converted statements hold
no tag. The conversion puts tags only around the strings that the statements run themselves.
-/

namespace SqlMigration

/-! ## Reading a string between dollar signs -/

namespace Text

/-- The text before the first occurrence of a tag and the text after it. -/
def untilTag? (tag : Text) : Text → Option (Text × Text)
  | [] => none
  | c :: s =>
      if tag <+: c :: s then some ([], (c :: s).drop tag.length)
      else (untilTag? tag s).map fun parts => (c :: parts.1, parts.2)

/-- The tag that a text starts with: a name between two dollar signs. -/
def openingTag? : Text → Option Text
  | '$' :: s => (untilTag? ['$'] s).map fun parts => '$' :: parts.1 ++ ['$']
  | _ => none

/-- What the string between dollar signs at the head of a text holds, and the text after it. -/
def dollarString? (s : Text) : Option (Text × Text) :=
  (openingTag? s).bind fun tag => untilTag? tag (s.drop tag.length)

/-- No occurrence of a tag comes before the one that is found. -/
theorem length_le_of_untilTag? {tag s a b a' b' : Text} (h : untilTag? tag s = some (a, b))
    (hs : s = a' ++ tag ++ b') : a.length ≤ a'.length := by
  induction s generalizing a a' with
  | nil => cases h
  | cons c s ih =>
      rw [untilTag?] at h
      split at h
      · cases h
        exact Nat.zero_le _
      · rename_i htag
        obtain ⟨⟨a, b⟩, hrest, hparts⟩ := Option.map_eq_some_iff.mp h
        cases hparts
        cases a' with
        | nil => exact absurd ⟨b', hs.symm⟩ htag
        | cons d a' =>
            obtain ⟨-, rfl⟩ := List.cons.inj hs
            exact Nat.succ_le_succ (ih hrest rfl)

/-- The tag is found at its first occurrence. -/
theorem untilTag?_eq_some {tag a b : Text} (htag : tag ≠ [])
    (hfirst : ∀ a' b', a ++ tag ++ b = a' ++ tag ++ b' → a.length ≤ a'.length) :
    untilTag? tag (a ++ tag ++ b) = some (a, b) := by
  induction a with
  | nil =>
      obtain ⟨c, tag, rfl⟩ := List.exists_cons_of_ne_nil htag
      rw [List.nil_append, List.cons_append, untilTag?, ← List.cons_append,
        if_pos (List.prefix_append _ _), List.drop_left]
  | cons c a ih =>
      have hrest : ∀ a' b', a ++ tag ++ b = a' ++ tag ++ b' → a.length ≤ a'.length := by
        intro a' b' heq
        have hle := hfirst (c :: a') b' (by simp [← heq])
        simpa using hle
      rw [List.cons_append, List.cons_append, untilTag?, if_neg, ih hrest]
      · rfl
      · rintro ⟨r, hr⟩
        have hle := hfirst [] r (by simpa using hr.symm)
        simp at hle

/-- Whether a tag that follows the text makes a string close before it: the tag stands in the text,
or the text ends with all of it but its last dollar sign. -/
def ClosesEarly (s : Text) : Prop := "$exec$".toList <:+: s ∨ "$exec".toList <:+ s

/-- An occurrence of the tag that starts in a text before it lies in the text, or else the two share
a dollar sign. -/
theorem closesEarly_of_eq_append {s rest a b : Text}
    (h : s ++ "$exec$".toList ++ rest = a ++ "$exec$".toList ++ b) (hlt : a.length < s.length) :
    ClosesEarly s := by
  rw [List.append_assoc, List.append_assoc] at h
  obtain ⟨c, rfl, -⟩ | ⟨c, rfl, hc⟩ := List.append_eq_append_iff.mp h
  · rw [List.length_append] at hlt
    omega
  -- The tag starts with `c`, the part of `s` behind `a`. Only all of `$exec` can be followed by
  -- another tag and still start with one.
  match c, hc with
  | [], _ => simp at hlt
  | [_], hc | [_, _], hc | [_, _, _], hc | [_, _, _, _], hc => simp at hc
  | [_, _, _, _, _], hc =>
      obtain ⟨rfl, rfl, rfl, rfl, rfl, -⟩ := by simpa using hc
      exact .inr (List.suffix_append a _)
  | _ :: _ :: _ :: _ :: _ :: _ :: c, hc =>
      obtain ⟨rfl, rfl, rfl, rfl, rfl, rfl, -⟩ := by simpa using hc
      exact .inl ⟨a, c, by simp⟩

/-- A string that starts with the tag goes on until the tag comes again. -/
theorem dollarString?_append (s : Text) :
    dollarString? ("$exec$".toList ++ s) = untilTag? "$exec$".toList s := rfl

theorem dollarString?_dollarQuoted (s rest : Text) :
    dollarString? (Batch.dollarQuoted s ++ rest) = some (s, rest) ↔ ¬ ClosesEarly s := by
  have hquoted : Batch.dollarQuoted s ++ rest =
      "$exec$".toList ++ (s ++ "$exec$".toList ++ rest) := by
    unfold Batch.dollarQuoted
    generalize "$exec$".toList = tag
    simp only [List.append_assoc]
  rw [hquoted, dollarString?_append]
  constructor
  · rintro hfirst (⟨a, b, rfl⟩ | ⟨a, rfl⟩)
    · have hinside : a ++ "$exec$".toList ++ b ++ "$exec$".toList ++ rest =
          a ++ "$exec$".toList ++ (b ++ "$exec$".toList ++ rest) := by simp
      have hle := length_le_of_untilTag? hfirst hinside
      rw [List.length_append, List.length_append] at hle
      have htag : 0 < "$exec$".toList.length := by decide
      omega
    · have hshared : a ++ "$exec".toList ++ "$exec$".toList ++ rest =
          a ++ "$exec$".toList ++ ("exec$".toList ++ rest) := by simp
      have hle := length_le_of_untilTag? hfirst hshared
      rw [List.length_append] at hle
      have htag : 0 < "$exec".toList.length := by decide
      omega
  · intro hearly
    apply untilTag?_eq_some (by decide)
    intro a b heq
    by_contra hlt
    exact hearly (closesEarly_of_eq_append heq (Nat.lt_of_not_le hlt))

/-- No tag stands in a tagless text. -/
theorem not_closesEarly_of_tagless {s : Text} (h : tagless s) : ¬ ClosesEarly s := by
  rintro (⟨a, b, rfl⟩ | hsuffix)
  · rw [List.append_assoc] at h
    have htag := tagless_of_isSuffix (List.suffix_append a _) h
    cases htag
  · have htag := tagless_of_isSuffix hsuffix h
    cases htag

end Text

/-! ## Statements that run strings -/

namespace Pattern

variable {p : Pattern} {ts : List Token} {c : Captures} {n : Nat}

/-- A step that looks at one token fits whatever comes after the list. -/
theorem matchStep_append {s : Step} (hs : s.capture = .nothing ∨ s.capture = .raw)
    (h : p.matchStep s ts = .ok (c, n)) (us : List Token) :
    p.matchStep s (ts ++ us) = .ok (c, n) ∧ n ≤ ts.length := by
  simp only [matchStep] at h ⊢
  split at h
  · cases h
  · rename_i t rest hdrop
    have hlength : (ts.takeWhile p.skips).length < ts.length := by
      have hrest := congrArg List.length hdrop
      rw [List.length_drop, List.length_cons] at hrest
      omega
    have hgap : (ts ++ us).takeWhile p.skips = ts.takeWhile p.skips := by
      rw [List.takeWhile_append, if_neg hlength.ne]
    rw [hgap, List.drop_append_of_le_length hlength.le, hdrop]
    simp only [List.cons_append]
    split at h
    · rename_i hkind
      rw [if_pos hkind]
      rcases hs with hs | hs
      · simp only [hs] at h ⊢
        cases h
        exact ⟨rfl, hlength⟩
      · simp only [hs] at h ⊢
        cases h
        exact ⟨rfl, hlength⟩
    · cases h

theorem matchSteps_append {steps : List Step}
    (hs : ∀ s ∈ steps, s.capture = .nothing ∨ s.capture = .raw)
    (h : p.matchSteps steps ts = .ok (c, n)) (us : List Token) :
    p.matchSteps steps (ts ++ us) = .ok (c, n) := by
  induction steps generalizing ts c n with
  | nil =>
      cases h
      rfl
  | cons s steps ih =>
      obtain ⟨hstep, hsteps⟩ := List.forall_mem_cons.mp hs
      rw [matchSteps] at h ⊢
      split at h
      · cases h
      · rename_i c₁ n₁ hfirst
        obtain ⟨hfirst', hle⟩ := matchStep_append hstep hfirst us
        split at h
        · cases h
        · rename_i c₂ n₂ hrest
          cases h
          simp only [hfirst', List.drop_append_of_le_length hle, ih hsteps hrest]

theorem run?_append (htail : p.tail = [])
    (hs : ∀ s ∈ p.steps, s.capture = .nothing ∨ s.capture = .raw)
    (h : p.run? ts = some (c, n)) (us : List Token) : p.run? (ts ++ us) = some (c, n) := by
  simp only [run?, run, matchTail_of_tail_eq_nil htail] at h ⊢
  split at h
  · cases h
  · rename_i hne
    rw [if_neg (by simp_all)]
    split at h
    · cases h
    · rename_i c' n' hsteps
      rw [matchSteps_append hs hsteps us]
      exact h

end Pattern

namespace DynamicSql

/-- A statement that runs a string does so whatever comes after it. -/
theorem stringArgument?_append {ts : List Token} {sql : Text} (h : stringArgument? ts = some sql)
    (us : List Token) : stringArgument? (ts ++ us) = some sql := by
  obtain ⟨literal, harg, hbody⟩ := Option.bind_eq_some_iff.mp h
  obtain ⟨⟨c, n⟩, hrun, hhead⟩ := Option.bind_eq_some_iff.mp harg
  have hrun' := Pattern.run?_append rfl (by simp [argumentPattern, Step.kind]) hrun us
  simp only [stringArgument?, argument?, hrun', Option.bind_some]
  simp only [hhead, Option.bind_some, hbody]

/-- Whether a string is run somewhere in the list. -/
def runsString : List Token → Bool
  | [] => false
  | t :: ts => (stringArgument? (t :: ts)).isSome || runsString ts

theorem runsString_eq_false {ts us : List Token} (h : us <:+: ts) (hts : runsString ts = false) :
    runsString us = false := by
  obtain ⟨before, after, rfl⟩ := h
  rw [List.append_assoc] at hts
  induction before with
  | cons t before ih => exact ih (Bool.or_eq_false_iff.mp hts).2
  | nil =>
      induction us with
      | nil => rfl
      | cons t us ih =>
          obtain ⟨hstring, hrest⟩ := Bool.or_eq_false_iff.mp hts
          refine Bool.or_eq_false_iff.mpr ⟨?_, ih hrest⟩
          cases hus : stringArgument? (t :: us) with
          | none => rfl
          | some sql =>
              have hlonger := stringArgument?_append hus after
              rw [List.cons_append] at hlonger
              simp [hlonger] at hstring

end DynamicSql

namespace Batch

open Text

variable {s : Setting}

/-- Every result of the conversion satisfies `p`. -/
def Yields {α : Type} (p : α → Prop) (m : ConvertM α) : Prop :=
  ∀ declared result, m.run declared = some result → p result.1

namespace Yields

variable {α β : Type} {p : α → Prop} {q : β → Prop}

theorem pure {a : α} (h : p a) : Yields p (pure a) := by
  intro declared result hrun
  cases hrun
  exact h

theorem bind {m : ConvertM α} {f : α → ConvertM β} (hm : Yields p m)
    (hf : ∀ a, p a → Yields q (f a)) : Yields q (m >>= f) := by
  intro declared result hrun
  rw [StateT.run_bind] at hrun
  obtain ⟨⟨a, after⟩, hfirst, hrest⟩ := Option.bind_eq_some_iff.mp hrun
  exact hf a (hm declared _ hfirst) after result hrest

theorem failure : Yields p failure := by
  intro declared result hrun
  cases hrun

end Yields

/-- The conversion writes no tags. -/
abbrev Untagged (m : ConvertM Text) : Prop := Yields (fun text => tagless text) m

section
variable {convert : List Token → ConvertM Text} {t : Token} {ts : List Token}

theorem untagged_declare (hts : ∀ u ∈ ts, u.text.tagless) : Untagged (declare s ts) := by
  unfold declare
  split
  rename_i declarations n hlist
  split
  · exact .pure (tagless_joinText hts)
  · refine Yields.bind (p := fun _ => True) (fun _ _ _ => trivial) fun _ _ => .pure ?_
    have hdeclared : ∀ d ∈ declarations, d.Tagless := by
      have hall := Declaration.tagless_list (d := s.dialect)
        fun u hu => hts u (List.mem_of_mem_tail hu)
      rwa [hlist] at hall
    apply tagless_append (tagless_assignments hdeclared)
    split
    · rfl
    · exact Expression.tagless_emit fun u hu => hts u (List.mem_of_mem_drop hu)

/-- A statement that runs a variable, or is copied. -/
theorem untagged_exec (hts : ∀ u ∈ ts, u.text.tagless)
    (hstring : DynamicSql.stringArgument? ts = none) : Untagged (exec s convert ts) := by
  unfold exec
  rw [hstring]
  cases hvariable : DynamicSql.variableArgument? ts with
  | none => exact .pure (Expression.tagless_emit hts)
  | some name =>
      obtain ⟨⟨c, n⟩, hrun, hhead⟩ := Option.bind_eq_some_iff.mp hvariable
      have hname := (Pattern.tagless_run? Dialect.tagless_postgres hts hrun).values name
        (List.mem_of_mem_head? hhead)
      exact .pure (tagless_append (tagless_append (by decide) (Name.tagless_ofVariable hname)) rfl)

variable (hts : ∀ u ∈ ts, u.text.tagless) (h : ∀ us, us <:+: ts → Untagged (convert us))
include hts h

theorem untagged_branch : Untagged (branch convert ts) := by
  have hemit := tagless_trim (Expression.tagless_emit hts)
  unfold branch
  by_cases hbegin : firstKeyword? ts = some .BEGIN
  · simp only [hbegin, if_true]
    cases ts with
    | nil => cases hbegin
    | cons t ts =>
        cases hblock : Statement.blockInside? (t :: ts) with
        | none => exact .pure hemit
        | some block =>
            obtain ⟨inner, n⟩ := block
            have hinner := (Statement.infix_of_blockInside? hblock).1
            have hpart : inner <:+: t :: ts := hinner.trans (List.suffix_cons t ts).isInfix
            exact (h inner hpart).bind fun _ htext => .pure (tagless_trim htext)
  · simp only [hbegin, if_false]
    exact (h ts List.infix_rfl).bind fun _ htext => .pure (tagless_trim htext)

theorem untagged_conditional (ht : t.text.tagless) {form : ConditionalForm}
    (hform : [form.keyword, form.opening, form.closing].all fun word => tagless word.toList) :
    Untagged (conditional convert form (t :: ts)) := by
  have hbody : ∀ u ∈ t :: ts, u.text.tagless := List.forall_mem_cons.mpr ⟨ht, hts⟩
  have hbranch {us : List Token} (hus : us <:+: ts) : Untagged (branch convert us) :=
    untagged_branch (fun u hu => hts u (hus.subset hu)) fun vs hvs => h vs (hvs.trans hus)
  have hfirst := Statement.infix_of_conditional t ts
  have hrest := Statement.suffix_of_conditional t ts
  simp only [List.all_cons, List.all_nil, Bool.and_true, Bool.and_eq_true] at hform
  obtain ⟨hkeyword, hopening, hclosing⟩ := hform
  unfold conditional
  dsimp only
  refine (hbranch hfirst).bind fun first hfirst => ?_
  have hcondition (n m : Nat) :
      tagless (Expression.emit (((t :: ts).take n).take m).tail).trim := by
    refine tagless_trim (Expression.tagless_emit fun u hu => hbody u ?_)
    exact List.mem_of_mem_take (List.mem_of_mem_take (List.mem_of_mem_tail hu))
  have hreturn (n m : Nat) (second : Text) (hsecond : tagless second) :
      Untagged (Pure.pure (form.keyword.toList ++
        ' ' :: (Expression.emit (((t :: ts).take n).take m).tail).trim ++
        ' ' :: form.opening.toList ++ ['\n'] ++ first ++ second ++
          '\n' :: form.closing.toList)) := by
    have hhead := tagless_append hkeyword (tagless_append (s := [' ']) rfl (hcondition n m))
    have hopen := tagless_append hhead (tagless_append (s := [' ']) rfl hopening)
    have hline := tagless_append hopen (by decide : tagless ['\n'])
    have hbranches := tagless_append (tagless_append hline hfirst) hsecond
    exact .pure (tagless_append hbranches (tagless_append (s := ['\n']) rfl hclosing))
  generalize (t :: ts).drop (Statement.conditionalLength (t :: ts)) = rest at hrest ⊢
  split
  · have htail : (skipTrivia rest).tail <:+ ts :=
      ((List.tail_suffix _).trans (List.dropWhile_suffix _)).trans hrest
    refine (hbranch htail.isInfix).bind fun text htext => ?_
    have helse : Untagged (Pure.pure ("\nELSE\n".toList ++ text)) :=
      .pure (tagless_append (by decide) htext)
    exact helse.bind (hreturn _ _)
  split
  · have hnothing : Untagged (Pure.pure []) := .pure rfl
    exact hnothing.bind (hreturn _ _)
  · exact (h rest hrest.isInfix).bind (hreturn _ _)

theorem untagged_block (ht : t.text.tagless) : Untagged (block convert (t :: ts)) := by
  have hbody : ∀ u ∈ t :: ts, u.text.tagless := List.forall_mem_cons.mpr ⟨ht, hts⟩
  unfold block
  cases hblock : Statement.blockInside? (t :: ts) with
  | none => exact .pure (Expression.tagless_emit hbody)
  | some block =>
      obtain ⟨inner, n⟩ := block
      obtain ⟨hinner, hrest⟩ := Statement.infix_of_blockInside? hblock
      dsimp only
      refine (h inner hinner).bind fun text htext => ?_
      have hreturn (after : Text) (hafter : tagless after) :
          Untagged (Pure.pure ("BEGIN".toList ++ text.trimEnd ++ "\nEND;".toList ++ after)) := by
        have hbegin := tagless_append (by decide : tagless "BEGIN".toList) (tagless_trimEnd htext)
        exact .pure (tagless_append (tagless_append hbegin (by decide)) hafter)
      split
      · have hnothing : Untagged (Pure.pure []) := .pure rfl
        exact hnothing.bind hreturn
      · exact (h _ hrest.isInfix).bind hreturn

end

/-- A piece without tags that runs no string is converted without tags, if what stands inside it
is. -/
theorem untagged_statement (hs : s.dialect.Tagless) {convert : List Token → ConvertM Text}
    {piece : List Token} (hpiece : ∀ u ∈ piece, u.text.tagless)
    (hstring : DynamicSql.runsString piece = false)
    (h : ∀ us, us <:+: piece → Untagged (convert us)) : Untagged (statement s convert piece) := by
  have hlead : tagless (joinText (piece.take (triviaLength piece))) :=
    tagless_joinText fun u hu => hpiece u (List.mem_of_mem_take hu)
  unfold statement
  cases hbody : skipTrivia piece with
  | nil => exact .pure hlead
  | cons t ts =>
      have hsuffix : t :: ts <:+ piece := hbody ▸ List.dropWhile_suffix _
      have hts : ∀ u ∈ t :: ts, u.text.tagless := fun u hu => hpiece u (hsuffix.subset hu)
      obtain ⟨ht, htail⟩ := List.forall_mem_cons.mp hts
      have hpart : ∀ us, us <:+: ts → Untagged (convert us) := fun us hus =>
        h us (hus.trans ((List.suffix_cons t ts).trans hsuffix).isInfix)
      have hexec : Untagged (exec s convert (t :: ts)) := by
        apply untagged_exec hts
        have hruns := DynamicSql.runsString_eq_false hsuffix.isInfix hstring
        simpa using (Bool.or_eq_false_iff.mp hruns).1
      have hreturn {m : ConvertM Text} (hm : Untagged m) :
          Untagged (m >>= fun text =>
            Pure.pure (joinText (piece.take (triviaLength piece)) ++ text)) :=
        hm.bind fun _ htext => .pure (tagless_append hlead htext)
      dsimp only
      split
      · exact hreturn (.pure (tagless_alter hts hs))
      · exact hreturn hexec
      · exact hreturn hexec
      · exact hreturn (untagged_declare hts)
      · exact hreturn (.pure (tagless_set hts))
      · exact hreturn (untagged_conditional htail hpart ht (by decide))
      · exact hreturn (untagged_conditional htail hpart ht (by decide))
      · split
        · exact hreturn (.pure (Query.tagless_query hts))
        · exact hreturn (untagged_block htail hpart ht)
      · exact hreturn (.pure rfl)
      · exact hreturn (.pure (Query.tagless_query hts))

theorem untagged_convertWithin (hs : s.dialect.Tagless) {ts : List Token}
    (hts : ∀ u ∈ ts, u.text.tagless) (hstring : DynamicSql.runsString ts = false) (depth : Nat) :
    Untagged (convertWithin s depth ts) := by
  induction depth generalizing ts with
  | zero => exact .failure
  | succ depth ih =>
      have hpart {us : List Token} (hus : us <:+: ts) :
          (∀ u ∈ us, u.text.tagless) ∧ DynamicSql.runsString us = false :=
        ⟨fun u hu => hts u (hus.subset hu), DynamicSql.runsString_eq_false hus hstring⟩
      cases ts with
      | nil => exact .pure rfl
      | cons t ts =>
          rw [convertWithin]
          generalize Statement.pieceLength s.lexer (t :: ts) - 1 = n
          have hpiece : t :: ts.take n <:+: t :: ts := (List.take_prefix (n + 1) (t :: ts)).isInfix
          have hrest : ts.drop n <:+: t :: ts :=
            ((List.drop_suffix n ts).trans (List.suffix_cons t ts)).isInfix
          refine (untagged_statement hs (hpart hpiece).1 (hpart hpiece).2 ?_).bind
            fun text htext => ?_
          · intro us hus
            have hus := hpart (hus.trans hpiece)
            exact ih hus.1 hus.2
          · refine (ih (hpart hrest).1 (hpart hrest).2).bind fun rest hrest => .pure ?_
            exact tagless_append htext hrest

/-- Whether statements can be put between tags: no dollar sign in them is part of a tag, and they
run no strings themselves. -/
def isQuotable (lexer : StatementLexer) (sql : Text) : Bool :=
  match lexer.lex sql with
  | .ok ts => (ts.all fun t => t.text.tagless) && !DynamicSql.runsString ts
  | .error _ => sql.tagless

/-- The converted statements of a string hold no tag if they are quotable. -/
theorem exists_exec_string (hlexer : s.lexer.Lossless) (hdialect : s.dialect.Tagless)
    {body : List Token} {sql : Text} (hvariable : DynamicSql.variableArgument? body = none)
    (hstring : DynamicSql.stringArgument? body = some sql) {depth : Nat}
    (hdepth : sql.length < depth) (declared : List Variable) :
    ∃ text after,
      (exec s (convertWithin s depth) body).run declared =
        some ("EXECUTE ".toList ++ dollarQuoted text.trim ++ [';'], after) ∧
      (isQuotable s.lexer sql → tagless text) := by
  cases hlex : s.lexer.lex sql with
  | error e =>
      refine ⟨sql, declared, ?_, fun hquotable => ?_⟩
      · simp only [exec, hvariable, hstring, hlex]
        rfl
      · simpa [isQuotable, hlex] using hquotable
  | ok ts =>
      have hlength : (joinText ts).length < depth := by rwa [hlexer.joined hlex]
      have hends := (convertWithin_ends hlexer (hlexer.nonempty hlex) hlength hlength).2
      obtain ⟨⟨text, after⟩, hrun⟩ := Option.isSome_iff_exists.mp (hends declared)
      refine ⟨text, after, ?_, fun hquotable => ?_⟩
      · simp only [exec, hvariable, hstring, hlex, StateT.run_bind, hrun]
        rfl
      · simp only [isQuotable, hlex, Bool.and_eq_true, List.all_eq_true, Bool.not_eq_true']
          at hquotable
        exact untagged_convertWithin hdialect hquotable.1 hquotable.2 depth declared _ hrun

/-- The statements in a string are run from a string between dollar signs. The target reads that
string up to its last tag, and so gets the converted statements whole, exactly if no tag in them
closes it earlier. That never happens to statements that are quotable. -/
theorem exec_string_closes (hlexer : s.lexer.Lossless) (hdialect : s.dialect.Tagless)
    {body : List Token} {sql : Text} (hvariable : DynamicSql.variableArgument? body = none)
    (hstring : DynamicSql.stringArgument? body = some sql) {depth : Nat}
    (hdepth : sql.length < depth) (declared : List Variable) :
    ∃ inner after,
      (exec s (convertWithin s depth) body).run declared =
        some ("EXECUTE ".toList ++ dollarQuoted inner ++ [';'], after) ∧
      (dollarString? (dollarQuoted inner ++ [';']) = some (inner, [';']) ↔ ¬ ClosesEarly inner) ∧
      (isQuotable s.lexer sql → ¬ ClosesEarly inner) := by
  obtain ⟨text, after, hrun, htagless⟩ :=
    exists_exec_string hlexer hdialect hvariable hstring hdepth declared
  refine ⟨text.trim, after, hrun, dollarString?_dollarQuoted _ _, fun hquotable => ?_⟩
  exact not_closesEarly_of_tagless (tagless_trim (htagless hquotable))

/-- A conditional in a string, with an amount of money and a path in another string. -/
theorem exec_string_closes_conditional :
    let body := tokenize "EXEC(N'IF @a > $1.50 EXEC(@b) ELSE UPDATE t SET c = ''$.d''')".toList
    let sql := "IF @a > $1.50 EXEC(@b) ELSE UPDATE t SET c = '$.d'".toList
    DynamicSql.variableArgument? body = none ∧ DynamicSql.stringArgument? body = some sql ∧
      isQuotable .tsql sql ∧
      ∃ inner after,
        (exec {} (convertWithin {} 60) body).run [] =
          some ("EXECUTE ".toList ++ dollarQuoted inner ++ [';'], after) ∧
        dollarString? (dollarQuoted inner ++ [';']) = some (inner, [';']) := by
  intro body sql
  have hvariable : DynamicSql.variableArgument? body = none := by decide +kernel
  have hstring : DynamicSql.stringArgument? body = some sql := by decide +kernel
  have hquotable : isQuotable .tsql sql := by decide +kernel
  obtain ⟨inner, after, hrun, hreads, hclosed⟩ := exec_string_closes (s := {})
    StatementLexer.lossless_tsql Dialect.tagless_postgres hvariable hstring
    (by decide : sql.length < 60) []
  exact ⟨hvariable, hstring, hquotable, inner, after, hrun, hreads.mpr (hclosed hquotable)⟩

/-- A string that is run inside a string has the same tag, so that the outer string ends where the
inner one starts. -/
theorem exec_nested_string_closes_early :
    let body := tokenize "EXEC('EXEC(''EXEC(@sql)'')')".toList
    let inner := "EXECUTE $exec$EXECUTE sql;$exec$;".toList
    (exec {} (convertWithin {} 20) body).run [] =
        some ("EXECUTE ".toList ++ dollarQuoted inner ++ [';'], []) ∧
      dollarString? (dollarQuoted inner ++ [';']) =
        some ("EXECUTE ".toList, "EXECUTE sql;$exec$;$exec$;".toList) := by
  decide +kernel

end Batch

end SqlMigration
