import SqlMigration.Batch
import SqlMigration.Proofs.Alteration.Keys
import SqlMigration.Proofs.Statement.Union

/-! # What follows the argument of EXEC

A statement that runs a variable or a string is written from that argument alone. Nothing is lost
by this if only semicolons follow the argument in the statement. Where the statement ends is found
from the token after the argument, so this token decides whether something is lost.
-/

namespace SqlMigration

/-! ## Statements that run their argument -/

namespace DynamicSql

/-- The tokens from `EXEC` through the parenthesis after its argument `a`. -/
inductive Call : List Token → Token → Prop where
  | intro {e l a r : Token} {g₁ g₂ g₃ : List Token} (he : e.is .EXEC ∨ e.is .EXECUTE)
      (hl : l.kind = .leftParen) (ha : a.isTrivia = false) (hr : r.kind = .rightParen)
      (h₁ : ∀ t ∈ g₁, t.isTrivia) (h₂ : ∀ t ∈ g₂, t.isTrivia) (h₃ : ∀ t ∈ g₃, t.isTrivia) :
      Call (e :: (g₁ ++ l :: (g₂ ++ a :: (g₃ ++ [r])))) a

/-- Whether the argument is a variable, or a string with something in it to run. -/
def runs (a : Token) : Bool :=
  a.kind = .variable || (a.kind.isString && (literalBody? a.text).isSome)

/-- Whether the statement is written from its argument. -/
def runsArgument (body : List Token) : Bool :=
  (variableArgument? body).isSome || (stringArgument? body).isSome

end DynamicSql

namespace Pattern

variable {p : Pattern} {s : Step} {t : Token} {gap rest : List Token}

/-- A step looks at the first significant token. -/
theorem matchStep_gap (hp : p.keepComments = false) (hgap : ∀ t ∈ gap, t.isTrivia)
    (ht : t.isTrivia = false) (hs : s.capture = .nothing ∨ s.capture = .raw) :
    p.matchStep s (gap ++ t :: rest) =
      if s.kinds.contains t.kind then
        .ok ({ values := if s.capture = .raw then [t.text] else [] }, gap.length + 1)
      else .error gap.length := by
  rw [← skips_eq hp] at hgap ht
  simp only [matchStep_gap_append hgap ht, List.contains_iff_mem]
  rcases hs with hs | hs <;> simp [taken, hs]

theorem matchSteps_gap (hp : p.keepComments = false) (hgap : ∀ t ∈ gap, t.isTrivia)
    (ht : t.isTrivia = false) (hs : s.capture = .nothing ∨ s.capture = .raw)
    (steps : List Step) :
    (p.matchSteps (s :: steps) (gap ++ t :: rest)).toOption.map (·.1.values) =
      if s.kinds.contains t.kind then
        ((p.matchSteps steps rest).toOption.map (·.1.values)).map
          ((if s.capture = .raw then [t.text] else []) ++ ·)
      else none := by
  have hdrop : (gap ++ t :: rest).drop (gap.length + 1) = rest := drop_gap gap t rest 0
  rw [matchSteps, matchStep_gap hp hgap ht hs]
  by_cases hkind : s.kinds.contains t.kind
  · simp only [hkind, if_true, hdrop]
    cases p.matchSteps steps rest with
    | error n => rfl
    | ok r => rfl
  · simp only [hkind]
    rfl

/-- The texts that a pattern without a tail captures. -/
theorem map_values_run? {ts : List Token} (htail : p.tail = []) (hts : ts ≠ []) :
    (p.run? ts).map (·.1.values) = (p.matchSteps p.steps ts).toOption.map (·.1.values) := by
  have hempty : ts.isEmpty = false := by simpa using hts
  rw [run?, run, hempty]
  cases p.matchSteps p.steps ts with
  | error n => rfl
  | ok r =>
      simp only [matchTail_of_tail_eq_nil htail]
      show some (r.1.values ++ []) = some r.1.values
      rw [List.append_nil]

/-- The first significant token fits the first of the steps, and the rest fits the others. -/
theorem matchSteps_token {ts : List Token} {steps : List Step} {c : Captures} {n : Nat}
    (hp : p.keepComments = false) (hs : s.capture = .nothing ∨ s.capture = .raw)
    (h : p.matchSteps (s :: steps) ts = .ok (c, n)) :
    ∃ gap t rest c' n', ts = gap ++ t :: rest ∧ (∀ u ∈ gap, u.isTrivia) ∧ t.isTrivia = false ∧
      s.kinds.contains t.kind ∧ p.matchSteps steps rest = .ok (c', n') := by
  obtain ⟨c₁, n₁, c₂, n₂, hstep, hsteps, -⟩ := matchSteps_cons h
  obtain ⟨t, rest, hskip, hkind, hdrop⟩ := matchStep_token hp hstep
  obtain ⟨gap, hts, hgap, -, ht⟩ := eq_append_of_skipTrivia hskip
  have hrest : ts.drop n₁ = rest := by
    rcases hs with hs | hs <;> rw [hdrop, afterStep, hs]
  rw [hrest] at hsteps
  exact ⟨gap, t, rest, c₂, n₂, hts, hgap, ht, hkind, hsteps⟩

end Pattern

namespace DynamicSql

variable {call body : List Token} {a : Token} {kinds : List Kind}

theorem Call.eq_cons (h : Call call a) :
    ∃ e ts, call = e :: ts ∧ (e.is .EXEC ∨ e.is .EXECUTE) := by
  cases h with
  | intro he => exact ⟨_, _, rfl, he⟩

theorem argument?_eq {ts : List Token} (hts : ts ≠ []) :
    argument? kinds ts =
      ((((argumentPattern kinds).matchSteps (argumentPattern kinds).steps ts).toOption.map
        (·.1.values)).bind List.head?) := by
  have hrun : argument? kinds ts =
      ((argumentPattern kinds).run? ts).bind fun r => r.1.values.head? := rfl
  rw [hrun, ← Pattern.map_values_run? rfl hts, Option.bind_map]
  rfl

/-- Only the argument decides what is found, whatever follows it. -/
theorem argument?_append (h : Call call a) (kinds : List Kind) (rest : List Token) :
    argument? kinds (call ++ rest) = if kinds.contains a.kind then some a.text else none := by
  obtain ⟨he, hl, ha, hr, h₁, h₂, h₃⟩ := h
  rename_i e l r g₁ g₂ g₃
  have hexec : [Kind.keyword .EXEC, .keyword .EXECUTE].contains e.kind := by
    rcases he with he | he <;> rw [kind_of_is he] <;> rfl
  have he : e.isTrivia = false := he.elim isTrivia_of_is isTrivia_of_is
  have hlist : e :: (g₁ ++ l :: (g₂ ++ a :: (g₃ ++ [r]))) ++ rest =
      [] ++ e :: (g₁ ++ l :: (g₂ ++ a :: (g₃ ++ r :: rest))) := by simp
  rw [hlist, argument?_eq (by simp), argumentPattern,
    Pattern.matchSteps_gap rfl (by simp) he (.inl rfl),
    Pattern.matchSteps_gap rfl h₁ (isTrivia_of_kind hl rfl) (.inl rfl),
    Pattern.matchSteps_gap rfl h₂ ha (.inr rfl),
    Pattern.matchSteps_gap rfl h₃ (isTrivia_of_kind hr rfl) (.inl rfl)]
  simp only [hexec, hl, hr, Step.kind]
  by_cases hkind : a.kind ∈ kinds
  · simp [hkind, Pattern.matchSteps, Except.toOption]
  · simp [hkind]

/-- An argument that is found stands in parentheses after `EXEC`. -/
theorem exists_call {ts : List Token} (h : (argument? kinds ts).isSome) :
    ∃ gap call a rest, ts = gap ++ (call ++ rest) ∧ (∀ t ∈ gap, t.isTrivia) ∧ Call call a := by
  obtain ⟨text, htext⟩ := Option.isSome_iff_exists.mp h
  obtain ⟨⟨c, n⟩, hrun, -⟩ := Option.bind_eq_some_iff.mp htext
  obtain ⟨c', n', hsteps, -⟩ := Pattern.run?_eq_some hrun
  obtain ⟨g₀, e, r₁, _, _, rfl, h₀, -, he, hsteps⟩ := Pattern.matchSteps_token rfl (.inl rfl) hsteps
  obtain ⟨g₁, l, r₂, _, _, rfl, h₁, -, hl, hsteps⟩ := Pattern.matchSteps_token rfl (.inl rfl) hsteps
  obtain ⟨g₂, a, r₃, _, _, rfl, h₂, ha, -, hsteps⟩ := Pattern.matchSteps_token rfl (.inr rfl) hsteps
  obtain ⟨g₃, r, rest, _, _, rfl, h₃, -, hr, -⟩ := Pattern.matchSteps_token rfl (.inl rfl) hsteps
  have he : e.is .EXEC ∨ e.is .EXECUTE := by simpa [Token.is] using he
  have hl : l.kind = .leftParen := by simpa [Step.kind] using hl
  have hr : r.kind = .rightParen := by simpa [Step.kind] using hr
  exact ⟨g₀, _, a, rest, by simp, h₀, .intro he hl ha hr h₁ h₂ h₃⟩

theorem exists_call_of_runsArgument {ts : List Token} (h : runsArgument ts) :
    ∃ gap call a rest, ts = gap ++ (call ++ rest) ∧ (∀ t ∈ gap, t.isTrivia) ∧ Call call a := by
  rcases Bool.or_eq_true_iff.mp h with h | h
  · exact exists_call h
  · rw [stringArgument?] at h
    exact exists_call (Option.isSome_of_isSome_bind h)

theorem variableArgument?_append (h : Call call a) (rest : List Token) :
    variableArgument? (call ++ rest) = if a.kind = .variable then some a.text else none := by
  rw [variableArgument?, argument?_append h]
  simp

theorem stringArgument?_call (h : Call call a) (rest : List Token) :
    stringArgument? (call ++ rest) = if a.kind.isString then literalBody? a.text else none := by
  rw [stringArgument?, argument?_append h]
  cases a.kind <;> rfl

/-- Whether the statement is written from its argument depends on the argument alone. -/
theorem runsArgument_append (h : Call call a) (rest : List Token) :
    runsArgument (call ++ rest) = runs a := by
  rw [runsArgument, variableArgument?_append h, stringArgument?_call h, runs]
  by_cases hvariable : a.kind = .variable
  · simp [hvariable]
  · cases hstring : a.kind.isString <;> simp [hvariable]

end DynamicSql

/-! ## Where such a statement ends -/

namespace Statement

open DynamicSql

/-- Whether a plain statement that waits for nothing ends with the token or before it. -/
def closesStatement (t : Token) : Bool :=
  t.kind = .semicolon || t.is .END || t.is .ELSE || t.kind.startsStatement

/-- The scan of a statement that has nothing open and waits for nothing. -/
def Scan.idle : Scan := ⟨{}, 0, 0, none⟩

variable {first : Option Keyword} {t : Token} {gap : List Token}

theorem Scan.keyword?_idle (hfirst : first ≠ some .ALTER) (k : Keyword) (rest : List Token) :
    (Scan.idle.keyword? first k rest).isNone = (k = .END || k = .ELSE || k.startsStatement) := by
  have halter : isAlterClause first k rest = false := by simp [isAlterClause, hfirst]
  have hnone : Scan.idle.pending.continue? k Scan.idle.prev = none := by
    simp [Scan.idle, Pending.continue?]
  unfold Scan.keyword?
  split
  · rfl
  · rfl
  · rfl
  · rfl
  · rfl
  · rename_i hend _ helse _
    cases hstart : k.startsStatement with
    | true => simp [hnone, halter]
    | false => simpa using ⟨hend, helse⟩

/-- What the token after a statement that waits for nothing says about its end. -/
theorem Scan.pass_idle (hfirst : first ≠ some .ALTER) (t : Token) (rest : List Token) :
    (Scan.idle.pass first t rest = .before ∧ closesStatement t) ∨
      (Scan.idle.pass first t rest = .after ∧ t.kind = .semicolon) ∨
      ∃ st, Scan.idle.pass first t rest = .goesOn st ∧ closesStatement t = false := by
  unfold Scan.pass
  split
  · rename_i hkind
    exact .inr (.inr ⟨_, rfl, by simp [closesStatement, Token.is, hkind, Kind.startsStatement]⟩)
  · rename_i hkind
    exact .inr (.inr ⟨_, rfl, by simp [closesStatement, Token.is, hkind, Kind.startsStatement]⟩)
  · rename_i hkind
    exact .inr (.inl ⟨rfl, hkind⟩)
  · rename_i k hkind
    have hclose : closesStatement t = (k = .END || k = .ELSE || k.startsStatement) := by
      simp [closesStatement, Token.is, hkind, Kind.startsStatement]
    rw [hclose, ← keyword?_idle hfirst k rest]
    cases hkeyword : Scan.idle.keyword? first k rest with
    | none => exact .inl ⟨rfl, rfl⟩
    | some st => exact .inr (.inr ⟨_, rfl, rfl⟩)
  · rename_i hsemicolon hkeyword
    refine .inr (.inr ⟨_, rfl, ?_⟩)
    cases hkind : t.kind <;> simp_all [closesStatement, Token.is, Kind.startsStatement]

/-- A significant token that goes on with the statement, after trivia. -/
theorem plainFrom_gap {st st' : Scan} {rest : List Token} (hgap : ∀ t ∈ gap, t.isTrivia)
    (ht : t.isTrivia = false) (hpass : st.pass first t rest = .goesOn st') (i stop : Nat) :
    plainFrom first st i stop (gap ++ t :: rest) =
      plainFrom first st' (i + gap.length + 1) (i + gap.length + 1) rest := by
  rw [plainFrom_trivia first st hgap, plainFrom, ht, if_neg Bool.false_ne_true, hpass]

/-- The scan of a statement passes over its argument and is idle behind it. -/
theorem exists_extent_call {call : List Token} {a : Token} (h : Call call a) (ha : runs a)
    (rest : List Token) :
    ∃ first, first ≠ some .ALTER ∧
      extent (call ++ rest) = plainFrom first .idle call.length call.length rest := by
  obtain ⟨he, hl, htrivia, hr, h₁, h₂, h₃⟩ := h
  rename_i e l r g₁ g₂ g₃
  have hpass (st : Scan) (ts : List Token) :
      st.pass e.keyword? a ts = .goesOn { st with prev := none } := by
    cases hkind : a.kind <;> simp_all [runs, Kind.isString, Scan.pass]
  have hopening : extent (e :: (g₁ ++ l :: (g₂ ++ a :: (g₃ ++ r :: rest)))) =
      plainFrom e.keyword? ⟨{}, 0, 0, e.keyword?⟩ 1 1
        (g₁ ++ l :: (g₂ ++ a :: (g₃ ++ r :: rest))) := by
    rcases he with he | he <;>
      simp [extent, opening, plainExtent, Token.keyword?, kind_of_is he, Pending.note]
  refine ⟨e.keyword?, ?_, ?_⟩
  · rcases he with he | he <;> simp [Token.keyword?, kind_of_is he]
  · have hlist : e :: (g₁ ++ l :: (g₂ ++ a :: (g₃ ++ [r]))) ++ rest =
        e :: (g₁ ++ l :: (g₂ ++ a :: (g₃ ++ r :: rest))) := by simp
    have hlength : (e :: (g₁ ++ l :: (g₂ ++ a :: (g₃ ++ [r])))).length =
        1 + g₁.length + 1 + g₂.length + 1 + g₃.length + 1 := by
      simp only [List.length_cons, List.length_append, List.length_nil]
      omega
    rw [hlist, hlength, hopening,
      plainFrom_gap h₁ (isTrivia_of_kind hl rfl) (by simp only [Scan.pass, hl]; rfl),
      plainFrom_gap h₂ htrivia (hpass _ _),
      plainFrom_gap h₃ (isTrivia_of_kind hr rfl) (by simp only [Scan.pass, hr]; rfl)]
    rfl

theorem isTerminator_take_plainFrom (hfirst : first ≠ some .ALTER) (n : Nat) (rest : List Token) :
    isTerminator (rest.take (plainFrom first .idle n n rest - n)) =
      (firstSignificant? rest).all closesStatement := by
  cases hskip : skipTrivia rest with
  | nil =>
      have hrest := List.dropWhile_eq_nil_iff.mp hskip
      have hscan : plainFrom first .idle n n (rest ++ []) = n := by
        rw [plainFrom_trivia first .idle hrest, plainFrom]
      rw [List.append_nil] at hscan
      rw [hscan, Nat.sub_self, firstSignificant?, hskip]
      rfl
  | cons t rest =>
      obtain ⟨gap, rfl, hgap, -, ht⟩ := eq_append_of_skipTrivia hskip
      have hfirst? : firstSignificant? (gap ++ t :: rest) = some t := by
        rw [firstSignificant?, hskip]
        rfl
      have hterm : isTerminator gap := by
        simp only [isTerminator, List.all_eq_true]
        intro u hu
        simp [hgap u hu]
      rw [hfirst?, plainFrom_trivia first .idle hgap, plainFrom, ht, if_neg Bool.false_ne_true]
      rcases Scan.pass_idle hfirst t rest with ⟨hpass, hclose⟩ | ⟨hpass, hkind⟩ |
        ⟨st, hpass, hclose⟩
      · rw [hpass]
        simp [hclose, isTerminator]
      · have hlength : n + gap.length + 1 - n = gap.length + 1 + 0 := by omega
        have hclose : closesStatement t := by simp [closesStatement, hkind]
        rw [hpass]
        dsimp only
        rw [hlength, take_gap, List.take_zero, isTerminator, List.all_append, ← isTerminator, hterm]
        simp [hkind, hclose]
      · have hreach := plainFrom_eq_or_lt first st (n + gap.length + 1) (n + gap.length + 1) rest
        rw [hpass]
        dsimp only
        obtain ⟨m, hm⟩ : ∃ m,
            plainFrom first st (n + gap.length + 1) (n + gap.length + 1) rest - n =
              gap.length + 1 + m := ⟨_, (Nat.add_sub_of_le (by omega)).symm⟩
        have hkind : t.kind ≠ .semicolon := by
          intro hkind
          simp [closesStatement, hkind] at hclose
        rw [hm, take_gap]
        simp [isTerminator, ht, hkind, hclose]

/-- A piece that is written from its argument is trivia, the call and what follows it. -/
theorem exists_piece_call {piece : List Token} (h : runsArgument (skipTrivia piece)) :
    ∃ gap call a dropped, piece = gap ++ (call ++ dropped) ∧ (∀ t ∈ gap, t.isTrivia) ∧
      Call call a := by
  obtain ⟨gap, call, a, dropped, hbody, hgap, hcall⟩ := exists_call_of_runsArgument h
  refine ⟨piece.takeWhile Token.isTrivia ++ gap, call, a, dropped, ?_, ?_, hcall⟩
  · rw [List.append_assoc, ← hbody]
    exact List.takeWhile_append_dropWhile.symm
  · intro t ht
    rcases List.mem_append.mp ht with ht | ht
    · exact List.mem_takeWhile_imp ht
    · exact hgap t ht

/-- Only white space stands before the first significant token of a piece. -/
theorem blank_of_take_pieceLength {lexer : StatementLexer} {us gap rest : List Token} {t : Token}
    (htake : us.take (pieceLength lexer us) = gap ++ t :: rest) (hgap : ∀ t ∈ gap, t.isTrivia)
    (ht : t.isTrivia = false) : Blank gap := by
  have huncommented := uncommented_take_pieceLength lexer us
  rw [htake] at huncommented
  have hrun : (gap ++ t :: rest).takeWhile Token.isTrivia = gap := by
    rw [List.takeWhile_append_of_pos hgap, List.takeWhile_cons_of_neg (by simp [ht]),
      List.append_nil]
  rcases huncommented with htrivia | hcomment
  · have h := htrivia t (by simp)
    rw [ht] at h
    cases h
  · rw [hrun] at hcomment
    intro u hu
    have htrivia := hgap u hu
    simpa [Token.isTrivia, Kind.isTrivia, hcomment u hu] using htrivia

/-- The piece of a script that starts with a call runs as far as the scan from the call goes. -/
theorem pieceLength_call {script : Text} {gap call rest : List Token} {a : Token}
    (hslice : gap ++ (call ++ rest) <:+: tokenize script)
    (herr : ∀ t ∈ gap ++ (call ++ rest), t.kind ≠ .error) (hgap : Blank gap) (h : Call call a) :
    pieceLength .tsql (gap ++ (call ++ rest)) = gap.length + extent (call ++ rest) := by
  obtain ⟨e, ts, rfl, he⟩ := h.eq_cons
  have hnot : e.keyword? ≠ some .CREATE ∧ e.keyword? ≠ some .SELECT ∧ e.is .UNION = false := by
    rcases he with he | he <;> simp [Token.keyword?, Token.is, kind_of_is he]
  have htrivia : e.isTrivia = false := he.elim isTrivia_of_is isTrivia_of_is
  have hblank : e.kind ≠ .blank := by
    rcases he with he | he <;> simp [kind_of_is he]
  rw [(relexed_tokenize hslice herr).pieceLength_eq (by simp)]
  rw [List.cons_append, directEnd_gap hgap htrivia _ (union?_eq_none hgap hblank hnot.2.2 _)]
  simp only [cut, List.getElem?_cons_zero, Option.bind_some]
  split
  · exact absurd ‹_› hnot.1
  · exact absurd ‹_› hnot.2.1
  · rfl

end Statement

/-! ## What is lost -/

namespace Batch

open DynamicSql

/-- A statement that is written from its argument is written without what follows the argument. -/
theorem exec_append (s : Setting) (convert : List Token → ConvertM Text) {call : List Token}
    {a : Token} (h : Call call a) (ha : runs a) (rest : List Token) :
    exec s convert (call ++ rest) = exec s convert (call ++ []) := by
  have hruns := runsArgument_append h
  simp only [exec, variableArgument?_append h, stringArgument?_call h]
  by_cases hvariable : a.kind = .variable
  · simp [hvariable]
  · obtain ⟨hstring, hbody⟩ : a.kind.isString ∧ (literalBody? a.text).isSome := by
      simpa [runs, hvariable] using ha
    obtain ⟨sql, hsql⟩ := Option.isSome_iff_exists.mp hbody
    simp only [hvariable, hstring, hsql, if_true, if_false]

/-- Where the pieces of a script are statements that run their argument, they are written without
what follows the argument. Nothing but semicolons is lost by this if and only if the first
significant token after the argument closes the statement. -/
theorem isTerminator_dropped_iff (s : Setting) (convert : List Token → ConvertM Text)
    {script : Text} {us : List Token} (hslice : us <:+: tokenize script)
    (herr : ∀ t ∈ us, t.kind ≠ .error)
    (hruns : runsArgument (skipTrivia (us.take (Statement.pieceLength .tsql us)))) :
    ∃ gap call a dropped rest, us = gap ++ (call ++ (dropped ++ rest)) ∧
      skipTrivia (us.take (Statement.pieceLength .tsql us)) = call ++ dropped ∧ Call call a ∧
      (∀ after, exec s convert (call ++ after) = exec s convert (call ++ dropped)) ∧
      (isTerminator dropped ↔
        (firstSignificant? (dropped ++ rest)).all Statement.closesStatement) := by
  obtain ⟨gap, call, a, dropped, htake, hgap, hcall⟩ := Statement.exists_piece_call hruns
  have hbody : skipTrivia (us.take (Statement.pieceLength .tsql us)) = call ++ dropped := by
    obtain ⟨e, ts, rfl, he⟩ := hcall.eq_cons
    rw [htake]
    exact skipTrivia_gap (ts ++ dropped) hgap (he.elim isTrivia_of_is isTrivia_of_is)
  have hus : us = gap ++ (call ++ (dropped ++ us.drop (Statement.pieceLength .tsql us))) := by
    conv => lhs; rw [← List.take_append_drop (Statement.pieceLength .tsql us) us, htake]
    simp only [List.append_assoc]
  have ha : runs a := by rwa [hbody, runsArgument_append hcall] at hruns
  refine ⟨gap, call, a, dropped, _, hus, hbody, hcall, fun after => ?_, ?_⟩
  · rw [exec_append s convert hcall ha after, exec_append s convert hcall ha dropped]
  · generalize hrest : us.drop (Statement.pieceLength .tsql us) = rest at hus
    have hblank : Statement.Blank gap := by
      obtain ⟨e, ts, rfl, he⟩ := hcall.eq_cons
      exact Statement.blank_of_take_pieceLength htake hgap (he.elim isTrivia_of_is isTrivia_of_is)
    have hlength := Statement.pieceLength_call (hus ▸ hslice) (hus ▸ herr) hblank hcall
    obtain ⟨first, hfirst, hextent⟩ := Statement.exists_extent_call hcall ha (dropped ++ rest)
    -- The piece ends with what is dropped, so the scan went that far beyond the call.
    have hscan : Statement.plainFrom first .idle call.length call.length (dropped ++ rest) =
        call.length + dropped.length := by
      have htaken := congrArg List.length htake
      rw [List.length_take, Nat.min_eq_left (Statement.pieceLength_le .tsql us), hus, hlength,
        hextent, List.length_append, List.length_append] at htaken
      omega
    have hterm := Statement.isTerminator_take_plainFrom hfirst call.length (dropped ++ rest)
    rw [hscan, Nat.add_sub_cancel_left, List.take_left] at hterm
    rw [hterm]

theorem isTerminator_dropped_iff_variable :
    let us := (tokenize "IF @a = 1 EXEC ( @sql ) ; ELSE EXEC('SELECT 1') SELECT 2".toList).drop 8
    Statement.pieceLength .tsql us = 9 ∧
    ∃ gap call a dropped rest, us = gap ++ (call ++ (dropped ++ rest)) ∧
      skipTrivia (us.take (Statement.pieceLength .tsql us)) = call ++ dropped ∧ Call call a ∧
      (∀ after, exec {} (convert {}) (call ++ after) = exec {} (convert {}) (call ++ dropped)) ∧
      (isTerminator dropped ↔
        (firstSignificant? (dropped ++ rest)).all Statement.closesStatement) := by
  refine ⟨by decide +kernel, ?_⟩
  exact isTerminator_dropped_iff {} (convert {}) (List.drop_suffix 8 _).isInfix
    (by decide +kernel) (by decide +kernel)

/-- The clause that names a server is lost. -/
theorem exec_loses_server :
    let body := tokenize "EXEC(@sql) AT srv".toList
    (exec {} (convert {}) body).run [] = some ("EXECUTE sql;".toList, []) ∧
      body.take (Statement.pieceLength .tsql body) = body ∧
      (significant (body.drop 4)).map Token.text = ["AT".toList, "srv".toList] ∧
      isTerminator (body.drop 4) = false := by
  decide +kernel

end Batch

end SqlMigration
