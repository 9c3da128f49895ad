import SqlMigration.Proofs.Batch.Inside

/-! # Conversions after other conversions

A conversion never looks at the variables that earlier scripts have declared, and puts its own
behind them. This holds of every step of it, and so of conditionals, blocks and dynamic SQL at any
depth. After several scripts, the variables are those of each script by itself, in order.
-/

namespace SqlMigration.Batch

/-- The conversion gives the same result after any variables, and puts its own behind them. -/
def Appends {α : Type} (m : ConvertM α) : Prop :=
  ∀ declared, m.run declared = (m.run []).map fun r => (r.1, declared ++ r.2)

theorem composes_appends : Composes Appends where
  pure a := by
    intro declared
    simp [StateT.run_pure]
  modify added := by
    intro declared
    rfl
  bind {α β m f} hm hf := by
    intro declared
    rw [StateT.run_bind, StateT.run_bind, hm declared]
    cases m.run [] with
    | none => rfl
    | some r =>
        obtain ⟨a, added⟩ := r
        change (f a).run (declared ++ added) = ((f a).run added).map _
        rw [hf a (declared ++ added), hf a added, Option.map_map]
        simp [Function.comp_def]

theorem appends_convertWithin (s : Setting) (depth : Nat) (ts : List Token) :
    Appends (convertWithin s depth ts) := by
  induction depth generalizing ts with
  | zero =>
      intro declared
      rfl
  | succ depth ih =>
      cases ts with
      | nil => exact composes_appends.pure _
      | cons t ts =>
          rw [convertWithin]
          refine composes_appends.bind ?_ fun text => ?_
          · exact (composes_appends.lifts.statement fun us _ => ⟨rfl, ih us⟩).2
          · exact composes_appends.bind (ih _) fun rest => composes_appends.pure _

section
variable (s : Setting) (declared : List Variable) (depth : List Token → Nat)

theorem convertScript_append (sql : Text) :
    convertScript s declared sql depth =
      (convertScript s [] sql depth).map fun r => (r.1, declared ++ r.2) := by
  rw [convertScript, convertScript]
  cases s.lexer.lex sql with
  | error e => rfl
  | ok ts =>
      simp only [appends_convertWithin s (depth ts) ts declared]
      cases (convertWithin s (depth ts) ts).run [] <;> rfl

theorem convertNext_append (sql : Text) :
    convertNext s declared sql depth =
      ((convertNext s [] sql depth).1, declared ++ (convertNext s [] sql depth).2) := by
  rw [convertNext, convertNext, convertScript_append s declared depth sql]
  cases convertScript s [] sql depth with
  | error e => exact congrArg (Prod.mk _) (List.append_nil declared).symm
  | ok r => rfl

theorem convertAll_append (scripts : List Text) :
    convertAll s declared scripts depth =
      (scripts.map fun sql => (convertNext s [] sql depth).1,
        declared ++ scripts.flatMap fun sql => (convertNext s [] sql depth).2) := by
  induction scripts generalizing declared with
  | nil => simp [convertAll]
  | cons sql rest ih =>
      rw [convertAll, convertNext_append s declared depth sql]
      simp only [ih, List.map_cons, List.flatMap_cons, List.append_assoc]

end

/-- What was declared before changes neither the text nor the error of a conversion, and stays in
front of what the conversion declares. A script that cannot be read declares nothing, and several
scripts declare what each of them does alone, in order. This holds however deep the conversion may
go. -/
theorem conversion_independent_of_history (s : Setting) (declared : List Variable) :
    (∀ depth ts, (convertWithin s depth ts).run declared =
      ((convertWithin s depth ts).run []).map fun r => (r.1, declared ++ r.2)) ∧
    ∀ depth : List Token → Nat,
      (∀ sql, convertNext s declared sql depth =
        ((convertNext s [] sql depth).1, declared ++ (convertNext s [] sql depth).2)) ∧
      (∀ sql e, s.lexer.lex sql = .error e →
        convertNext s declared sql depth = (.error (.lex e), declared) ∧
          declareSection (convertNext s declared sql depth).2 = declareSection declared) ∧
      ∀ scripts, convertAll s declared scripts depth =
        (scripts.map fun sql => (convertNext s [] sql depth).1,
          declared ++ scripts.flatMap fun sql => (convertNext s [] sql depth).2) := by
  refine ⟨fun depth ts => appends_convertWithin s depth ts declared, fun depth =>
    ⟨convertNext_append s declared depth, ?_, convertAll_append s declared depth⟩⟩
  intro sql e hlex
  have hnext : convertNext s declared sql depth = (.error (.lex e), declared) := by
    rw [convertNext, convertScript, hlex]
  exact ⟨hnext, congrArg (fun r => declareSection r.2) hnext⟩

/-- The second of three scripts cannot be read, and each of the others declares a variable. -/
theorem conversion_independent_of_history_unread :
    let before : List Variable := [⟨"a".toList, "integer".toList⟩]
    let broken := "SET @b = 'x".toList
    let e : LexError := .unterminatedString ⟨9, 11⟩
    StatementLexer.tsql.lex broken = .error e ∧
      convertNext {} before broken = (.error (.lex e), before) ∧
      convertAll {} before ["DECLARE @b bit".toList, broken, "DECLARE @c int".toList] =
        ([.ok [], .error (.lex e), .ok []],
          before ++ [⟨"b".toList, "boolean".toList⟩, ⟨"c".toList, "integer".toList⟩]) := by
  intro before broken e
  have hlex : StatementLexer.tsql.lex broken = .error e := by decide +kernel
  have hfirst : convertNext {} [] "DECLARE @b bit".toList =
      (.ok [], [⟨"b".toList, "boolean".toList⟩]) := by decide +kernel
  have hlast : convertNext {} [] "DECLARE @c int".toList =
      (.ok [], [⟨"c".toList, "integer".toList⟩]) := by decide +kernel
  obtain ⟨-, hunread, hall⟩ := (conversion_independent_of_history {} before).2 depthBound
  have hbroken : convertNext {} [] broken = (.error (.lex e), []) :=
    (((conversion_independent_of_history {} []).2 depthBound).2.1 broken e hlex).1
  refine ⟨hlex, (hunread broken e hlex).1, ?_⟩
  rw [hall]
  simp only [List.map_cons, List.map_nil, List.flatMap_cons, List.flatMap_nil, hfirst, hbroken,
    hlast, List.nil_append, List.append_nil, List.singleton_append]

end SqlMigration.Batch
