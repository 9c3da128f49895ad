import SqlMigration.View.Script

/-! # The conversion of views ends

The conversion goes from piece to piece and into parentheses. Both take at least one token away,
so that a script of so many tokens needs no more than so many levels.
-/

namespace SqlMigration.View

/-- Converts the statements of a script as `convertFrom` does, going at most `depth` levels deep.
Each piece counts as a level, and so does what stands in parentheses. -/
def convertWithin (lexer : StatementLexer) :
    Nat → Text → Columns → List Token → Option (Text × Columns)
  | 0, _, _, _ => none
  | _ + 1, out, c, [] => some (out, c)
  | depth + 1, out, c, t :: ts =>
      let n := Statement.pieceLength lexer (t :: ts) - 1
      let piece := t :: ts.take n
      let lead := joinText (piece.take (triviaLength piece))
      let body := skipTrivia piece
      match body.head?.map Token.kind with
      | some (.keyword .CREATE) =>
          let (header, stop) := Statement.createHeader body 0
          if header.isEmpty then convertWithin lexer depth (out ++ joinText piece) c (ts.drop n)
          else
            let text := createOrReplace header ++ joinText (body.drop stop)
            convertWithin lexer depth (out ++ lead ++ text) {} (ts.drop n)
      | some (.keyword .UNION) =>
          convertWithin lexer depth (dropSemicolon out ++ joinText piece) c (ts.drop n)
      | some (.keyword .SELECT) =>
          let (text, c) := c.convert piece
          convertWithin lexer depth (out ++ text) c (ts.drop n)
      | some .leftParen =>
          match Statement.blockInside? body with
          | some (inner, m) => do
              let (text, c) ← convertWithin lexer depth [] c inner
              convertWithin lexer depth
                (out ++ lead ++ '(' :: text ++ ')' :: joinText (body.drop m)) c (ts.drop n)
          | none => convertWithin lexer depth (out ++ lead ++ Expression.emit body) c (ts.drop n)
      | some _ => convertWithin lexer depth (out ++ lead ++ Expression.emit body) c (ts.drop n)
      | none => convertWithin lexer depth (out ++ joinText piece) c (ts.drop n)

/-- One level for each token, and one more, are enough for the whole conversion. -/
theorem convertWithin_eq (lexer : StatementLexer) {depth : Nat} {ts : List Token}
    (h : ts.length < depth) (out : Text) (c : Columns) :
    convertWithin lexer depth out c ts = some (convertFrom lexer out c ts) := by
  induction depth generalizing ts out c with
  | zero => cases h
  | succ depth ih =>
      cases ts with
      | nil => rw [convertWithin, convertFrom]
      | cons t ts =>
          rw [convertWithin, convertFrom]
          dsimp only
          generalize Statement.pieceLength lexer (t :: ts) - 1 = n
          have hrest : (ts.drop n).length < depth := by
            have hlen := (List.drop_sublist n ts).length_le
            rw [List.length_cons] at h
            omega
          generalize (skipTrivia (t :: ts.take n)).head?.map Token.kind = kind
          cases kind with
          | none => exact ih hrest _ _
          | some kind =>
              cases kind with
              | keyword k =>
                  cases k with
                  | CREATE =>
                      dsimp only
                      split
                      · exact ih hrest _ _
                      · exact ih hrest _ _
                  | _ => exact ih hrest _ _
              | leftParen =>
                  dsimp only
                  cases hblock : Statement.blockInside? (skipTrivia (t :: ts.take n)) with
                  | none => exact ih hrest _ _
                  | some block =>
                      obtain ⟨inner, m⟩ := block
                      have hinner : inner.length < depth := by
                        have hlt := Statement.length_lt_of_blockInside? hblock
                        have hle := length_skipTrivia_le (t :: ts.take n)
                        rw [List.length_cons, List.length_take] at hle
                        rw [List.length_cons] at h
                        omega
                      dsimp only
                      rw [ih hinner]
                      exact ih hrest _ _
              | _ => exact ih hrest _ _

end SqlMigration.View
