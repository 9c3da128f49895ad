import SqlMigration.Statement.Block
import SqlMigration.Statement.Piece
import SqlMigration.View.Arm

/-! # Scripts that create views -/

namespace SqlMigration.View

/-- Takes away a semicolon at the end, and keeps the blank space after it. -/
def dropSemicolon (s : Text) : Text :=
  let body := s.trimEnd
  match body.dropFinal? ';' with
  | some rest => rest ++ s.drop body.length
  | none => s

/-- The names of a header in the target's spelling. -/
def headerText : List Token → Text
  | [] => []
  | [t] => if t.kind.isIdentifier then Name.render t.text else t.text
  | t :: u :: ts =>
      if startsWithDbo (t :: u :: ts) then headerText ts
      else (if t.kind.isIdentifier then Name.render t.text else t.text) ++ headerText (u :: ts)

/-- The header of a view, which replaces one of the same name. -/
def createOrReplace (header : List Token) : Text :=
  "CREATE OR REPLACE".toList ++ headerText (skipTrivia header).tail

/-- Converts the statements of a script after what has been written so far. A union takes back the
semicolon before it, and statements in parentheses are converted inside them. -/
def convertFrom (lexer : StatementLexer) (out : Text) (c : Columns) :
    List Token → Text × Columns
  | [] => (out, c)
  | t :: ts =>
      let n := Statement.pieceLength lexer (t :: ts) - 1
      let piece := t :: ts.take n
      let lead := joinText (piece.take (triviaLength piece))
      let body := skipTrivia piece
      match (body.head?.map Token.kind) with
      | some (.keyword .CREATE) =>
          let (header, stop) := Statement.createHeader body 0
          if header.isEmpty then convertFrom lexer (out ++ joinText piece) c (ts.drop n)
          else
            let text := createOrReplace header ++ joinText (body.drop stop)
            convertFrom lexer (out ++ lead ++ text) {} (ts.drop n)
      | some (.keyword .UNION) =>
          convertFrom lexer (dropSemicolon out ++ joinText piece) c (ts.drop n)
      | some (.keyword .SELECT) =>
          let (text, c) := c.convert piece
          convertFrom lexer (out ++ text) c (ts.drop n)
      | some .leftParen =>
          match _h : Statement.blockInside? body with
          | some (inner, m) =>
              let (text, c) := convertFrom lexer [] c inner
              convertFrom lexer (out ++ lead ++ '(' :: text ++ ')' :: joinText (body.drop m)) c
                (ts.drop n)
          | none => convertFrom lexer (out ++ lead ++ Expression.emit body) c (ts.drop n)
      | some _ => convertFrom lexer (out ++ lead ++ Expression.emit body) c (ts.drop n)
      | none => convertFrom lexer (out ++ joinText piece) c (ts.drop n)
  termination_by ts => ts.length
  decreasing_by
    all_goals try (simp only [List.length_drop, List.length_cons]; omega)
    have h₁ := Statement.length_lt_of_blockInside? _h
    have h₂ : body.length ≤ piece.length := length_skipTrivia_le piece
    have h₃ : piece.length ≤ ts.length + 1 := by
      simp only [piece, List.length_cons, List.length_take]
      omega
    simp only [List.length_cons]
    omega

/-- Converts a script that creates views. -/
def convert (lexer : StatementLexer) (ts : List Token) : Text := (convertFrom lexer [] {} ts).1

/-- Reads and converts a script that creates views. -/
def convertScript (lexer : StatementLexer) (sql : Text) : Except LexError Text :=
  (lexer.lex sql).map (convert lexer)

end SqlMigration.View
