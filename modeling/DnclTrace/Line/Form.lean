import DnclTrace.Expr.Source

/-!
# Classified lines

Every source line is one statement form: an assignment, an array declaration, an
element assignment, the header of a counted loop, of a conditional loop or of a
conditional, an output, a comment, a blank line, or a line that is none of these. The
markers `そうでなくもし … ならば` and `そうでなければ` only continue a conditional.

A `Classified` line keeps its number and its text beside the form; it is written as the
lowercase name of its kind, a space and its text, trailing blanks dropped.
-/

namespace DnclTrace

/-- One operand of an output statement. -/
inductive OutputPart where
  /-- A string literal, shown as written between its quotes. -/
  | literal (text : String)
  /-- An expression, shown by its value. -/
  | expr (e : SourceExpr)

/-- What a line says. -/
inductive Form where
  | assign (target : String) (value : SourceExpr)
  | arrayDeclare (target : String) (elements : List SourceExpr)
  | indexAssign (target : String) (index value : SourceExpr)
  | forLoop (counter : String) (start stop step : SourceExpr) (descending : Bool)
  | whileLoop (cond : SourceExpr)
  | conditional (cond : SourceExpr)
  | output (parts : List OutputPart)
  | elseIf (cond : SourceExpr)
  | elseMarker
  | comment
  | blank
  | unrecognized

/-- The kinds of statement. -/
inductive StmtKind where
  | assign | arrayDeclare | indexAssign | forLoop | whileLoop | conditional | output
  | comment | blank | unrecognized | elseMarker | elseIf
  deriving DecidableEq, Repr

/-- The name of a kind, as reports show it. -/
def StmtKind.name : StmtKind → String
  | .assign => "ASSIGN" | .arrayDeclare => "ARRAY_DECLARE" | .indexAssign => "INDEX_ASSIGN"
  | .forLoop => "FOR_LOOP" | .whileLoop => "WHILE_LOOP" | .conditional => "CONDITIONAL"
  | .output => "OUTPUT" | .comment => "COMMENT" | .blank => "BLANK"
  | .unrecognized => "UNRECOGNIZED" | .elseMarker => "ELSE" | .elseIf => "ELSE_IF"

/-- The kind of a form. -/
def Form.kind : Form → StmtKind
  | .assign .. => .assign
  | .arrayDeclare .. => .arrayDeclare
  | .indexAssign .. => .indexAssign
  | .forLoop .. => .forLoop
  | .whileLoop .. => .whileLoop
  | .conditional .. => .conditional
  | .output .. => .output
  | .elseIf .. => .elseIf
  | .elseMarker => .elseMarker
  | .comment => .comment
  | .blank => .blank
  | .unrecognized => .unrecognized

/-- The expressions a form evaluates, in order. -/
def Form.operands : Form → List SourceExpr
  | .assign _ v => [v]
  | .arrayDeclare _ es => es
  | .indexAssign _ i v => [i, v]
  | .forLoop _ a b c _ => [a, b, c]
  | .whileLoop c | .conditional c | .elseIf c => [c]
  | .output ps => ps.filterMap fun
    | .literal _ => none
    | .expr e => some e
  | _ => []

/-- A classified source line: its number, its text and its form. -/
structure Classified where
  line : Nat
  text : String
  form : Form

/-- The lowercase name of the kind, a space and the text, trailing blanks dropped. -/
def Classified.render (c : Classified) : String :=
  Text.trimEndText (c.form.kind.name.toLower ++ " " ++ c.text)

end DnclTrace
