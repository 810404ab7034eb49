import DnclTrace.Expr.Parser
import DnclTrace.Text.Blank

/-!
# Expressions as written

A `SourceExpr` keeps the trimmed text of an expression beside its tree, or the syntax
error that left it without one. Reading normalises the operator spellings, scans the
tokens and parses them; only a numeral too long to read stops reading altogether.

Reading runs on the call stack: it starts `depth` calls deep, takes one call for
itself and one for each rule it is inside, and four more to build the innermost
number or name. So its rules may nest `callLimit - 4 - depth` deep; an expression
that needs more is rejected as nested too deeply.
-/

namespace DnclTrace

/-- An expression as written: its trimmed text, and its tree or why it has none. -/
structure SourceExpr where
  source : String
  tree : Except Expr.SyntaxError Expr

namespace SourceExpr

/-- How deeply the rules of an expression read `depth` calls deep may nest. -/
def allowance (depth : Nat) : Nat := callLimit - 4 - depth

/-- Reads expression text, `depth` calls deep. -/
def read (depth : Nat) (text : String) : Except Fault SourceExpr :=
  let source := Text.trimText text
  match Expr.tokenize (Expr.normalize source) with
  | .error e => pure ⟨source, .error e⟩
  | .ok ts =>
    match Expr.parseTokens (allowance depth) ts with
    | .ok t => pure ⟨source, .ok t⟩
    | .error (.malformed e) => pure ⟨source, .error e⟩
    | .error (.fault f) => throw f

/-- The arrays the expression reads; none when it has no tree. -/
def arrayNames (e : SourceExpr) : List String :=
  match e.tree with
  | .ok t => t.arrayNames
  | .error _ => []

/-- Lists the arrays the expression reads, `depth` calls deep: the walk takes one call
per level of the tree, and the test at the deepest node two more, so a tree taller than
the calls left stops with `Fault.tooDeep`. An expression without a tree reads none. -/
def arrayNamesAt (depth : Nat) (e : SourceExpr) : Except Fault (List String) :=
  match e.tree with
  | .ok t => if callLimit < depth + t.height + 2 then throw (.tooDeep .enter) else pure t.arrayNames
  | .error _ => pure []

end SourceExpr

end DnclTrace
