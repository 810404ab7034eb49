import DnclTrace.Value.Arith
import DnclTrace.Binary64.Text

/-!
# Expression trees

An expression is a numeral, a variable, an element of an array, or an operator
applied to one or two expressions. `Expr.render` writes a tree fully bracketed:
every operator application is enclosed in parentheses with single spaces around
the operator, so the text shows the tree's shape. `Expr.arrayNames` lists the arrays
an expression reads, in reading order: an element names its array before the arrays
of its position.
-/

namespace DnclTrace

/-- An expression tree. -/
inductive Expr where
  | num (v : Value)
  | var (name : String)
  | index (name : String) (pos : Expr)
  | unary (op : UnOp) (e : Expr)
  | binary (op : BinOp) (l r : Expr)

/-- Decimal digits of an integer, with a minus sign when negative. -/
def intDigits (n : Int) : String := (if n < 0 then "-" else "") ++ Nat.repr n.natAbs

/-- The text of a numeral's value: decimal for an integer, the standard notation for
a real. -/
def Value.literalText : Value → String
  | .int n => intDigits n
  | .real x => Binary64.write x

namespace Expr

/-- The tree written fully bracketed. -/
def render : Expr → String
  | .num v => v.literalText
  | .var n => n
  | .index n p => n ++ "[" ++ render p ++ "]"
  | .unary op e => "(" ++ op.symbol ++ " " ++ render e ++ ")"
  | .binary op l r => "(" ++ render l ++ " " ++ op.symbol ++ " " ++ render r ++ ")"

/-- The arrays an expression reads through an index, in reading order, repeats kept. -/
def arrayNames : Expr → List String
  | .num _ | .var _ => []
  | .index n p => n :: arrayNames p
  | .unary _ e => arrayNames e
  | .binary _ l r => arrayNames l ++ arrayNames r

theorem arrayNames_binary (op : BinOp) (l r : Expr) :
    (binary op l r).arrayNames = l.arrayNames ++ r.arrayNames := rfl

/-- The height of a tree: the most steps from its root down to a leaf. -/
def height : Expr → Nat
  | .num _ | .var _ => 0
  | .index _ p => height p + 1
  | .unary _ e => height e + 1
  | .binary _ l r => max (height l) (height r) + 1

end Expr

end DnclTrace
