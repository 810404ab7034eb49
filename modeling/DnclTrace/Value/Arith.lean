import DnclTrace.Value.Basic
import DnclTrace.Binary64.Remainder

/-!
# Operators on values

Two integers combine exactly. When a real takes part, an integer operand is first
rounded to the nearest binary64 number; an integer too large for that leaves the
operation without a value, as does a zero divisor. Comparisons between an integer and
a real are exact, and a NaN makes every comparison false except `!=`.

`/` divides exactly and rounds once; a quotient with no fraction becomes an integer.
`//` and `%` floor: the remainder takes the sign of the divisor. A floored real
quotient is then made an integer: an infinite one has no value, and a NaN is a fault.
-/

namespace DnclTrace

/-- The binary operators of expressions. -/
inductive BinOp where
  | add | sub | mul | div | floorDiv | mod
  | eq | ne | lt | gt | le | ge
  | and | or
  deriving DecidableEq, Repr

/-- The unary operators of expressions. -/
inductive UnOp where
  | neg | pos | not
  deriving DecidableEq, Repr

namespace BinOp

/-- The canonical spelling of an operator. -/
def symbol : BinOp → String
  | .add => "+" | .sub => "-" | .mul => "*" | .div => "/" | .floorDiv => "//" | .mod => "%"
  | .eq => "==" | .ne => "!=" | .lt => "<" | .gt => ">" | .le => "<=" | .ge => ">="
  | .and => "&&" | .or => "||"

/-- All binary operators. -/
def all : List BinOp :=
  [.add, .sub, .mul, .div, .floorDiv, .mod, .eq, .ne, .lt, .gt, .le, .ge, .and, .or]

/-- The operator with this canonical spelling. -/
def ofSymbol? (s : String) : Option BinOp := all.find? (·.symbol == s)

end BinOp

namespace UnOp

/-- The spelling of a unary operator. -/
def symbol : UnOp → String
  | .neg => "-" | .pos => "+" | .not => "!"

/-- The unary operator with this spelling. -/
def ofSymbol? (s : String) : Option UnOp := [UnOp.neg, .pos, .not].find? (·.symbol == s)

end UnOp

namespace Value

/-- What an operator gives: a value, `none` when the operation has no value for these
operands, or a fault that ends the run. -/
abbrev Outcome := Except Fault (Option Value)

/-- The nearest binary64 number to a value, or `none` for an integer too large. -/
def toReal? : Value → Option Float
  | .int n => Binary64.ofInt? n
  | .real x => some x

/-- Applies a real operation after rounding both operands to reals. -/
def viaReal (f : Float → Float → Value) (a b : Value) : Option Value := do
  let x ← a.toReal?
  let y ← b.toReal?
  pure (f x y)

/-- Exact order of two values; `none` when a NaN takes part. -/
def compareExact : Value → Value → Option Ordering
  | .int m, .int n => some (compare m n)
  | .int m, .real y => Binary64.compareInt m y
  | .real x, .int n => (Binary64.compareInt n x).map Ordering.swap
  | .real x, .real y =>
    if x < y then some .lt else if y < x then some .gt else if x == y then some .eq else none

/-- The integer that a floored real quotient stands for. -/
def integerOfFloored (q : Float) : Outcome :=
  match Binary64.shape q with
  | .nan => throw .nanToInteger
  | .infinite _ => pure none
  | .finite neg man exp => pure (some (.int (Binary64.truncFinite neg man exp)))

/-- True division: exact for two integers, then one rounding; a result with no
fraction becomes an integer. -/
def divide (a b : Value) : Option Value :=
  if b.isZero then none
  else
    let q : Option Float := match a, b with
      | .int m, .int n => Binary64.ofRatio? ((m < 0) != (n < 0)) m.natAbs n.natAbs
      | _, _ => do
        let x ← a.toReal?
        let y ← b.toReal?
        pure (x / y)
    q.map fun x =>
      if Binary64.isIntegral x then .int ((Binary64.trunc? x).getD 0) else .real x

/-- Floor division. -/
def floorDivide (a b : Value) : Outcome :=
  if b.isZero then pure none
  else match a, b with
    | .int m, .int n => pure (some (.int (Int.fdiv m n)))
    | _, _ =>
      match a.toReal?, b.toReal? with
      | some x, some y => integerOfFloored (Binary64.divFloor x y)
      | _, _ => pure none

/-- Floored remainder. -/
def modulo (a b : Value) : Option Value :=
  if b.isZero then none
  else match a, b with
    | .int m, .int n => some (.int (Int.fmod m n))
    | _, _ => viaReal (fun x y => .real (Binary64.modFloor x y)) a b

/-- Applies an arithmetic operation: exact on integers, in binary64 otherwise. -/
def arith (fi : Int → Int → Int) (fr : Float → Float → Float) (a b : Value) : Option Value :=
  match a, b with
  | .int m, .int n => some (.int (fi m n))
  | _, _ => viaReal (fun x y => .real (fr x y)) a b

/-- A comparison operator as a test on the exact order (`none` for a NaN). -/
def compareBy (t : Option Ordering → Bool) (a b : Value) : Value := ofBool (t (compareExact a b))

/-- The value of a binary operator on two values. -/
def applyBin (op : BinOp) (a b : Value) : Outcome :=
  match op with
  | .add => pure (arith (· + ·) (· + ·) a b)
  | .sub => pure (arith (· - ·) (· - ·) a b)
  | .mul => pure (arith (· * ·) (· * ·) a b)
  | .div => pure (divide a b)
  | .floorDiv => floorDivide a b
  | .mod => pure (modulo a b)
  | .eq => pure (some (compareBy (· == some .eq) a b))
  | .ne => pure (some (compareBy (· != some .eq) a b))
  | .lt => pure (some (compareBy (· == some .lt) a b))
  | .gt => pure (some (compareBy (· == some .gt) a b))
  | .le => pure (some (compareBy (fun o => o == some .lt || o == some .eq) a b))
  | .ge => pure (some (compareBy (fun o => o == some .gt || o == some .eq) a b))
  | .and => pure (some (ofBool (a.truthy && b.truthy)))
  | .or => pure (some (ofBool (a.truthy || b.truthy)))

/-- The value of a unary operator. -/
def applyUn : UnOp → Value → Value
  | .neg, .int n => .int (-n)
  | .neg, .real x => .real (-x)
  | .pos, v => v
  | .not, v => ofBool (!v.truthy)

theorem applyBin_int_add (m n : Int) : applyBin .add (.int m) (.int n) = pure (some (.int (m + n))) :=
  rfl

end Value

end DnclTrace
