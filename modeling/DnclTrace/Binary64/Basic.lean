/-!
# Binary64 numbers as sign, significand and exponent

A `Float` is read through its bit pattern: `shape` splits it into a finite value
`(-1)^neg · man · 2^exp`, an infinity or a NaN, and `ofRatio?` builds the binary64
nearest to a rational number (ties to an even significand), or reports that the
value lies beyond the largest finite one. Everything here is exact `Nat` and `Int`
arithmetic over the bits, so integers of any size convert, compare and divide with
one rounding at most.
-/

namespace DnclTrace.Binary64

/-- The three kinds of binary64 value; a finite one is `(-1)^neg · man · 2^exp`. -/
inductive Shape where
  | finite (neg : Bool) (man : Nat) (exp : Int)
  | infinite (neg : Bool)
  | nan
  deriving DecidableEq

/-- Sign bit, 11-bit exponent field and 52-bit fraction of a bit pattern, decoded. -/
def shapeOfBits (b : Nat) : Shape :=
  let neg : Bool := decide (Nat.pow 2 63 ≤ b % Nat.pow 2 64)
  let field : Nat := b / Nat.pow 2 52 % 2048
  let frac : Nat := b % Nat.pow 2 52
  if field = 2047 then
    if frac = 0 then .infinite neg else .nan
  else if field = 0 then .finite neg frac (-1074)
  else .finite neg (frac + Nat.pow 2 52) ((field : Int) - 1075)

/-- The shape of a binary64 number. -/
def shape (x : Float) : Shape := shapeOfBits x.toBits.toNat

/-- The sign bit: set for negative numbers, `-0.0` and negative infinity. -/
def signBit (x : Float) : Bool := decide (Nat.pow 2 63 ≤ x.toBits.toNat)

/-- The NaN that arithmetic produces. -/
def nan : Float := Float.ofBits 0x7FF8000000000000

/-- Positive infinity. -/
def inf : Float := Float.ofBits 0x7FF0000000000000

/-- Sets the sign bit of a pattern below `2^63` when `neg` holds. -/
def withSign (neg : Bool) (bits : Nat) : Float :=
  Float.ofBits (UInt64.ofNat (if neg then bits + Nat.pow 2 63 else bits))

/-- Zero carrying the sign of `y`. -/
def zeroSignOf (y : Float) : Float := withSign (signBit y) 0

/-- Quotient and remainder of `n / (d · 2^e)`, with the divisor used. -/
def scaledDiv (n d : Nat) (e : Int) : Nat × Nat × Nat :=
  if 0 ≤ e then
    let den := d * Nat.pow 2 e.toNat
    (n / den, n % den, den)
  else
    let num := n * Nat.pow 2 (-e).toNat
    (num / d, num % d, d)

/-- The exponent at which `n / d` has a 53-bit integer part, but never below `-1074`. -/
def roundExponent (n d : Nat) : Int :=
  let e0 : Int := (n.log2 : Int) - d.log2 - 53
  let e1 := if Nat.pow 2 53 ≤ (scaledDiv n d e0).1 then e0 + 1 else e0
  max e1 (-1074)

/-- The unsigned bit pattern of the binary64 nearest to `n / d`, ties to an even
significand. A pattern from `0x7FF0000000000000` up means the value rounds past the
largest finite number. The significand `q` and exponent `e` give the pattern
`(e + 1074) · 2^52 + q`, which covers normal numbers, subnormals and a carry into the
next binade alike. -/
def roundBits (n d : Nat) : Nat :=
  if n = 0 ∨ d = 0 then 0
  else
    let e := roundExponent n d
    let (q, r, den) := scaledDiv n d e
    let up := decide (den < 2 * r) || (decide (2 * r = den) && q % 2 == 1)
    (e + 1074).toNat * Nat.pow 2 52 + (if up then q + 1 else q)

theorem roundBits_zero (d : Nat) : roundBits 0 d = 0 := by
  simp [roundBits]

/-- The first pattern past the finite numbers. -/
def infBits : Nat := 0x7FF0000000000000

/-- The binary64 nearest to `±n / d`, or `none` when that lies beyond the largest
finite number. A zero numerator gives a zero of the requested sign. -/
def ofRatio? (neg : Bool) (n d : Nat) : Option Float :=
  let b := roundBits n d
  if infBits ≤ b then none else some (withSign neg b)

/-- The binary64 nearest to `±n / d`, with values past the largest finite number
becoming an infinity. -/
def ofRatio (neg : Bool) (n d : Nat) : Float :=
  withSign neg (min (roundBits n d) infBits)

/-- The binary64 nearest to an integer, or `none` when it is too large. -/
def ofInt? (n : Int) : Option Float := ofRatio? (n < 0) n.natAbs 1

/-- The value of a finite number as a fraction `num / den` with sign. -/
def finiteRatio (neg : Bool) (man : Nat) (exp : Int) : Bool × Nat × Nat :=
  if 0 ≤ exp then (neg, man * Nat.pow 2 exp.toNat, 1) else (neg, man, Nat.pow 2 (-exp).toNat)

/-- The integer part of a finite number, rounded toward zero. -/
def truncFinite (neg : Bool) (man : Nat) (exp : Int) : Int :=
  let (_, num, den) := finiteRatio neg man exp
  let q : Int := (num / den : Nat)
  if neg then -q else q

/-- The integer part of `x` rounded toward zero, for finite `x`. -/
def trunc? (x : Float) : Option Int :=
  match shape x with
  | .finite neg man exp => some (truncFinite neg man exp)
  | _ => none

/-- A finite number with no fractional part. -/
def isIntegral (x : Float) : Bool :=
  match shape x with
  | .finite _ man exp => decide (0 ≤ exp) || man % Nat.pow 2 (-exp).toNat == 0
  | _ => false

/-- Orders an integer against a binary64 number exactly; `none` when `x` is a NaN. -/
def compareInt (n : Int) (x : Float) : Option Ordering :=
  match shape x with
  | .nan => none
  | .infinite neg => some (if neg then .gt else .lt)
  | .finite neg man exp =>
    let m : Int := if neg then -(man : Int) else man
    if 0 ≤ exp then some (compare n (m * Int.pow 2 exp.toNat))
    else some (compare (n * Int.pow 2 (-exp).toNat) m)

/-- The truth of a binary64 number: every value but the two zeros counts as true,
a NaN included. -/
def truthy (x : Float) : Bool := !(x == 0)

end DnclTrace.Binary64
