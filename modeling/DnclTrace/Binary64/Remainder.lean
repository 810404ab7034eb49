import DnclTrace.Binary64.Basic

/-!
# Remainder and floor division of binary64 numbers

`rem x y` is the exact remainder of `x` by `y` after a quotient truncated toward
zero; it carries the sign of `x` and is always representable, so it is computed on
integer significands scaled to the smaller of the two exponents. `modFloor` and
`divFloor` build on it the floored pair: the remainder takes the sign of the divisor,
and the quotient is `(x - rem) / y` snapped to the nearest integer, with a zero quotient
carrying the sign of `x / y`.
-/

namespace DnclTrace.Binary64

/-- The exact truncated remainder: `x - n · y` for `n` the integer part of `x / y`,
with the sign of `x`. An infinite `x`, a zero `y` or a NaN give a NaN; a finite `x`
over an infinite `y` is `x` itself. -/
def rem (x y : Float) : Float :=
  match shape x, shape y with
  | .finite neg mx ex, .finite _ my ey =>
    if my = 0 then nan
    else
      let e := min ex ey
      let r := (mx * Nat.pow 2 (ex - e).toNat) % (my * Nat.pow 2 (ey - e).toNat)
      if 0 ≤ e then ofRatio neg (r * Nat.pow 2 e.toNat) 1
      else ofRatio neg r (Nat.pow 2 (-e).toNat)
  | .finite .., .infinite _ => x
  | _, _ => nan

/-- The floored remainder: `rem x y` moved into the sign of `y`, and a zero remainder
given the sign of `y`. -/
def modFloor (x y : Float) : Float :=
  let m := rem x y
  if m != 0 then
    if signBit y != decide (m < 0) then m + y else m
  else zeroSignOf y

/-- The floored quotient: `(x - rem x y) / y`, lowered by one when the remainder had
to change sign, then rounded to the nearest integer (a fraction above one half goes
up); a zero quotient takes the sign of `x / y`. -/
def divFloor (x y : Float) : Float :=
  let m := rem x y
  let d := (x - m) / y
  let d := if m != 0 && signBit y != decide (m < 0) then d - 1 else d
  if d != 0 then
    let f := d.floor
    if d - f > 0.5 then f + 1 else f
  else zeroSignOf (x / y)

end DnclTrace.Binary64
