import DnclTrace.Binary64.Basic

/-!
# The shortest decimal that reads back as a binary64 number

A positive finite number `man · 2^exp` is read back from every real in its rounding
interval: half a unit in the last place on each side (a quarter below when `man` is
the smallest significand of a binade), ends included when `man` is even. `shortest`
tries decimal grids of 1, 2, …, 17 significant digits; on each grid only the two
neighbours of the value can lie in the interval, and the first grid with a neighbour
inside wins. Of two neighbours inside, the nearer wins, and an exact tie goes to the
even last digit.

All comparisons are between fractions of naturals, so the choice is exact.
-/

namespace DnclTrace.Binary64

/-- The fraction `a · 2^p2 · 10^p10` as numerator and denominator. -/
def scaledFrac (a : Nat) (p2 p10 : Int) : Nat × Nat :=
  (a * Nat.pow 2 p2.toNat * Nat.pow 10 p10.toNat,
    Nat.pow 2 (-p2).toNat * Nat.pow 10 (-p10).toNat)

/-- Orders two fractions with positive denominators. -/
def compareFrac (x y : Nat × Nat) : Ordering := compare (x.1 * y.2) (y.1 * x.2)

/-- The decimal exponent `k` with `10^k ≤ man · 2^exp < 10^(k+1)`, for `0 < man`.
The estimate `⌊log2 · 0.30103⌋` is off by at most one either way, and one step up
and one step down correct it. -/
def decimalExponent (man : Nat) (exp : Int) : Int :=
  let v := scaledFrac man exp 0
  let l : Int := (man.log2 : Int) + exp
  let k0 := Int.fdiv (l * 30103) 100000
  let k1 := if compareFrac (scaledFrac 1 0 (k0 + 1)) v != .gt then k0 + 1 else k0
  if compareFrac (scaledFrac 1 0 k1) v == .gt then k1 - 1 else k1

/-- Drops trailing zero digits of `c · 10^t`, raising `t` to match. -/
def dropTrailingZeros (c : Nat) (t : Int) : Nat × Int :=
  if h : 0 < c ∧ c % 10 = 0 then dropTrailingZeros (c / 10) (t + 1) else (c, t)
termination_by c
decreasing_by omega

/-- The rounding interval of a positive finite `man · 2^exp`, as its two ends in
units of `2^(exp-2)`: the gap below is a quarter unit when `man` is the smallest
significand of a binade above the subnormals. -/
def roundingEnds (man : Nat) (exp : Int) : Nat × Nat :=
  let below := if man = Nat.pow 2 52 ∧ -1074 < exp then 1 else 2
  (4 * man - below, 4 * man + 2)

/-- The decimal `c · 10^t` lies in the rounding interval of `man · 2^exp`. -/
def readsBack (man : Nat) (exp : Int) (c : Nat) (t : Int) : Bool :=
  let ends := roundingEnds man exp
  let lo := scaledFrac ends.1 (exp - 2) 0
  let hi := scaledFrac ends.2 (exp - 2) 0
  let w := scaledFrac c 0 t
  let closed := man % 2 == 0
  let above := compareFrac lo w
  let below := compareFrac w hi
  (above == .lt || (closed && above == .eq)) && (below == .lt || (closed && below == .eq))

/-- Of the two grid neighbours `c · 10^t` and `(c+1) · 10^t`, the one nearer to
`man · 2^exp`, the even one on a tie. -/
def nearerNeighbour (man : Nat) (exp : Int) (c : Nat) (t : Int) : Nat :=
  match compareFrac (scaledFrac (2 * man) exp 0) (scaledFrac (2 * c + 1) 0 t) with
  | .lt => c
  | .gt => c + 1
  | .eq => if c % 2 = 0 then c else c + 1

/-- The digits on the grid of `p` significant digits that read back, if any. -/
def gridDigits (man : Nat) (exp : Int) (k : Int) (p : Nat) : Option (Nat × Int) :=
  let t := k + 1 - p
  let v := scaledFrac man exp (-t)
  let c := v.1 / v.2
  match readsBack man exp c t, readsBack man exp (c + 1) t with
  | true, true => some (nearerNeighbour man exp c t, t)
  | true, false => some (c, t)
  | false, true => some (c + 1, t)
  | false, false => none

/-- The shortest digits `c` and exponent `t` with `c · 10^t` reading back as the
positive finite number `man · 2^exp`, without trailing zeros in `c`. -/
def shortest (man : Nat) (exp : Int) : Nat × Int :=
  let k := decimalExponent man exp
  let found := (List.range 17).findSome? fun i => gridDigits man exp k (i + 1)
  let (c, t) := found.getD
    (let t := k - 16
     let v := scaledFrac man exp (-t)
     (nearerNeighbour man exp (v.1 / v.2) t, t))
  dropTrailingZeros c t

end DnclTrace.Binary64
