import DnclTrace.Binary64.Shortest

/-!
# Writing and reading binary64 numbers as decimal text

A number is written with the shortest digits that read back (`shortest`), laid out by
a `Notation`: positional while the decimal point falls within a window of positions,
otherwise one digit, a point, the rest and a signed exponent of at least two digits.
A number written positionally keeps a `.0` when it has no fraction, so integers and
integral reals never share a text.

`ofDecimalText?` reads such text back, rounding to nearest.
-/

namespace DnclTrace.Binary64

/-- How a binary64 number is written in text. -/
structure Notation where
  /-- The decimal point position (the count of digits before it; zero or negative
  for leading zeros after it) is written positionally when it exceeds this. -/
  plainAbove : Int
  /-- … and is at most this. -/
  plainUpTo : Int
  /-- The fewest digits of an exponent. -/
  expDigits : Nat
  /-- Positive infinity; a negative one takes a minus sign in front. -/
  infinity : String
  /-- Any NaN. -/
  notANumber : String

/-- Positional from `0.0001` up to sixteen integer digits, `1e-05` and `1e+16` outside;
infinities and NaN as `inf` and `nan`. -/
def Notation.standard : Notation := ⟨-4, 16, 2, "inf", "nan"⟩

/-- The standard notation with infinities and NaN spelled `Infinity` and `NaN`. -/
def Notation.json : Notation :=
  { Notation.standard with infinity := "Infinity", notANumber := "NaN" }

/-- `n` zero digits. -/
def zeroDigits (n : Nat) : List Char := List.replicate n '0'

/-- The digits `ds` with the decimal point after `pos` of them. -/
def layoutDigits (f : Notation) (ds : List Char) (pos : Int) : List Char :=
  let n := ds.length
  if f.plainAbove < pos ∧ pos ≤ f.plainUpTo then
    if pos ≤ 0 then '0' :: '.' :: (zeroDigits (-pos).toNat ++ ds)
    else if pos < n then ds.take pos.toNat ++ '.' :: ds.drop pos.toNat
    else ds ++ zeroDigits (pos.toNat - n) ++ ['.', '0']
  else
    let e := pos - 1
    let lead := if n = 1 then ds else ds.take 1 ++ '.' :: ds.drop 1
    let ed := (Nat.repr e.natAbs).toList
    lead ++ 'e' :: (if e < 0 then '-' else '+') :: (zeroDigits (f.expDigits - ed.length) ++ ed)

/-- The text of a binary64 number in notation `f`. -/
def writeIn (f : Notation) (x : Float) : String :=
  match shape x with
  | .nan => f.notANumber
  | .infinite neg => (if neg then "-" else "") ++ f.infinity
  | .finite neg man exp =>
    let sign := if neg then "-" else ""
    if man = 0 then sign ++ "0.0"
    else
      let (c, t) := shortest man exp
      let ds := (Nat.repr c).toList
      sign ++ String.ofList (layoutDigits f ds (ds.length + t))

/-- The text of a binary64 number in the standard notation. -/
def write (x : Float) : String := writeIn .standard x

/-- The value of a run of ASCII digits. -/
def asciiDigitsValue (ds : List Char) : Nat :=
  ds.foldl (fun acc d => acc * 10 + (d.toNat - '0'.toNat)) 0

/-- Reads `[-]digits[.digits][e[+|-]digits]` as the nearest binary64 number, and
`inf`, `-inf`, `nan` as themselves. -/
def ofDecimalText? (s : String) : Option Float :=
  let cs := s.toList
  let (neg, body) := match cs with
    | '-' :: r => (true, r)
    | '+' :: r => (false, r)
    | r => (false, r)
  if body = "inf".toList ∨ body = "infinity".toList then some (withSign neg infBits)
  else if body = "nan".toList then some nan
  else
    let whole := body.takeWhile Char.isDigit
    let rest := body.dropWhile Char.isDigit
    let (frac, rest) := match rest with
      | '.' :: r => (r.takeWhile Char.isDigit, r.dropWhile Char.isDigit)
      | r => ([], r)
    let expo : Option Int := match rest with
      | [] => some 0
      | c :: r =>
        if c = 'e' ∨ c = 'E' then
          let (eneg, ds) := match r with
            | '-' :: q => (true, q)
            | '+' :: q => (false, q)
            | q => (false, q)
          if ds ≠ [] ∧ ds.all Char.isDigit then
            let v : Int := asciiDigitsValue ds
            some (if eneg then -v else v)
          else none
        else none
    if whole = [] ∧ frac = [] then none
    else
      expo.map fun e =>
        let m := asciiDigitsValue (whole ++ frac)
        let p : Int := e - frac.length
        if 0 ≤ p then ofRatio neg (m * Nat.pow 10 p.toNat) 1
        else ofRatio neg m (Nat.pow 10 (-p).toNat)

end DnclTrace.Binary64
