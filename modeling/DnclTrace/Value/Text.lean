import DnclTrace.Value.Basic
import DnclTrace.Binary64.Text

/-!
# Values as text

`Value.text` writes an integer in decimal and a real in the standard binary64
notation. `Value.display` is what the console and the trace descriptions show: a real
without fraction as the exact integer it equals, anything else as `Value.text`.
Writing an integer of more than `digitLimit` digits is a fault.

`Value.listText` writes a list of values in brackets with `, ` between them.
-/

namespace DnclTrace

/-- Decimal text of an integer, a fault past `digitLimit` digits. -/
def intText (n : Int) : Except Fault String :=
  if Nat.pow 10 digitLimit ≤ n.natAbs then throw .tooManyDigitsToWrite
  else pure ((if n < 0 then "-" else "") ++ Nat.repr n.natAbs)

namespace Value

/-- The text of a value: decimal for integers, the standard notation for reals. -/
def text : Value → Except Fault String
  | .int n => intText n
  | .real x => pure (Binary64.write x)

/-- The text of a value as shown to a user: a real with no fraction is written as the
integer it equals. -/
def display : Value → Except Fault String
  | .int n => intText n
  | .real x =>
    match Binary64.shape x with
    | .finite neg man exp =>
      if Binary64.isIntegral x then intText (Binary64.truncFinite neg man exp)
      else pure (Binary64.write x)
    | _ => pure (Binary64.write x)

/-- A list of values in brackets, separated by `, `, each written by `f`. -/
def listWith (f : Value → Except Fault String) (vs : List Value) : Except Fault String := do
  let parts ← vs.mapM f
  pure ("[" ++ ", ".intercalate parts ++ "]")

end Value

end DnclTrace
