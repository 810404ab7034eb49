import DnclTrace.Binary64.Basic

/-!
# Values of the pseudocode

A value is an integer of any size or a binary64 real. Comparisons and logical
operators give the integers `1` and `0`, so an integer-only program stays integral.
A few failures are not a property of one expression but stop a whole run; they are
the `Fault`s, each with the message the run reports.
-/

namespace DnclTrace

/-- A value of the pseudocode: an integer of any size or a binary64 real. -/
inductive Value where
  | int (n : Int)
  | real (x : Float)

namespace Value

/-- The integers `1` and `0` for truth and falsity. -/
def ofBool (b : Bool) : Value := .int (if b then 1 else 0)

/-- Truth of a value: anything but an integer or real zero is true, a NaN included. -/
def truthy : Value → Bool
  | .int n => n != 0
  | .real x => Binary64.truthy x

/-- The value is an integer or real zero. -/
def isZero : Value → Bool
  | .int n => n == 0
  | .real x => x == 0

/-- The array position a value denotes: an integer, or a real without fraction. -/
def position? : Value → Option Int
  | .int n => some n
  | .real x => if Binary64.isIntegral x then Binary64.trunc? x else none

/-- The value is an integer. -/
def isInt : Value → Bool
  | .int _ => true
  | .real _ => false

theorem truthy_ofBool (b : Bool) : (ofBool b).truthy = b := by
  cases b <;> rfl

end Value

/-- The most digits an integer may have to be read from or written as decimal text. -/
def digitLimit : Nat := 4300

/-- How many calls may be under way at once. Reading and evaluating an expression
take calls nested as deeply as the expression is, on top of the calls of whatever
started them; a computation that would go past this limit stops with
`Fault.tooDeep`. -/
def callLimit : Nat := 1000

/-- The step that would have passed `callLimit`: entering a procedure of the program,
calling a built-in operation, comparing two values, or writing a value as text. The
report of the failure names the kind of step. -/
inductive Overrun where
  | enter
  | builtin
  | compare
  | text
  deriving DecidableEq, Repr

/-- How the report of a failure at this step ends. -/
def Overrun.suffix : Overrun → String
  | .enter => ""
  | .builtin => " while calling a Python object"
  | .compare => " in comparison"
  | .text => " while getting the str of an object"

/-- A failure that ends a whole run. -/
inductive Fault where
  /-- An integer of more than `digitLimit` digits was to be written as text. -/
  | tooManyDigitsToWrite
  /-- A numeral of `n` digits, more than `digitLimit`, was to be read. -/
  | tooManyDigitsToRead (n : Nat)
  /-- A NaN was to become an integer. -/
  | nanToInteger
  /-- An integer too large for a binary64 number was to be added to a real. -/
  | intTooLarge
  /-- More than `callLimit` calls were to be under way at once; `o` was the step. -/
  | tooDeep (o : Overrun)
  deriving DecidableEq, Repr

/-- The report of a fault. -/
def Fault.message : Fault → String
  | .tooManyDigitsToWrite =>
    "Exceeds the limit (4300 digits) for integer string conversion; " ++
      "use sys.set_int_max_str_digits() to increase the limit"
  | .tooManyDigitsToRead n =>
    "Exceeds the limit (4300 digits) for integer string conversion: value has " ++
      Nat.repr n ++ " digits; use sys.set_int_max_str_digits() to increase the limit"
  | .nanToInteger => "cannot convert float NaN to integer"
  | .intTooLarge => "int too large to convert to float"
  | .tooDeep o => "maximum recursion depth exceeded" ++ o.suffix

/-- The kind of error a fault is reported as. -/
def Fault.kind : Fault → String
  | .tooManyDigitsToWrite | .tooManyDigitsToRead _ | .nanToInteger => "ValueError"
  | .intTooLarge => "OverflowError"
  | .tooDeep _ => "RecursionError"

end DnclTrace
