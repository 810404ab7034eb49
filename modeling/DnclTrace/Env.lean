import DnclTrace.Value.Basic

/-!
# The machine's store

An environment holds the variables, the arrays and the console lines of one run.
Variables and arrays are kept in the order their names were first set: setting a name
again replaces its entry where it stands. Reading an element of an undeclared array,
or at a position that is not an integer inside the array, gives `0`; writing there
changes nothing and reports failure.
-/

namespace DnclTrace

/-- Sets the entry of `k` to `v`: in place when `k` has an entry, else at the end. -/
def setEntry {α : Type} (k : String) (v : α) : List (String × α) → List (String × α)
  | [] => [(k, v)]
  | (k', v') :: rest => if k' = k then (k, v) :: rest else (k', v') :: setEntry k v rest

theorem lookup_setEntry {α : Type} (k : String) (v : α) (es : List (String × α)) :
    (setEntry k v es).lookup k = some v := by
  induction es with
  | nil => simp [setEntry]
  | cons e rest ih =>
    obtain ⟨k', v'⟩ := e
    by_cases h : k' = k
    · simp [setEntry, h]
    · have hk : (k == k') = false := beq_false_of_ne (Ne.symm h)
      simp [setEntry, h, List.lookup_cons, ih, hk]

/-- Variables, arrays and console lines of a run. -/
structure Env where
  vars : List (String × Value) := []
  arrays : List (String × List Value) := []
  console : List String := []

namespace Env

/-- The value of a variable. -/
def var? (env : Env) (name : String) : Option Value := env.vars.lookup name

/-- Sets a variable. -/
def setVar (env : Env) (name : String) (v : Value) : Env :=
  { env with vars := setEntry name v env.vars }

/-- The array is declared. -/
def hasArray (env : Env) (name : String) : Bool := (env.arrays.lookup name).isSome

/-- Declares an array with these elements, replacing any earlier one. -/
def declareArray (env : Env) (name : String) (vs : List Value) : Env :=
  { env with arrays := setEntry name vs env.arrays }

/-- The list index that a position value denotes in an array of length `n`. -/
def slot? (n : Nat) (pos : Value) : Option Nat :=
  match pos.position? with
  | some i => if 0 ≤ i ∧ i < n then some i.toNat else none
  | none => none

/-- The element at a position, `0` when there is none. -/
def readIndex (env : Env) (name : String) (pos : Value) : Value :=
  match env.arrays.lookup name with
  | some vs => match slot? vs.length pos with
    | some i => vs.getD i (.int 0)
    | none => .int 0
  | none => .int 0

/-- Stores an element; `none` when the array or the position does not exist. -/
def writeIndex (env : Env) (name : String) (pos : Value) (v : Value) : Option Env :=
  match env.arrays.lookup name with
  | some vs => match slot? vs.length pos with
    | some i => some (env.declareArray name (vs.set i v))
    | none => none
  | none => none

/-- Appends a console line. -/
def print (env : Env) (line : String) : Env := { env with console := env.console ++ [line] }

end Env

end DnclTrace
