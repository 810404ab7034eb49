import DnclTrace.Expr.Source
import DnclTrace.Env
import DnclTrace.Value.Text
import DnclTrace.Diagnostic

/-!
# Evaluating expressions

An expression is evaluated against an environment, operands left before right and
both always: there is no short circuit. A variable must be set; an array element that
does not exist reads as `0`. An operator without a value for its operands is an
evaluation error that quotes the operands and the operator.

Under the lenient policy an evaluation error gives the value `0` and a diagnostic at
the statement's line that quotes the expression; under the strict policy it stops the
run. A fault stops the run under either policy.

Evaluation runs on the call stack, below whatever started it, and takes calls as deep
as the tree: a node takes one call and each operand two more, and operators, array
reads and errors take a few steps of their own. The first step that would pass
`callLimit` stops with `Fault.tooDeep`, which names the kind of that step. Operands are
evaluated first, so an error found in an operand comes before an operator that would
not fit.
-/

namespace DnclTrace

/-- Why an expression has no value. -/
inductive EvalError where
  /-- The expression text has no tree. -/
  | unparsed (e : Expr.SyntaxError)
  /-- A variable that was never set. -/
  | undefined (name : String)
  /-- An operator without a value for these operands (written out). -/
  | uncomputable (lhs : String) (op : BinOp) (rhs : String)
  deriving DecidableEq, Repr

/-- The report of an evaluation error. -/
def EvalError.message : EvalError → String
  | .unparsed e => e.message
  | .undefined n => "変数『" ++ n ++ "』は定義されていません"
  | .uncomputable l op r => l ++ " " ++ op.symbol ++ " " ++ r ++ " を計算できません"

/-- Why evaluation stops. -/
inductive EvalStop where
  | failed (e : EvalError)
  | fault (f : Fault)

/-- How evaluation errors are handled. -/
inductive Policy where
  /-- An error gives `0` and a diagnostic. -/
  | lenient
  /-- An error stops the run. -/
  | strict
  deriving DecidableEq, Repr

/-- The steps a node takes below itself, each with how many calls below the node it is
and what kind of step it is, in the order they are taken. -/
abbrev Steps := List (Nat × Overrun)

/-- Every node first enters the procedure for its kind of node. -/
def nodeSteps : Steps := [(1, .enter)]

/-- The steps reading an array element takes: a procedure for the array; for an
existing array, one more that finds the position among the elements, and for a real
position a built-in test that it has no fraction. -/
def Env.readSteps (env : Env) (name : String) (pos : Value) : Steps :=
  match env.arrays.lookup name with
  | none => [(2, .enter)]
  | some _ => if pos.isInt then [(2, .enter), (3, .enter)] else [(2, .enter), (3, .enter), (4, .builtin)]

/-- The integer fits in one machine digit of thirty bits, which a comparison with it
handles without a call. -/
def Value.isSmallInt : Value → Bool
  | .int n => n.natAbs < Nat.pow 2 30
  | .real _ => false

/-- The steps of a unary operator: the procedure applying it; negation also converts its
result to an integer with a built-in. -/
def UnOp.steps : UnOp → Steps
  | .neg | .pos => [(2, .enter)]
  | .not => [(2, .enter), (3, .builtin)]

/-- The test that a divisor is zero, which compares unless the divisor is a small
integer. -/
def zeroTest (b : Value) : Steps :=
  if b.isSmallInt then [] else [(4, .compare)]

/-- The steps of a binary operator, given its right operand: the procedure applying
operators and the one for this operator; then a comparison for the zero test of a
divisor, a built-in that converts the result of a division carried out, a comparison
and a conversion for a comparison operator, and a conversion for a logical one. -/
def BinOp.steps (op : BinOp) (b : Value) : Steps :=
  let base : Steps := [(2, .enter), (3, .enter)]
  let converted : Steps := if b.isZero then [] else [(4, .builtin)]
  match op with
  | .add | .sub | .mul => base
  | .mod => base ++ zeroTest b
  | .div | .floorDiv => base ++ zeroTest b ++ converted
  | .eq | .ne | .lt | .gt | .le | .ge => base ++ [(4, .compare), (4, .builtin)]
  | .and | .or => base ++ [(4, .builtin)]

/-- The steps of writing an operand into the message of an evaluation error: an integer
is written directly, a real through a built-in. -/
def Value.textSteps : Value → Steps
  | .int _ => [(2, .text)]
  | .real _ => [(2, .builtin), (3, .text)]

/-- The steps raising an evaluation error takes: building the error, its procedure and
the one it inherits. -/
def errorSteps : Steps := [(2, .builtin), (3, .enter), (4, .builtin)]

/-- Takes the steps in order with `room` calls left, stopping with `Fault.tooDeep` at
the first that does not fit. -/
def reach (room : Nat) : Steps → Except EvalStop Unit
  | [] => pure ()
  | (need, o) :: rest => if need ≤ room then reach room rest else throw (.fault (.tooDeep o))

/-- The value of a tree in an environment, with `room` calls left below it. A node
enters its procedure, its operands are evaluated two calls below it, and its operator
or array read takes its own steps. -/
def Expr.eval (env : Env) (room : Nat) : Expr → Except EvalStop Value
  | .num v => do
    reach room nodeSteps
    pure v
  | .var n => do
    reach room nodeSteps
    match env.var? n with
    | some v => pure v
    | none =>
      reach room errorSteps
      throw (.failed (.undefined n))
  | .index n p => do
    reach room nodeSteps
    let i ← Expr.eval env (room - 2) p
    reach room (env.readSteps n i)
    pure (env.readIndex n i)
  | .unary op e => do
    reach room nodeSteps
    let v ← Expr.eval env (room - 2) e
    reach room op.steps
    pure (Value.applyUn op v)
  | .binary op l r => do
    reach room nodeSteps
    let a ← Expr.eval env (room - 2) l
    let b ← Expr.eval env (room - 2) r
    reach room (op.steps b)
    match Value.applyBin op a b with
    | .ok (some v) => pure v
    | .ok none =>
      reach room a.textSteps
      let sa ← match a.text with
        | .ok s => pure s
        | .error f => throw (.fault f)
      reach room b.textSteps
      let sb ← match b.text with
        | .ok s => pure s
        | .error f => throw (.fault f)
      reach room errorSteps
      throw (.failed (.uncomputable sa op sb))
    | .error f => throw (.fault f)

theorem eval_num (env : Env) (room : Nat) (v : Value) (h : 0 < room) :
    (Expr.num v).eval env room = pure v := by
  simp [Expr.eval, reach, nodeSteps, Nat.one_le_iff_ne_zero.2 (Nat.pos_iff_ne_zero.1 h), bind,
    Except.bind, pure, Except.pure]

namespace SourceExpr

/-- The value of a written expression evaluated `depth` calls deep, an error when it
has no tree. The tree's root is evaluated two calls deeper. -/
def evalStrict (depth : Nat) (env : Env) (e : SourceExpr) : Except EvalStop Value :=
  match e.tree with
  | .error err => throw (.failed (.unparsed err))
  | .ok t => t.eval env (callLimit - (depth + 2))

/-- The diagnostic of a lenient evaluation error. -/
def failureDiagnostic (e : SourceExpr) (line : Nat) (err : EvalError) : Diagnostic :=
  ⟨line, .evaluationFailure, "『" ++ e.source ++ "』: " ++ err.message⟩

/-- Evaluates under a policy at a line, `depth` calls deep: the value with the
diagnostics raised, or what stops the run. -/
def evaluate (depth : Nat) (policy : Policy) (env : Env) (line : Nat) (e : SourceExpr) :
    Except EvalStop (Value × List Diagnostic) :=
  match e.evalStrict depth env with
  | .ok v => pure (v, [])
  | .error (.failed err) =>
    match policy with
    | .lenient => pure (.int 0, [e.failureDiagnostic line err])
    | .strict => throw (.failed err)
  | .error (.fault f) => throw (.fault f)

theorem evaluate_lenient_ok (depth : Nat) (env : Env) (line : Nat) (e : SourceExpr) (v : Value)
    (h : e.evalStrict depth env = .ok v) : e.evaluate depth .lenient env line = .ok (v, []) := by
  simp [evaluate, h, pure, Except.pure]

end SourceExpr

end DnclTrace
