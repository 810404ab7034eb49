import DnclTrace.Trace.Basic
import DnclTrace.Program.Outline

/-!
# Running a program

The machine walks the statement tree from an empty environment. Every executed
statement (assignment, array declaration, element assignment, output, loop header,
conditional) spends one step first, and every loop iteration one more; when the steps
exceed the budget the run stops where it is and the trace is marked truncated, with a
diagnostic at the line of the last step. Comments, blank and unrecognized lines are
passed over.

Each action records a snapshot right after its effect: an assignment, a declaration,
an element write, an output, each loop iteration as it begins (the counter set), and
each conditional as it is decided. A run that ends normally records a last snapshot at
the program's last line.

Before an assignment, declaration, element assignment or output evaluates anything,
every array its expressions read must be declared (for an element assignment, its
target first). An undeclared array, and a write outside an array, are absorbed: under
the lenient policy the statement does nothing but add a diagnostic, under the strict
policy the run fails with that message.

A counted loop evaluates start, end and step once, negates the step when counting down,
and repeats while the counter has not passed the end (upwards for a step of at least
zero, downwards otherwise); the counter is its own, so assigning to its variable in the
body does not move it. A conditional loop evaluates its condition before each iteration.

A run takes calls as deep as the statements are nested, two for each body; every
statement's expressions are evaluated, and the arrays they read listed, a few calls
below the statement (see `Expr.eval` and `SourceExpr.arrayNamesAt`).
-/

namespace DnclTrace

/-- Why a run stops before its end. -/
inductive Halt where
  /-- The step budget ran out. -/
  | budget
  /-- A strict failure, reported at a line. -/
  | failed (d : Diagnostic)
  /-- A fault. -/
  | fault (f : Fault)

/-- The machine's state during a run. -/
structure Machine where
  env : Env := {}
  snapshots : Array Snapshot := #[]
  diagnostics : Array Diagnostic := #[]
  steps : Nat := 0
  loopIterations : Nat := 0
  currentLine : Nat := 0

/-- A run in progress: the machine's state survives a stop. -/
abbrev Run := ExceptT Halt (StateM Machine)

/-- What a run is configured with. -/
structure RunConfig where
  maxSteps : Int
  policy : Policy

namespace Run

variable (cfg : RunConfig)

/-- Spends one step at a line; past the budget the run stops. -/
def tick (line : Nat) : Run Unit := do
  modify fun m => { m with currentLine := line, steps := m.steps + 1 }
  if cfg.maxSteps < ((← get).steps : Int) then throw .budget

/-- Records a snapshot of the current state. -/
def record (line : Nat) (description : String) : Run Unit :=
  modify fun m =>
    { m with snapshots := m.snapshots.push (m.env.snapshot m.snapshots.size line description) }

/-- Adds a diagnostic. -/
def note (d : Diagnostic) : Run Unit := modify fun m => { m with diagnostics := m.diagnostics.push d }

/-- Absorbs a problem of a statement under the policy. -/
def absorb (line : Nat) (kind : DiagnosticKind) (message : String) : Run Unit :=
  match cfg.policy with
  | .strict => throw (.failed ⟨line, .evaluationFailure, message⟩)
  | .lenient => note ⟨line, kind, message⟩

/-- Lifts a fault. -/
def orFault {α : Type} : Except Fault α → Run α
  | .ok a => pure a
  | .error f => throw (.fault f)

/-- The console text of a value. -/
def textOf (v : Value) : Run String := orFault v.display

/-- The first array read by these expressions that is not declared. The arrays of each
expression are listed `depth` calls deep, one expression after the other, and each
list is checked before the next is made. -/
def undeclaredIn (depth : Nat) (env : Env) : List SourceExpr → Except Fault (Option String)
  | [] => pure none
  | e :: es => do
    match (← e.arrayNamesAt depth).find? fun n => !env.hasArray n with
    | some n => pure (some n)
    | none => undeclaredIn depth env es

/-- Checks that the arrays read by the expressions of a statement run `depth` calls
deep are declared, absorbing the first that is not; the arrays are listed three calls
deeper. -/
def arraysDeclared (depth line : Nat) (es : List SourceExpr) : Run Bool := do
  match ← orFault (undeclaredIn (depth + 3) (← get).env es) with
  | some n =>
    absorb cfg line .undeclaredArray ("配列『" ++ n ++ "』は宣言されていません")
    pure false
  | none => pure true

/-- Evaluates an expression of a statement run `depth` calls deep, at a line under the
policy; the evaluation starts two calls deeper. -/
def evalAt (depth : Nat) (e : SourceExpr) (line : Nat) : Run Value := do
  match e.evaluate (depth + 2) cfg.policy (← get).env line with
  | .ok (v, ds) =>
    ds.forM (note ·)
    pure v
  | .error (.failed err) => throw (.failed ⟨line, .evaluationFailure, err.message⟩)
  | .error (.fault f) => throw (.fault f)

/-- Updates the environment. -/
def setEnv (f : Env → Env) : Run Unit := modify fun m => { m with env := f m.env }

/-- Runs an assignment, `depth` calls deep. -/
def assign (depth line : Nat) (target : String) (value : SourceExpr) : Run Unit := do
  if !(← arraysDeclared cfg depth line [value]) then return
  let v ← evalAt cfg depth value line
  setEnv (·.setVar target v)
  record line ("『" ++ target ++ "』に" ++ (← textOf v) ++ "を代入します。")

/-- Runs an array declaration, `depth` calls deep. The elements are evaluated one call
deeper, inside the call that collects their values. -/
def declare (depth line : Nat) (target : String) (elements : List SourceExpr) : Run Unit := do
  if !(← arraysDeclared cfg depth line elements) then return
  let vs ← elements.mapM (evalAt cfg (depth + 1) · line)
  setEnv (·.declareArray target vs)
  let shown ← vs.mapM textOf
  record line ("配列『" ++ target ++ "』を [" ++ ", ".intercalate shown ++ "] で初期化します。")

/-- Runs an element assignment, `depth` calls deep. -/
def store (depth line : Nat) (target : String) (index value : SourceExpr) : Run Unit := do
  if !(← get).env.hasArray target then
    absorb cfg line .undeclaredArray ("配列『" ++ target ++ "』は宣言されていません")
    return
  if !(← arraysDeclared cfg depth line [index, value]) then return
  let i ← evalAt cfg depth index line
  let v ← evalAt cfg depth value line
  match (← get).env.writeIndex target i v with
  | none =>
    absorb cfg line .indexOutOfRange ("『" ++ target ++ "[" ++ (← textOf i) ++ "]』は範囲外です")
  | some env =>
    setEnv fun _ => env
    record line ("『" ++ target ++ "[" ++ (← textOf i) ++ "]』に" ++ (← textOf v) ++ "を代入します。")

/-- Runs an output statement, `depth` calls deep. -/
def output (depth line : Nat) (parts : List OutputPart) : Run Unit := do
  let es := parts.filterMap fun
    | .literal _ => none
    | .expr e => some e
  if !(← arraysDeclared cfg depth line es) then return
  let pieces ← parts.mapM fun
    | .literal t => pure t
    | .expr e => do textOf (← evalAt cfg depth e line)
  let text := String.join pieces
  setEnv (·.print text)
  record line ("「" ++ text ++ "」を表示します。")

/-- Runs a statement without a body, `depth` calls deep. -/
def simple (depth : Nat) (c : Classified) : Run Unit :=
  match c.form with
  | .assign t v => assign cfg depth c.line t v
  | .arrayDeclare t es => declare cfg depth c.line t es
  | .indexAssign t i v => store cfg depth c.line t i v
  | .output ps => output cfg depth c.line ps
  | _ => pure ()

/-- The form takes a step when executed. -/
def Form.executes : Form → Bool
  | .assign .. | .arrayDeclare .. | .indexAssign .. | .output .. => true
  | .forLoop .. | .whileLoop .. | .conditional .. => true
  | _ => false

/-- The counter has not passed the end, in the direction of the step. -/
def inRange (counter stop step : Value) : Bool :=
  let up := match Value.compareExact step (.int 0) with
    | some .gt | some .eq => true
    | _ => false
  match Value.compareExact counter stop with
  | some .eq => true
  | some .lt => up
  | some .gt => !up
  | none => false

/-- One iteration of a loop begins: a step, the iteration counted. -/
def beginIteration (line : Nat) : Run Unit := do
  tick cfg line
  modify fun m => { m with loopIterations := m.loopIterations + 1 }

/-- The iterations of a counted loop from `counter`, each running `body`; `left` bounds
their number. -/
def counted (body : Run Unit) (left : Nat) (line : Nat) (name : String)
    (stop step counter : Value) : Run Unit :=
  match left with
  | 0 => throw .budget
  | left' + 1 =>
    if inRange counter stop step then do
      beginIteration cfg line
      setEnv (·.setVar name counter)
      record line ("繰り返し: " ++ name ++ " = " ++ (← textOf counter) ++ " として開始します。")
      body
      match Value.arith (· + ·) (· + ·) counter step with
      | some next => counted body left' line name stop step next
      | none => throw (.fault .intTooLarge)
    else pure ()

/-- The iterations of a conditional loop, its condition evaluated `depth` calls deep, each
running `body`; `left` bounds their number. -/
def repeated (body : Run Unit) (left : Nat) (depth line : Nat) (cond : SourceExpr) :
    Run Unit :=
  match left with
  | 0 => throw .budget
  | left' + 1 => do
    if (← evalAt cfg depth cond line).truthy then
      beginIteration cfg line
      record line ("条件『" ++ cond.source ++ "』が成り立つので繰り返します。")
      body
      repeated body left' depth line cond

mutual

/-- Runs a list of statements, each `depth` calls deep; `bound` caps the iterations of
every loop. -/
def block (bound depth : Nat) : List Stmt → Run Unit
  | [] => pure ()
  | s :: rest => do
    stmt bound depth s
    block bound depth rest

/-- Runs one statement, `depth` calls deep; the statements of its bodies run two calls
deeper. -/
def stmt (bound depth : Nat) : Stmt → Run Unit
  | .single c => do
    if Form.executes c.form then
      tick cfg c.line
      simple cfg depth c
  | .loop ⟨line, _, form⟩ body => do
    if Form.executes form then tick cfg line
    match form with
    | .forLoop name a b d desc => do
      let start ← evalAt cfg depth a line
      let stop ← evalAt cfg depth b line
      let step ← evalAt cfg depth d line
      counted cfg (block bound (depth + 2) body) bound line name stop
        (if desc then Value.applyUn .neg step else step) start
    | .whileLoop cond => repeated cfg (block bound (depth + 2) body) bound depth line cond
    | _ => pure ()
  | .branch ⟨line, _, form⟩ body orElse => do
    match form with
    | .conditional cond => do
      tick cfg line
      let taken := (← evalAt cfg depth cond line).truthy
      record line ("条件判定: 『" ++ cond.source ++
        (if taken then "』は成立します。" else "』は成立しません。"))
      if taken then block bound (depth + 2) body
      else match orElse with
        | some b => block bound (depth + 2) b
        | none => pure ()
    | _ => pure ()

end

end Run

/-- The text of the step budget's diagnostic. -/
def budgetMessage (maxSteps : Int) : String :=
  "実行ステップが上限 (" ++ toString maxSteps ++ ") に達しました"

/-- The description of the snapshot that ends a completed run. -/
def completionText : String := "プログラムの実行が終了しました。"

/-- The trace of a finished or truncated run. -/
def Machine.trace (m : Machine) (truncated : Bool) : Trace :=
  ⟨m.snapshots, ({} : Env).snapshot (-1) 0 "変数を初期化します。", truncated, m.diagnostics.toList,
    ⟨m.steps, m.snapshots.size, m.loopIterations, m.env.console.length, truncated⟩⟩

/-- The machine a program's run starts from: an empty state and the diagnostics of its
reading. -/
def ParsedProgram.start (p : ParsedProgram) : Machine := { diagnostics := p.diagnostics.toArray }

/-- Runs the statements of a parsed program, `depth` calls deep, so that they run two
calls deeper; no loop may iterate more often than one past the budget. -/
def ParsedProgram.runStmts (depth : Nat) (p : ParsedProgram) (cfg : RunConfig) :
    Except Halt Unit × Machine :=
  (Run.block cfg (cfg.maxSteps.toNat + 1) (depth + 2) p.stmts).run.run p.start

/-- Runs a parsed program, `depth` calls deep: how the run ended, where a strict failure
or a fault stops it, and the snapshots it recorded, kept also when it stopped. -/
def ParsedProgram.outcome (depth : Nat) (p : ParsedProgram) (cfg : RunConfig) :
    Except Halt Trace × Array Snapshot :=
  let (res, m) := p.runStmts depth cfg
  match res with
  | .ok () =>
    let last := lastLineNumber p.lines
    let m := { m with snapshots :=
      m.snapshots.push (m.env.snapshot m.snapshots.size last completionText) }
    (pure (m.trace false), m.snapshots)
  | .error .budget =>
    let d : Diagnostic := ⟨m.currentLine, .stepBudgetExhausted, budgetMessage cfg.maxSteps⟩
    (pure ({ m with diagnostics := m.diagnostics.push d }.trace true), m.snapshots)
  | .error e => (throw e, m.snapshots)

/-- Runs a parsed program, `depth` calls deep; a strict failure or a fault stops it. -/
def ParsedProgram.execute (depth : Nat) (p : ParsedProgram) (cfg : RunConfig) :
    Except Halt Trace :=
  (p.outcome depth cfg).1

/-- The message of every failed compilation. -/
def compileErrorMessage : String := "プログラムの実行中にエラーが発生しました。"

/-- Reads, counts and runs a program, `depth` calls deep: reading and running each start
one call deeper, and the statements are counted in reading order by a generator two
calls deep. A failure carries the diagnostic of the line that caused it, or nothing
when it was a fault. -/
def compile (depth : Nat) (source : String) (maxSteps : Int) (policy : Policy) :
    Except (Option Diagnostic) Trace :=
  match ParsedProgram.read (depth + 1) source policy with
  | .error (.rejected d) => throw (some d)
  | .error (.fault _) => throw none
  | .ok p =>
    if callLimit < depth + 2 + Stmt.walkCalls p.stmts then throw none else
    match p.execute (depth + 1) ⟨maxSteps, policy⟩ with
    | .ok t => pure t
    | .error (.failed d) => throw (some d)
    | .error _ => throw none

end DnclTrace
