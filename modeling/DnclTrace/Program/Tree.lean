import DnclTrace.Program.Block
import DnclTrace.Line.Classify
import DnclTrace.Expr.Eval

/-!
# The statement tree

Every line is classified first. The tree is then read from the top-level lines in
order: a loop header takes its block as body; a conditional takes its body and, when
its block continues with an else marker, the else body, or with an else-if marker, a
one-element else body holding the next conditional of the chain (the marker's line,
text and condition). Reading resumes after everything a statement consumed.

A line that fits no form, and an else or else-if marker that continues no conditional,
is reported. Under the lenient policy the report becomes a diagnostic and a stray marker
stays in the tree as an unrecognized line, its own block skipped; under the strict
policy the first report ends reading.

Reading runs on the call stack, as deep as the statements nest: it is given the room,
the calls left below `callLimit`, and stops with `Fault.tooDeep` where a step would
need more. A loop reads its body one call deeper and a conditional two, the next
conditional of a chain one call deeper than the one it continues; resolving a block
takes `blockCalls` calls above the frame that asks, and a report `reportCalls`. Each
step down the tree moves to a later line, so a room of twice the line count and two
never runs short.
-/

namespace DnclTrace

/-- A statement of the program tree. -/
inductive Stmt where
  /-- A statement without a body. -/
  | single (c : Classified)
  /-- A counted or conditional loop and its body. -/
  | loop (c : Classified) (body : List Stmt)
  /-- A conditional, its body and its else body (`none` when it has no else). -/
  | branch (c : Classified) (body : List Stmt) (orElse : Option (List Stmt))

/-- The classified line of a statement. -/
def Stmt.head : Stmt → Classified
  | .single c | .loop c _ | .branch c _ _ => c

/-- Why reading a program stops. -/
inductive ReadStop where
  /-- A strict report. -/
  | rejected (d : Diagnostic)
  /-- A fault: while classifying, or a reading nested past `callLimit`. -/
  | fault (f : Fault)

/-- Reading the tree: the diagnostics so far, or what stops it. -/
abbrev Reading := StateT (List Diagnostic) (Except ReadStop)

/-- The calls resolving a block takes above the frame that asks for it: the resolution,
the scan of the lines after the header, and the blank test of a line. -/
def blockCalls : Nat := 3

/-- The calls a report takes above the frame that makes it: the report, and the record
of its diagnostic, built three calls below. -/
def reportCalls : Nat := 4

/-- The calls reading a line of this kind takes above the reading frame: a loop resolves
its block, a stray marker and a line that fits no form are reported; any other line
takes one, the comparison of its kind, or for a conditional its own frame. -/
def StmtKind.readCalls : StmtKind → Nat
  | .forLoop | .whileLoop => blockCalls
  | .elseIf | .elseMarker | .unrecognized => reportCalls
  | _ => 1

theorem StmtKind.one_le_readCalls (k : StmtKind) : 1 ≤ k.readCalls := by
  cases k <;> decide

theorem StmtKind.readCalls_le (k : StmtKind) : k.readCalls ≤ reportCalls := by
  cases k <;> decide

theorem StmtKind.readCalls_eq_one {k : StmtKind}
    (hk : k ∉ [.forLoop, .whileLoop, .conditional, .elseIf, .elseMarker, .unrecognized]) :
    k.readCalls = 1 := by
  cases k <;> simp_all [readCalls]

/-- What the tree is read from. -/
structure TreeSource where
  lines : Array SourceLine
  classified : Array Classified
  policy : Policy

namespace TreeSource

variable (r : TreeSource)

/-- Reports a line under the policy. -/
def report (d : Diagnostic) : Reading Unit :=
  match r.policy with
  | .strict => throw (.rejected d)
  | .lenient => modify (· ++ [d])

/-- The classified line at an index. -/
def lineAt (i : Nat) : Classified := r.classified[i]?.getD ⟨0, "", .blank⟩

/-- The kinds of all lines. -/
def kinds : Array StmtKind := r.classified.map (·.form.kind)

/-- The block of the line at an index (without else markers). -/
def plainBlock (i : Nat) : Block := (Block.resolve r.lines i none).getD { body := [], next := i + 1 }

/-- The block of a conditional at an index, else markers included. -/
def condBlock (i : Nat) : Block :=
  (Block.resolve r.lines i (some r.kinds)).getD { body := [], next := i + 1 }

mutual

/-- Reads the statements at the given line indices, skipping lines a statement consumed,
with `room` calls left above the reading frame. -/
def readRange (room : Nat) (indices : List Nat) : Reading (List Stmt) :=
  match indices with
  | [] => pure []
  | i :: rest => do
    let (s, resume) ← readAt room i
    let more ← readRange room (rest.dropWhile (· < resume))
    pure (s :: more)
termination_by (room, indices.length + 1)
decreasing_by
  · apply Prod.Lex.right; omega
  · apply Prod.Lex.right
    have := (List.dropWhile_suffix (fun x => decide (x < resume)) (l := rest)).length_le
    simp only [List.length_cons]
    omega

/-- Reads the statement at a line index; the index where reading resumes. Reading stops
first when the line's kind needs more calls than are left. -/
def readAt (room : Nat) (i : Nat) : Reading (Stmt × Nat) :=
  let c := r.lineAt i
  if h : room < c.form.kind.readCalls then throw (.fault (.tooDeep .enter)) else
  match c.form.kind with
  | .forLoop | .whileLoop => do
    let b := r.plainBlock i
    let body ← readRange (room - 1) b.body
    pure (.loop c body, b.next)
  | .conditional => readConditional (room - 1) c i
  | .elseIf | .elseMarker => do
    r.report ⟨c.line, .strayElse, "対応する「もし」がありません: " ++ c.text⟩
    pure (.single ⟨c.line, c.text, .unrecognized⟩, (r.plainBlock i).next)
  | .unrecognized => do
    r.report ⟨c.line, .unrecognizedLine, "解釈できない行です: " ++ c.text⟩
    pure (.single c, i + 1)
  | _ => pure (.single c, i + 1)
termination_by (room, 0)
decreasing_by
  all_goals
    apply Prod.Lex.left
    have := StmtKind.one_le_readCalls c.form.kind
    omega

/-- Reads a conditional at a line index, with its else body or else-if chain, `room`
calls left above its own frame. -/
def readConditional (room : Nat) (c : Classified) (i : Nat) : Reading (Stmt × Nat) :=
  if h : room < blockCalls then throw (.fault (.tooDeep .enter)) else do
    let b := r.condBlock i
    let body ← readRange (room - 1) b.body
    match b.elseIndex with
    | none => pure (.branch c body none, b.next)
    | some k =>
      let marker := r.lineAt k
      match marker.form with
      | .elseIf cond => do
        let (s, resume) ← readConditional (room - 1) ⟨marker.line, marker.text, .conditional cond⟩ k
        pure (.branch c body (some [s]), resume)
      | _ => do
        let eb ← readRange (room - 1) b.elseBody
        pure (.branch c body (some eb), b.next)
termination_by (room, 0)
decreasing_by all_goals (apply Prod.Lex.left; unfold blockCalls at h; omega)

end

end TreeSource

/-- A program read into its tree. -/
structure ParsedProgram where
  lines : Array SourceLine
  stmts : List Stmt
  diagnostics : List Diagnostic

/-- The lines of a program, each classified `depth + 2` calls deep, to be read under a
policy. -/
def TreeSource.ofSource (depth : Nat) (source : String) (policy : Policy) :
    Except Fault TreeSource := do
  let lines := SourceLine.ofSource source
  let classified ← lines.toList.mapM fun l => Line.classify (depth + 2) l.text l.number
  pure ⟨lines, classified.toArray, policy⟩

/-- Reads the tree from all lines, the reader running `depth` calls deep and reading the
top-level lines one call deeper; what stops it. -/
def TreeSource.tree (r : TreeSource) (depth : Nat) : Except ReadStop ParsedProgram :=
  match (r.readRange (callLimit - (depth + 1)) (List.range r.lines.size)).run [] with
  | .ok (stmts, ds) => pure ⟨r.lines, stmts, ds⟩
  | .error e => throw e

/-- Reads a program under a policy, `depth` calls deep; each line is classified two
calls deeper. -/
def ParsedProgram.read (depth : Nat) (source : String) (policy : Policy) :
    Except ReadStop ParsedProgram := do
  let r ← (TreeSource.ofSource depth source policy).mapError .fault
  r.tree depth

end DnclTrace
