import DnclTrace.Env
import DnclTrace.Diagnostic

/-!
# Snapshots and traces

A snapshot is the machine's state right after one observable action, with the line
that caused it and a sentence describing it; the step index counts the snapshots
before it. A trace holds the snapshots of a run, the initial (empty) state, the
diagnostics, whether the step budget cut the run short, and counters of the work done.
-/

namespace DnclTrace

/-- The state after one action. -/
structure Snapshot where
  /-- The position in the trace; `-1` for the initial state. -/
  stepIndex : Int
  line : Nat
  description : String
  vars : List (String × Value)
  arrays : List (String × List Value)
  console : List String

/-- A snapshot of an environment. -/
def Env.snapshot (env : Env) (stepIndex : Int) (line : Nat) (description : String) : Snapshot :=
  ⟨stepIndex, line, description, env.vars, env.arrays, env.console⟩

/-- Counters of a run. -/
structure TraceStats where
  steps : Nat
  snapshots : Nat
  loopIterations : Nat
  consoleLines : Nat
  truncated : Bool

/-- Everything a run records. -/
structure Trace where
  snapshots : Array Snapshot
  initial : Snapshot
  truncated : Bool
  diagnostics : List Diagnostic
  stats : TraceStats

/-- The last snapshot, or the initial state when there is none. -/
def Trace.final (t : Trace) : Snapshot := t.snapshots.back?.getD t.initial

end DnclTrace
