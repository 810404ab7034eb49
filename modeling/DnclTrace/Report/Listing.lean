import DnclTrace.Report.Json
import DnclTrace.Trace.Cursor

/-!
# Reports of a trace

Two reports of a finished trace. The listing replays the trace from its first
snapshot: each snapshot gives a header line `[step] line N  description` (the step
right-aligned in four columns, the line number in three), then the variables, when
there are any, on one line as `name=value`, then one line per array with its elements
in brackets. Values are written as text (a real keeps its point, `3.0`). After the
snapshots come the console lines of the final state and the diagnostics, under a
console heading.

The JSON report holds the snapshots (line, variables, arrays, console, description),
whether the run was truncated, and the diagnostics (line, kind, message).
-/

namespace DnclTrace

/-- The document of a value: an integer or a real number. -/
def Value.toJson : Value → JsonValue
  | .int n => .int n
  | .real x => .real x

/-- The document of a diagnostic. -/
def Diagnostic.toJson (d : Diagnostic) : JsonValue :=
  .obj [("line", .int d.line), ("kind", .str d.kind.name), ("message", .str d.message)]

/-- The document of a snapshot. -/
def Snapshot.toJson (s : Snapshot) : JsonValue :=
  .obj [("line", .int s.line),
    ("variables", .obj (s.vars.map fun (k, v) => (k, v.toJson))),
    ("arrays", .obj (s.arrays.map fun (k, vs) => (k, .arr (vs.map Value.toJson)))),
    ("console", .arr (s.console.map .str)),
    ("description", .str s.description)]

/-- The document of a trace. -/
def Trace.toJson (t : Trace) : JsonValue :=
  .obj [("snapshots", .arr (t.snapshots.toList.map Snapshot.toJson)),
    ("truncated", .bool t.truncated),
    ("diagnostics", .arr (t.diagnostics.map Diagnostic.toJson))]

/-- Right-aligns a text in `width` columns. -/
def alignRight (width : Nat) (s : String) : String := "".pushn ' ' (width - s.length) ++ s

theorem alignRight_length (width : Nat) (s : String) :
    (alignRight width s).length = max width s.length := by
  simp [alignRight, String.length_append, String.length_pushn]
  omega

/-- The listing lines of one snapshot. -/
def Snapshot.listing (s : Snapshot) : Except Fault (List String) := do
  let header := "[" ++ alignRight 4 (toString s.stepIndex) ++ "] line " ++
    alignRight 3 (toString s.line) ++ "  " ++ s.description
  let vars ← s.vars.mapM fun (k, v) => do pure (k ++ "=" ++ (← v.text))
  let varLines := if vars.isEmpty then [] else ["        vars: " ++ ", ".intercalate vars]
  let arrayLines ← s.arrays.mapM fun (k, vs) => do
    pure ("        " ++ k ++ ": " ++ (← Value.listWith Value.text vs))
  pure (header :: varLines ++ arrayLines)

/-- The closing of a listing: a blank line, the console heading, the final console
lines and the diagnostics. Each line ends with a line break. -/
def Trace.closing (t : Trace) : String :=
  let lines := "" :: "═══ Console ═══" :: (t.final.console.map ("  ❯ " ++ ·)) ++
    t.diagnostics.map (fun d => "  ! " ++ d.render)
  String.join (lines.map (· ++ "\n"))

/-- The listing of a trace: every snapshot from the first, then its closing. Each line
ends with a line break. -/
def Trace.listing (t : Trace) : Except Fault String := do
  let (shown, _) := ({ trace := t } : Cursor).iterate
  let steps ← shown.mapM Snapshot.listing
  pure (String.join (steps.flatten.map (· ++ "\n")) ++ t.closing)

end DnclTrace
