import DnclTrace.Report.Listing
import DnclTrace.Program.Outline
import DnclTrace.Trace.Run

/-!
# The verbose report of a run

A verbose run reports as it goes: the statement outline once the program is read,
under a heading and followed by a blank line; a line `[step i] line l: description`
for each snapshot as it is recorded; and, when the run ends without failing, the
number of steps and snapshots, then a table of the run. The table gives the program's
size in lines and UTF-8 bytes, the statements read, the steps and snapshots made and
the diagnostics, with a note when the budget cut the run short.

The table also has a column for the time each stage took. Time is no part of what a
run computes, so the column shows every stage as taking no time.
-/

namespace DnclTrace

/-- Left-aligns a text in `width` columns. -/
def alignLeft (width : Nat) (s : String) : String := s.pushn ' ' (width - s.length)

theorem alignLeft_length (width : Nat) (s : String) :
    (alignLeft width s).length = max width s.length := by
  simp [alignLeft, String.length_pushn]
  omega

/-- The line a verbose run prints for a snapshot as it records it. -/
def Snapshot.stepLine (s : Snapshot) : String :=
  "[step " ++ toString s.stepIndex ++ "] line " ++ toString s.line ++ ": " ++ s.description

/-- The figures of a finished run that its table shows. -/
structure RunFigures where
  sourceLines : Nat
  sourceBytes : Nat
  statements : Nat
  steps : Nat
  snapshots : Nat
  diagnostics : Nat
  truncated : Bool

/-- The figures of a program read from `source` and run into `t`. -/
def RunFigures.of (source : String) (p : ParsedProgram) (t : Trace) : RunFigures :=
  ⟨p.lines.size, source.utf8ByteSize, (Stmt.walk p.stmts).length, t.stats.steps,
    t.snapshots.size, t.diagnostics.length, t.truncated⟩

/-- The time a stage took, in milliseconds with one decimal in eight columns. -/
def stageTime : String := alignRight 8 "0.0" ++ "ms"

/-- A row of the table: the stage left-aligned in twenty columns, its time and its
output right-aligned in ten and thirty. -/
def tableRow (stage time output : String) : String :=
  "  " ++ alignLeft 20 stage ++ " " ++ alignRight 10 time ++ "  " ++ alignRight 30 output

/-- The rule under the table's heading and under its rows. -/
def tableRule : String :=
  "  " ++ "".pushn '─' 20 ++ " " ++ "".pushn '─' 10 ++ "  " ++ "".pushn '─' 30

/-- The lines of a run's table. -/
def RunFigures.table (f : RunFigures) : List String :=
  ["═══ Pipeline Statistics ═══",
   "  Source: " ++ toString f.sourceLines ++ " lines, " ++ toString f.sourceBytes ++ " bytes",
   "",
   tableRow "Stage" "Time" "Output",
   tableRule,
   tableRow "Parse" stageTime (toString f.statements ++ " statements"),
   tableRow "Execute" stageTime
     (toString f.steps ++ " steps, " ++ toString f.snapshots ++ " snapshots"),
   tableRule,
   "  " ++ alignLeft 20 "Total" ++ " " ++ stageTime,
   "",
   "  Diagnostics: " ++ toString f.diagnostics ++
     (if f.truncated then "  (truncated by step budget)" else "")]

/-- What a verbose run prints once the program is read: the outline. -/
def outlineReport (p : ParsedProgram) : String :=
  "═══ Statements ═══\n" ++ Stmt.outlineText p.stmts ++ "\n\n"

/-- What a verbose run prints as it records the snapshots. -/
def stepReport (recorded : Array Snapshot) : String :=
  String.join (recorded.toList.map fun s => s.stepLine ++ "\n")

/-- What a verbose run prints when it ends without failing: the count of steps and
snapshots, then the table. -/
def finishReport (f : RunFigures) : String :=
  "\n(" ++ toString f.steps ++ " steps, " ++ toString f.snapshots ++ " snapshots)\n\n" ++
    "\n".intercalate f.table ++ "\n"

end DnclTrace
