import DnclTrace.Cli.Options
import DnclTrace.Report.Listing
import DnclTrace.Report.Verbose
import DnclTrace.Program.Outline
import DnclTrace.Trace.Run

/-!
# The command

The command reads a program from its file, or runs a built-in demo (printed first)
when no file is named, and prints one of four reports:

* `--parse-only`: the statement outline under a heading;
* `--stats`: the number of statements of each kind, as a JSON object;
* `--json`: the whole trace as a JSON document;
* otherwise the listing of every snapshot, the final console and the diagnostics.

The outline and the counts read the program under the chosen policy; a strict
rejection is reported like a failed run. A run that fails prints the failure message
and the diagnostic that caused it, if any, on the error stream and ends with status 1.
A command line that cannot be read prints the usage and the error and ends with
status 2; `--help` prints the help text.

Reading the program can fault (a numeral too long to read); that is not handled and
ends the command as a `Crash`, as does a file that cannot be read and a log level
that is no text.
-/

namespace DnclTrace.Cli

/-- What a command prints, and its exit status. -/
structure Response where
  stdout : String := ""
  stderr : String := ""
  exit : Nat := 0

/-- The name the command calls itself in its usage and help. -/
def programName : String := "dncl-studio"

/-- What looking for a file finds. -/
inductive Lookup where
  /-- The file and its text. -/
  | contents (text : String)
  /-- Nothing by that name. -/
  | missing
  /-- A directory. -/
  | directory

/-- A failure the command does not handle. -/
inductive Crash where
  /-- A fault while reading the program. -/
  | fault (f : Fault)
  /-- The log level was given as a lone `--` and so is no text. -/
  | noLogLevel
  /-- The named file's path holds a null character. -/
  | nullInPath
  /-- The named file does not exist. -/
  | missingFile (path : String)
  /-- The named file is a directory. -/
  | directory (path : String)

/-- The kind of an unhandled failure. -/
def Crash.kind : Crash → String
  | .fault _ | .nullInPath => "ValueError"
  | .noLogLevel => "AttributeError"
  | .missingFile _ => "FileNotFoundError"
  | .directory _ => "IsADirectoryError"

/-- The report of an unhandled failure. -/
def Crash.message : Crash → String
  | .fault f => f.message
  | .noLogLevel => "\x27list\x27 object has no attribute \x27upper\x27"
  | .nullInPath => "embedded null byte"
  | .missingFile p => "[Errno 2] No such file or directory: " ++ Text.quote p
  | .directory p => "[Errno 21] Is a directory: " ++ Text.quote p

/-- The program run when no file is named. -/
def demoProgram : String :=
  "合計 = 0\n" ++
  "i を 1 から 5 まで 1 ずつ増やしながら繰り返す:\n" ++
  "    合計 = 合計 + i\n" ++
  "    「i = 」, i, 「 : 合計 = 」, 合計 を表示する\n" ++
  "もし 合計 > 10 ならば:\n" ++
  "    「10を超えました」を表示する\n" ++
  "そうでなければ:\n" ++
  "    「10以下です」を表示する\n"

/-- The width the usage and help are laid out in. -/
def textWidth : Nat := 78

/-- The usage form of each option, in declaration order. -/
def optionForms : List String :=
  ["[-h]", "[--max-steps MAX_STEPS]", "[--strict]", "[--verbose]", "[--json]",
    "[--parse-only]", "[--stats]", "[--log-level LOG_LEVEL]"]

/-- The usage form of the file argument. -/
def fileForms : List String := ["[file]"]

/-- Fills lines of at most `textWidth` columns with parts separated by a blank, each
line after the first starting with `indent`; `start` is where the first line's text
starts. -/
def fillLines (indent : String) (start : Nat) (parts : List String) : List String :=
  let step := fun (acc : List (List String) × List String × Nat) (part : String) =>
    let (done, line, len) := acc
    if textWidth < len + 1 + part.length && !line.isEmpty then
      (done ++ [line], [part], indent.length - 1 + part.length + 1)
    else (done, line ++ [part], len + part.length + 1)
  let (done, line, _) := parts.foldl step ([], [], start - 1)
  let lines := if line.isEmpty then done else done ++ [line]
  lines.map (" ".intercalate ·)

/-- The usage lines of a program called `prog`, after `usage: `. -/
def usageLines (prog : String) : List String :=
  let lead := "usage: "
  let one := prog ++ " " ++ " ".intercalate (optionForms ++ fileForms)
  if lead.length + one.length ≤ textWidth then [one]
  else if 4 * (lead.length + prog.length) ≤ 3 * textWidth then
    let indent := "".pushn ' ' (lead.length + prog.length + 1)
    match fillLines indent lead.length (prog :: optionForms) with
    | [] => []
    | first :: rest =>
      first :: rest.map (indent ++ ·) ++ (fillLines indent indent.length fileForms).map (indent ++ ·)
  else
    let indent := "".pushn ' ' lead.length
    let whole := fillLines indent indent.length (optionForms ++ fileForms)
    let body := if whole.length ≤ 1 then whole
      else fillLines indent indent.length optionForms ++ fillLines indent indent.length fileForms
    prog :: body.map (indent ++ ·)

/-- The usage text, ending with a line break. -/
def usage (prog : String) : String := "usage: " ++ "\n".intercalate (usageLines prog) ++ "\n"

/-- An option's line of the help: its names, then its help from column 24, or on the
next line when the names are too long. -/
def helpEntry (names help : String) : String :=
  if names.length ≤ 20 then "  " ++ names ++ "".pushn ' ' (22 - names.length) ++ help ++ "\n"
  else "  " ++ names ++ "\n" ++ "".pushn ' ' 24 ++ help ++ "\n"

/-- The help text. -/
def helpText (prog : String) : String :=
  usage prog ++ "\nDNCL step-by-step interpreter\n\npositional arguments:\n" ++
    helpEntry "file" "DNCL source file (default: built-in demo)" ++
    "\noptions:\n" ++
    helpEntry "-h, --help" "show this help message and exit" ++
    helpEntry "--max-steps MAX_STEPS, -n MAX_STEPS" "Global step budget (default: 10000)" ++
    helpEntry "--strict" "Fail on unrecognized lines and evaluation errors" ++
    helpEntry "--verbose, -v" "Print the statement tree, each step and timings" ++
    helpEntry "--json" "Print the whole trace as JSON" ++
    helpEntry "--parse-only" "Only print the statement tree (no execution)" ++
    helpEntry "--stats" "Only print statement kind counts (no execution)" ++
    helpEntry "--log-level LOG_LEVEL" "Logging level (default: WARNING)"

/-- The response to a command line that cannot be read. -/
def usageFailure (prog : String) (e : UsageError) : Response :=
  { stderr := usage prog ++ prog ++ ": error: " ++ e.message ++ "\n", exit := 2 }

/-- A failed run after `printed`: the failure message and its diagnostics. -/
def failure (printed : String) (ds : List Diagnostic) : Response :=
  { stdout := printed,
    stderr := compileErrorMessage ++ "\n" ++ String.join (ds.map fun d => "  " ++ d.render ++ "\n"),
    exit := 1 }

/-- The policy the options ask for. -/
def Options.policy (o : Options) : Policy := if o.strict then .strict else .lenient

/-- Reads the program for the outline or the counts, for a command run `depth` calls
deep: the reading starts four calls deeper. -/
def readProgram (depth : Nat) (o : Options) (source : String) :
    Except Crash (Except Diagnostic ParsedProgram) :=
  match ParsedProgram.read (depth + 4) source o.policy with
  | .ok p => pure (.ok p)
  | .error (.rejected d) => pure (.error d)
  | .error (.fault f) => throw (.fault f)

/-- The final report of a finished run: the whole trace as JSON, or else the text
`listed`. -/
def finalReport (o : Options) (t : Trace) (listed : Except Fault String) : Except Crash String :=
  match (if o.json then (t.toJson.write false 0).map (· ++ "\n") else listed) with
  | .ok text => pure text
  | .error f => throw (.fault f)

/-- A verbose run after `printed`, for a command run `depth` calls deep: the run starts
one call deeper. What it prints as it goes stays printed when it fails; a run that
finishes is closed by the final report, where the listing leaves out the snapshots
already shown. A step budget that is no number fails the run at its first step. -/
def verboseReport (depth : Nat) (o : Options) (printed source : String) :
    Except Crash Response :=
  match ParsedProgram.read (depth + 2) source o.policy with
  | .error (.rejected d) => pure (failure printed [d])
  | .error (.fault _) => pure (failure printed [])
  | .ok p =>
    let (res, recorded) := p.outcome (depth + 2) ⟨o.maxSteps.getD (-1), o.policy⟩
    let shown := printed ++ outlineReport p ++ stepReport recorded
    match res with
    | .error (.failed d) => pure (failure shown [d])
    | .error _ => pure (failure shown [])
    | .ok t =>
      if o.maxSteps.isNone && t.truncated then pure (failure shown [])
      else do
        let text ← finalReport o t (pure t.closing)
        pure { stdout := shown ++ finishReport (RunFigures.of source p t) ++ text }

/-- The reports of a program, after `printed` (the demo's text, if any). A step budget
that is no number fails the run at its first step, so the run is made with a budget
of none: a run that never steps does not notice. The command runs `depth` calls
deep, and a run starts two calls deeper. -/
def report (depth : Nat) (o : Options) (printed source : String) : Except Crash Response :=
  if o.parseOnly then do
    match ← readProgram depth o source with
    | .error d => pure (failure printed [d])
    | .ok p =>
      pure { stdout := printed ++ "═══ Statements ═══\n" ++ Stmt.outlineText p.stmts ++ "\n" }
  else if o.stats then do
    match ← readProgram depth o source with
    | .error d => pure (failure printed [d])
    | .ok p =>
      let counts := JsonValue.obj ((Stmt.kindCounts p.stmts).map fun (k, n) => (k, .int n))
      match counts.write true 0 with
      | .ok text => pure { stdout := printed ++ text ++ "\n" }
      | .error f => throw (.fault f)
  else
    if o.verbose then verboseReport depth o printed source
    else
      match compile (depth + 2) source (o.maxSteps.getD (-1)) o.policy with
      | .error d => pure (failure printed d.toList)
      | .ok t =>
        if o.maxSteps.isNone && t.truncated then pure (failure printed [])
        else do
          let text ← finalReport o t t.listing
          pure { stdout := printed ++ text }

/-- Runs the command line `args`, `depth` calls deep; `find` looks for a file. -/
def respond (depth : Nat) (args : List String) (find : String → Lookup) :
    Except Crash Response :=
  match Request.read args with
  | .error e => pure (usageFailure programName e)
  | .ok .help => pure { stdout := helpText programName }
  | .ok (.run o) =>
    if o.logLevel.isNone then throw .noLogLevel
    else match o.file with
    | none | some "" =>
      report depth o ("No file provided. Using built-in demo:\n\n" ++ demoProgram ++ "\n")
        demoProgram
    | some path =>
      if path.toList.contains (Char.ofNat 0) then throw .nullInPath
      else match find path with
      | .contents source => report depth o "" source
      | .missing => throw (.missingFile path)
      | .directory => throw (.directory path)

end DnclTrace.Cli
