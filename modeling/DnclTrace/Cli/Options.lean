import DnclTrace.Text.Blank
import DnclTrace.Text.Digit
import DnclTrace.Text.Printable
import DnclTrace.Value.Basic

/-!
# Reading the command line

The command takes an optional source file and these options:

```
-h, --help                 the help text
--max-steps N, -n N        the step budget (default 10000)
--strict                   the strict policy
--verbose, -v              report the run as it goes
--json                     the whole trace as JSON
--parse-only               only the statement outline
--stats                    only the statement kind counts
--log-level LEVEL          accepted; the command logs nothing
```

An argument is an option when it starts with `-` and is more than `-`, unless it reads
as a negative number or holds a space. A long option may be shortened to any prefix
that names only one option, and may carry its value after `=`; a short option may
carry its value right after its letter (`-n5`), and a short switch reads any text
after its letter as further short options (`-vn5`), where a letter that names no
option is an error. The first lone `--` makes every later argument a plain one.

The file takes, at the first plain argument or separator, any separators, at most one
plain argument and any separators after it; without its first separator that is the
file, if anything is left. Every other plain argument, later separator or unknown
option is reported at the end. An option that needs a value and has none attached
takes the next argument when that is a plain one.

The step budget is read as an integer: blanks around it are ignored, a sign may lead,
digits of any script count, and single underscores may stand between digits.
-/

namespace DnclTrace.Cli

/-- The options of the command. -/
inductive Switch where
  | help
  | maxSteps
  | strict
  | verbose
  | json
  | parseOnly
  | stats
  | logLevel
  deriving DecidableEq

namespace Switch

/-- The spellings of an option, in the order the help lists them. -/
def spellings : Switch → List String
  | help => ["-h", "--help"]
  | maxSteps => ["--max-steps", "-n"]
  | strict => ["--strict"]
  | verbose => ["--verbose", "-v"]
  | json => ["--json"]
  | parseOnly => ["--parse-only"]
  | stats => ["--stats"]
  | logLevel => ["--log-level"]

/-- Every option, in the order it is declared. -/
def all : List Switch := [help, maxSteps, strict, verbose, json, parseOnly, stats, logLevel]

/-- Every spelling with its option, in declaration order. -/
def table : List (String × Switch) := all.flatMap fun s => s.spellings.map (·, s)

/-- The option needs a value. -/
def takesValue : Switch → Bool
  | maxSteps | logLevel => true
  | _ => false

/-- The name an error message gives an option: its spellings joined by `/`. -/
def title (s : Switch) : String := "/".intercalate s.spellings

end Switch

/-- What the command line asks for. An option that takes a value and is given exactly
`--` attached (`-n--`, `--log-level=--`) drops it as a separator and is left with an
empty list of values, which is no number and no text: such a value is `none`. -/
structure Options where
  file : Option String := none
  maxSteps : Option Int := some 10000
  strict : Bool := false
  verbose : Bool := false
  json : Bool := false
  parseOnly : Bool := false
  stats : Bool := false
  logLevel : Option String := some "WARNING"

/-- Why the command line cannot be read. -/
inductive UsageError where
  /-- A shortened long option fits several options. -/
  | ambiguous (arg : String) (candidates : List String)
  /-- An option that needs a value has none. -/
  | missingValue (s : Switch)
  /-- The step budget is not an integer. -/
  | invalidInt (s : Switch) (value : String)
  /-- A switch was given a value. -/
  | ignoredValue (s : Switch) (value : String)
  /-- Arguments that fit nowhere. -/
  | unrecognized (args : List String)

/-- The error line of a usage error, after the program's name. -/
def UsageError.message : UsageError → String
  | .ambiguous a cs => "ambiguous option: " ++ a ++ " could match " ++ ", ".intercalate cs
  | .missingValue s => "argument " ++ s.title ++ ": expected one argument"
  | .invalidInt s v => "argument " ++ s.title ++ ": invalid int value: " ++ Text.quote v
  | .ignoredValue s v => "argument " ++ s.title ++ ": ignored explicit argument " ++ Text.quote v
  | .unrecognized as => "unrecognized arguments: " ++ " ".intercalate as

/-- One argument as the reader sees it. -/
inductive Arg where
  /-- A plain argument. -/
  | plain (s : String)
  /-- An option, as spelled, with the text attached to it (`--max-steps=5`, `-n5`). -/
  | option (s : Switch) (spelled : String) (attached : Option String)
  /-- Something that looks like an option but is none. -/
  | unknown (s : String)
  /-- The first lone `--`. -/
  | separator

namespace Arg

/-- The argument is an option, known or not. -/
def isOption : Arg → Bool
  | option .. | unknown _ => true
  | _ => false

/-- The argument is the separator. -/
def isSeparator : Arg → Bool
  | separator => true
  | _ => false

/-- The argument is a plain one. -/
def isPlain : Arg → Bool
  | plain _ => true
  | _ => false

/-- The argument as it was written. -/
def text : Arg → String
  | plain s | unknown s | option _ s _ => s
  | separator => "--"

end Arg

/-- The text before the first `=` and the text after it. -/
def splitAtEquals (s : String) : Option (String × String) :=
  let cs := s.toList
  if cs.contains '=' then
    some (String.ofList (cs.takeWhile (· != '=')), String.ofList ((cs.dropWhile (· != '=')).drop 1))
  else none

/-- The text reads as a negative number: `-` then digits, or digits around one point
with at least one digit after it; a final line break is allowed. -/
def looksNegative (cs : List Char) : Bool :=
  let cs := if cs.getLast? = some '\n' then cs.dropLast else cs
  match cs with
  | '-' :: rest =>
    let whole := rest.takeWhile Text.isDecimal
    let after := rest.dropWhile Text.isDecimal
    match after with
    | [] => !whole.isEmpty
    | '.' :: frac => !frac.isEmpty && frac.all Text.isDecimal
    | _ => false
  | _ => false

/-- The options a shortened or attached spelling can mean, each with its spelling and
its attached text. A long spelling is a prefix of a long option, with the text after
`=`; a short one is an option's first two characters with the rest attached, or a
prefix of an option. -/
def candidates (s : String) : List (Switch × String × Option String) :=
  let cs := s.toList
  if cs.take 2 = ['-', '-'] then
    let (pre, val) := match splitAtEquals s with
      | some (p, v) => (p, some v)
      | none => (s, none)
    (Switch.table.filter fun (sp, _) => pre.isPrefixOf sp).map fun (sp, sw) => (sw, sp, val)
  else
    let short := String.ofList (cs.take 2)
    let rest := String.ofList (cs.drop 2)
    Switch.table.filterMap fun (sp, sw) =>
      if sp = short then some (sw, sp, some rest)
      else if s.isPrefixOf sp then some (sw, sp, none)
      else none

/-- How one argument reads, before any is acted on. -/
def classifyArg (s : String) : Except UsageError Arg :=
  let cs := s.toList
  match cs with
  | [] => pure (.plain s)
  | c :: _ =>
    if c != '-' then pure (.plain s)
    else match Switch.table.lookup s with
    | some sw => pure (.option sw s none)
    | none =>
      if cs.length = 1 then pure (.plain s)
      else
        let exact := (splitAtEquals s).bind fun (p, v) =>
          (Switch.table.lookup p).map fun sw => Arg.option sw p (some v)
        match exact with
        | some a => pure a
        | none =>
          match candidates s with
          | [(sw, sp, v)] => pure (.option sw sp v)
          | _ :: _ :: _ =>
            throw (.ambiguous s ((candidates s).map fun (_, sp, _) => sp))
          | [] =>
            if looksNegative cs then pure (.plain s)
            else if cs.contains ' ' then pure (.plain s)
            else pure (.unknown s)

/-- Reads every argument; after the first lone `--` all are plain. -/
def classifyAll : List String → Except UsageError (List Arg)
  | [] => pure []
  | "--" :: rest => pure (.separator :: rest.map .plain)
  | s :: rest => do
    let a ← classifyArg s
    let more ← classifyAll rest
    pure (a :: more)

/-- Reads an integer: blanks around it, a sign, decimal digits of any script with
single underscores between them, at most `digitLimit` digits. -/
def readInt? (s : String) : Option Int :=
  let cs := Text.trim s.toList
  let (neg, body) := match cs with
    | '-' :: r => (true, r)
    | '+' :: r => (false, r)
    | r => (false, r)
  let groups := body.splitOn '_'
  if groups.any List.isEmpty then none
  else
    let ds := groups.flatten
    if !ds.all Text.isDecimal || digitLimit < ds.length then none
    else
      let n : Int := Text.decimalValue ds
      some (if neg then -n else n)

/-- The state of reading the arguments: the options so far, whether the file can
still take arguments, and the arguments that fit nowhere. -/
structure Reading where
  options : Options := {}
  fileOpen : Bool := true
  extras : List String := []

/-- What the reading ends with: the options, or a request for help. -/
inductive Request where
  | run (o : Options)
  | help

/-- An option acted on: a switch, or an option with its value. -/
abbrev Action := Switch × Option String

/-- The value of an option that takes one: `none` for a lone `--`, which is dropped as
a separator and leaves no value. -/
def givenValue (v : String) : Option String := if v = "--" then none else some v

/-- Acts on an option; `none` asks for the help text. -/
def Reading.act (r : Reading) : Action → Except UsageError (Option Reading)
  | (.help, _) => pure none
  | (.maxSteps, v) =>
    let v := v.getD ""
    match givenValue v with
    | none => pure (some { r with options := { r.options with maxSteps := none } })
    | some t =>
      match readInt? t with
      | some n => pure (some { r with options := { r.options with maxSteps := some n } })
      | none => throw (.invalidInt .maxSteps t)
  | (.logLevel, v) =>
    pure (some { r with options := { r.options with logLevel := givenValue (v.getD "") } })
  | (.strict, _) => pure (some { r with options := { r.options with strict := true } })
  | (.verbose, _) => pure (some { r with options := { r.options with verbose := true } })
  | (.json, _) => pure (some { r with options := { r.options with json := true } })
  | (.parseOnly, _) => pure (some { r with options := { r.options with parseOnly := true } })
  | (.stats, _) => pure (some { r with options := { r.options with stats := true } })

/-- Acts on options in order, stopping at a request for help. -/
def Reading.actAll (r : Reading) : List Action → Except UsageError (Option Reading)
  | [] => pure (some r)
  | a :: rest => do
    match ← r.act a with
    | some r' => r'.actAll rest
    | none => pure none

/-- How many arguments at the front the file takes while it is open: separators, at
most one plain argument, then separators again. -/
def fileShare (args : List Arg) : Nat :=
  let lead := (args.takeWhile Arg.isSeparator).length
  let one := if ((args.drop lead).head?.map Arg.isPlain).getD false then 1 else 0
  lead + one + ((args.drop (lead + one)).takeWhile Arg.isSeparator).length

theorem fileShare_pos (a : Arg) (rest : List Arg) (h : a.isOption = false) :
    0 < fileShare (a :: rest) := by
  cases a with
  | plain s =>
    simp only [fileShare, List.takeWhile, Arg.isSeparator, List.length_nil, List.drop_zero,
      List.head?_cons, Option.map_some, Option.getD_some, Arg.isPlain, if_true]
    omega
  | separator =>
    simp only [fileShare, List.takeWhile, Arg.isSeparator, List.length_cons]
    omega
  | option _ _ _ => simp [Arg.isOption] at h
  | unknown _ => simp [Arg.isOption] at h

theorem drop_fileShare_lt (a : Arg) (rest : List Arg) (h : a.isOption = false) :
    ((a :: rest).drop (fileShare (a :: rest))).length < (a :: rest).length := by
  have := fileShare_pos a rest h
  simp only [List.length_drop, List.length_cons]
  omega

/-- The file takes `taken`: without its first separator they are at most one text,
which is the file; none leaves the file unnamed. The file then takes no more. -/
def Reading.takeFile (r : Reading) (taken : List Arg) : Reading :=
  { r with fileOpen := false,
           options := { r.options with file := ((taken.map Arg.text).erase "--").head? } }

/-- Reads the text attached to an option. An option that takes a value takes the
whole text. A switch spelled with one dash reads the text's first letter as the next
short option, which takes the rest of the text in turn, or, when no text is left,
whatever follows on the command line. Anything else is an error that names the
switch and the text it could not use. Gives the actions in order and the option, if
any, left with no text. -/
def cluster (sw : Switch) (spelled : String) (t : List Char) :
    Except UsageError (List Action × Option Switch) :=
  if sw.takesValue then pure ([(sw, some (String.ofList t))], none)
  else
    match t with
    | [] => throw (.ignoredValue sw "")
    | c :: more =>
      if spelled.toList[1]? = some '-' then throw (.ignoredValue sw (String.ofList (c :: more)))
      else
        match Switch.table.lookup (String.ofList ['-', c]) with
        | none => throw (.ignoredValue sw (String.ofList (c :: more)))
        | some sw' =>
          if more.isEmpty then pure ([(sw, none)], some sw')
          else do
            let (acts, last) ← cluster sw' (String.ofList ['-', c]) more
            pure ((sw, none) :: acts, last)
termination_by t.length
decreasing_by all_goals (simp_all; try omega)

/-- Acts on the arguments in order. A plain argument or separator goes to the file
while it is open, else to the extras, as does an unknown option. An option acts
through its attached text, and an option left without text that takes a value takes
the next argument when that is a plain one. -/
def consume (r : Reading) : List Arg → Except UsageError Request
  | [] =>
    if r.extras.isEmpty then pure (.run r.options) else throw (.unrecognized r.extras)
  | .unknown s :: rest => consume { r with extras := r.extras ++ [s] } rest
  | .option sw spelled attached :: rest => do
    let (acts, last) ← match attached with
      | none => pure ([], some sw)
      | some t => cluster sw spelled t.toList
    let (acts, ⟨rest', hle⟩) ← match last with
      | none => pure (acts, (⟨rest, Nat.le_refl _⟩ : { l : List Arg // l.length ≤ rest.length }))
      | some sw' =>
        if sw'.takesValue then
          match h : rest with
          | .plain v :: more => pure (acts ++ [(sw', some v)], ⟨more, by simp [h]⟩)
          | _ => throw (.missingValue sw')
        else pure (acts ++ [(sw', none)], ⟨rest, Nat.le_refl _⟩)
    match ← r.actAll acts with
    | some r' => consume r' rest'
    | none => pure .help
  | .plain s :: rest =>
    if r.fileOpen then
      let n := fileShare (.plain s :: rest)
      consume (r.takeFile ((.plain s :: rest).take n)) ((.plain s :: rest).drop n)
    else consume { r with extras := r.extras ++ [s] } rest
  | .separator :: rest =>
    if r.fileOpen then
      let n := fileShare (.separator :: rest)
      consume (r.takeFile ((.separator :: rest).take n)) ((.separator :: rest).drop n)
    else consume { r with extras := r.extras ++ ["--"] } rest
termination_by args => args.length
decreasing_by
  all_goals first
    | (simp only [List.length_cons]; omega)
    | exact drop_fileShare_lt _ _ rfl

/-- Reads the command line. -/
def Request.read (args : List String) : Except UsageError Request := do
  consume {} (← classifyAll args)

end DnclTrace.Cli
