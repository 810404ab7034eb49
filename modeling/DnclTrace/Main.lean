import DnclTrace.Cli.Command

/-!
# The command-line program

Reads the file the command line names, if any, hands everything to `Cli.respond`,
prints what it answers on the two streams and exits with its status. The command
runs two calls deep: the program, then its command. An unhandled
failure prints its kind and message on the error stream and exits with status 1.
-/

open DnclTrace.Cli

/-- Looks for a file and reads its text. -/
def lookup (path : String) : IO Lookup := do
  try
    let text ← IO.FS.readFile path
    pure (.contents text)
  catch e =>
    match e with
    | .inappropriateType .. => pure .directory
    | _ => pure .missing

/-- Runs the command. -/
def main (args : List String) : IO UInt32 := do
  let file := match Request.read args with
    | .ok (.run o) => o.file
    | _ => none
  let found ← match file with
    | some path => lookup path
    | none => pure .missing
  match respond 2 args (fun p => if some p = file then found else .missing) with
  | .ok r =>
    IO.print r.stdout
    IO.eprint r.stderr
    pure r.exit.toUInt32
  | .error c =>
    IO.eprintln (c.kind ++ ": " ++ c.message)
    pure 1
