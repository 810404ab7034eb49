import DnclTrace.Text.Blank

/-!
# Numbered source lines

A program is split into lines (`Text.splitLines`); each keeps its number from one, its
indentation and its trimmed text. Indentation counts the leading blanks, a tab as four
columns and any other blank as one.
-/

namespace DnclTrace

/-- Columns a tab counts for in indentation. -/
def tabWidth : Nat := 4

/-- The indentation of a raw line: leading blanks, a tab counting `tabWidth`. -/
def indentation : List Char → Nat
  | [] => 0
  | c :: rest =>
    if c = '\t' then tabWidth + indentation rest
    else if Text.isBlank c then 1 + indentation rest
    else 0

theorem indentation_nil : indentation [] = 0 := rfl

/-- One line of a program. -/
structure SourceLine where
  /-- The line number, counting from one. -/
  number : Nat
  indent : Nat
  /-- The line without blanks at either end. -/
  text : String
  deriving DecidableEq, Repr

/-- A blank line has no text. -/
def SourceLine.isBlank (l : SourceLine) : Bool := l.text.isEmpty

/-- The numbered lines of a program text. -/
def SourceLine.ofSource (source : String) : Array SourceLine :=
  ((Text.splitLines source.toList).zipIdx.map fun (raw, i) =>
    ⟨i + 1, indentation raw, String.ofList (Text.trim raw)⟩).toArray

/-- The number of the last line, `0` for an empty program. -/
def lastLineNumber (lines : Array SourceLine) : Nat :=
  match lines.back? with
  | some l => l.number
  | none => 0

end DnclTrace
