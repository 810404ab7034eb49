import DnclTrace.Program.Lines
import DnclTrace.Line.Form

/-!
# Block regions

The body of a control line is the run of lines after it that are indented deeper,
blank lines skipped; the first non-blank line at or below its indentation ends it.
For a conditional, the next non-blank line after the body may continue it when it
stands at the same indentation: an else marker opens an else body of its own, and an
else-if marker is left to be read as the next conditional of the chain.

A position may also count from the end, `-1` naming the last line: `Span.resolve`
reads such a position the same way, scanning upwards from it to the last line, so a
block found from a negative position lists negative positions first.
-/

namespace DnclTrace

/-- The line indices a control line governs, and where reading resumes. -/
structure Block where
  body : List Nat
  /-- The index of an else or else-if marker continuing the conditional. -/
  elseIndex : Option Nat := none
  elseBody : List Nat := []
  next : Nat
  deriving DecidableEq, Repr

namespace Block

variable (lines : Array SourceLine)

/-- The line at an index is blank (or past the end). -/
def blankAt (i : Nat) : Bool := (lines[i]?.map SourceLine.isBlank).getD true

/-- The indentation of the line at an index. -/
def indentAt (i : Nat) : Nat := (lines[i]?.map SourceLine.indent).getD 0

/-- The non-blank lines after `index` indented deeper than `indent`, up to the first
non-blank line that is not. -/
def bodyAfter (index indent : Nat) : List Nat :=
  (((List.range (lines.size - (index + 1))).map (· + (index + 1))).takeWhile fun i =>
    blankAt lines i || indent < indentAt lines i).filter fun i => !blankAt lines i

theorem bodyAfter_gt (index indent i : Nat) (h : i ∈ bodyAfter lines index indent) : index < i := by
  unfold bodyAfter at h
  have h1 := (List.mem_filter.1 h).1
  have h2 := List.takeWhile_subset _ h1
  obtain ⟨k, -, rfl⟩ := List.mem_map.1 h2
  omega

/-- The first non-blank line from `start`, or the number of lines. -/
def nextNonBlank (start : Nat) : Nat :=
  ((List.range (lines.size - start)).map (· + start)).find? (fun i => !blankAt lines i)
    |>.getD lines.size

/-- Where reading resumes after a body: one past its last line, or past the header when
it is empty. -/
def after (index : Nat) (body : List Nat) : Nat :=
  match body.getLast? with
  | some j => j + 1
  | none => index + 1

/-- The block of the control line at `index`, `none` past the last line. With the kinds
of all lines (for a conditional), an else or else-if marker right after the body at
the same indentation continues it. -/
def resolve (index : Nat) (kinds : Option (Array StmtKind)) : Option Block :=
  match lines[index]? with
  | none => none
  | some line =>
    let body := bodyAfter lines index line.indent
    let plain : Block := { body := body, next := after index body }
    match kinds with
    | none => some plain
    | some ks =>
      let cand := nextNonBlank lines (after index body)
      if lines.size ≤ cand ∨ indentAt lines cand ≠ line.indent then some plain
      else match ks[cand]? with
        | some .elseMarker =>
          let eb := bodyAfter lines cand line.indent
          some { plain with elseIndex := some cand, elseBody := eb, next := after cand eb }
        | some .elseIf => some { plain with elseIndex := some cand, next := cand }
        | _ => some plain

end Block

/-- The block of a control line at a position counted from either end, in positions
counted the same way. -/
structure Span where
  body : List Int
  /-- The position of an else or else-if marker continuing the conditional. -/
  elseIndex : Option Int := none
  elseBody : List Int := []
  next : Int
  deriving DecidableEq, Repr

namespace Span

/-- The element at a position counted from either end: `-1` is the last. -/
def at? {α : Type} (xs : Array α) (i : Int) : Option α :=
  if 0 ≤ i then xs[i.toNat]?
  else if 0 ≤ xs.size + i then xs[(xs.size + i).toNat]?
  else none

variable (lines : Array SourceLine)

/-- The positions from `start` up to the last line, in increasing order. -/
def positionsFrom (start : Int) : List Int :=
  (List.range ((lines.size : Int) - start).toNat).map fun (k : Nat) => start + (k : Int)

/-- The line at a position is blank (or there is none). -/
def blankAt (i : Int) : Bool := ((at? lines i).map SourceLine.isBlank).getD true

/-- The indentation of the line at a position. -/
def indentAt (i : Int) : Nat := ((at? lines i).map SourceLine.indent).getD 0

/-- The non-blank lines after `index` indented deeper than `indent`, up to the first
non-blank line that is not. -/
def bodyAfter (index : Int) (indent : Nat) : List Int :=
  ((positionsFrom lines (index + 1)).takeWhile fun i =>
    blankAt lines i || indent < indentAt lines i).filter fun i => !blankAt lines i

/-- The first non-blank line from `start`, or the number of lines. -/
def nextNonBlank (start : Int) : Int :=
  ((positionsFrom lines start).find? fun i => !blankAt lines i).getD lines.size

/-- The block of the control line at a position counted from either end, `none` when
no line is there. With the kinds of all lines (for a conditional), an else or else-if
marker right after the body at the same indentation continues it. -/
def resolve (index : Int) (kinds : Option (Array StmtKind)) : Option Span :=
  match at? lines index with
  | none => none
  | some line =>
    let body := bodyAfter lines index line.indent
    let after := match body.getLast? with
      | some j => j + 1
      | none => index + 1
    let plain : Span := { body := body, next := after }
    match kinds with
    | none => some plain
    | some ks =>
      let cand := nextNonBlank lines after
      if (lines.size : Int) ≤ cand ∨ indentAt lines cand ≠ line.indent then some plain
      else match at? ks cand with
        | some .elseMarker =>
          let eb := bodyAfter lines cand line.indent
          let next := match eb.getLast? with
            | some j => j + 1
            | none => cand + 1
          some { plain with elseIndex := some cand, elseBody := eb, next := next }
        | some .elseIf => some { plain with elseIndex := some cand, next := cand }
        | _ => some plain

end Span

end DnclTrace
