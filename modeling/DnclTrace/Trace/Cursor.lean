import DnclTrace.Trace.Basic

/-!
# A cursor over a trace

A cursor stands at one snapshot of a finished trace and moves within its bounds: one
step forward or back, to a given position, or back to the start, each clamped to the
first and last snapshot. A trace without snapshots shows its initial state. Iterating
yields the snapshots from the cursor's position to the end and leaves it at the end.
-/

namespace DnclTrace

/-- A position in a trace. -/
structure Cursor where
  trace : Trace
  position : Nat := 0

namespace Cursor

/-- The last position: one before the number of snapshots, or `0`. -/
def last (c : Cursor) : Nat := c.trace.snapshots.size - 1

/-- The cursor stands at the last position (or the trace has no snapshots). -/
def atEnd (c : Cursor) : Bool := c.trace.snapshots.size ≤ c.position + 1

/-- The snapshot under the cursor. -/
def current (c : Cursor) : Snapshot := c.trace.snapshots[c.position]?.getD c.trace.initial

/-- One step forward, stopping at the last position. -/
def forward (c : Cursor) : Cursor := { c with position := min (c.position + 1) c.last }

/-- One step back, stopping at the first position. -/
def backward (c : Cursor) : Cursor := { c with position := c.position - 1 }

/-- Moves to a position, clamped to the trace. -/
def seek (c : Cursor) (q : Int) : Cursor := { c with position := min (max q 0).toNat c.last }

/-- Back to the first position. -/
def reset (c : Cursor) : Cursor := { c with position := 0 }

/-- Replays the trace from the cursor: the snapshot under the cursor, then, unless the
cursor is at the end, one step forward and the rest; also the cursor where it stops. -/
def iterate (c : Cursor) : List Snapshot × Cursor :=
  if c.atEnd then ([c.current], c)
  else
    let rest := c.forward.iterate
    (c.current :: rest.1, rest.2)
termination_by c.last - c.position
decreasing_by
  rename_i h
  have hlt : c.position + 1 < c.trace.snapshots.size := Nat.lt_of_not_le (of_decide_eq_false (Bool.of_not_eq_true h))
  exact Nat.sub_lt_sub_left (Nat.lt_sub_of_add_lt hlt) (Nat.lt_of_lt_of_le (Nat.lt_succ_self _) (Nat.le_min.2 ⟨Nat.le_refl _, Nat.le_sub_of_add_le hlt⟩))

theorem position_le_last (c : Cursor) (q : Int) :
    (c.forward).position ≤ c.last ∧ (c.seek q).position ≤ c.last := by
  exact ⟨Nat.min_le_right _ _, Nat.min_le_right _ _⟩

end Cursor

end DnclTrace
