import DnclTrace.Trace.Cursor

/-!
# Moving a cursor through a trace

A client moves a cursor by a sequence of moves (`Cursor.Move`): a step forward or back,
a seek, a reset, a look at the snapshot under it, or a replay to the end. Every move
keeps the cursor's trace, and keeps its position at most the last one, `n - 1` for `n`
snapshots and `0` for none (`Cursor.InBounds`, `InBounds.move`); so every cursor
reached from a fresh one is in bounds (`InBounds.play`).

At a cursor in bounds the snapshot under it is the snapshot at its position, or the
initial state of a trace without snapshots (`current_eq`, `current_of_empty`); it is at
the end exactly at the last position (`atEnd_iff`); a seek lands where as many single
steps would (`seek_eq_play`); and a replay yields the snapshots from its position to the
last and stops there (`iterate_of_inBounds`).

Main statement: `play_keeps_cursor_in_bounds`.
-/

namespace DnclTrace

namespace Cursor

/-- What a client does with a cursor. -/
inductive Move where
  | forward
  | backward
  | seek (q : Int)
  | reset
  | current
  | replay

/-- The cursor after a move: a look at the current snapshot leaves it, a replay leaves it
where the replay stops. -/
def move (c : Cursor) : Move → Cursor
  | .forward => c.forward
  | .backward => c.backward
  | .seek q => c.seek q
  | .reset => c.reset
  | .current => c
  | .replay => c.iterate.2

/-- The cursor after a sequence of moves. -/
def play (c : Cursor) (ms : List Move) : Cursor := ms.foldl move c

@[simp] theorem play_nil (c : Cursor) : c.play [] = c := rfl

@[simp] theorem play_cons (c : Cursor) (m : Move) (ms : List Move) :
    c.play (m :: ms) = (c.move m).play ms := rfl

/-- The cursor stands at most at the last position. -/
def InBounds (c : Cursor) : Prop := c.position ≤ c.last

variable {c : Cursor}

section Moves

@[simp] theorem forward_trace : c.forward.trace = c.trace := rfl
@[simp] theorem forward_position : c.forward.position = min (c.position + 1) c.last := rfl
@[simp] theorem backward_trace : c.backward.trace = c.trace := rfl
@[simp] theorem backward_position : c.backward.position = c.position - 1 := rfl
@[simp] theorem seek_trace (q : Int) : (c.seek q).trace = c.trace := rfl
@[simp] theorem seek_position (q : Int) : (c.seek q).position = min (max q 0).toNat c.last := rfl
@[simp] theorem reset_trace : c.reset.trace = c.trace := rfl
@[simp] theorem reset_position : c.reset.position = 0 := rfl

/-- The last position depends on the trace alone. -/
theorem last_of_trace {c' : Cursor} (h : c'.trace = c.trace) : c'.last = c.last := by
  simp [last, h]

@[simp] theorem forward_last : c.forward.last = c.last := rfl
@[simp] theorem backward_last : c.backward.last = c.last := rfl

theorem ext_of {c' : Cursor} (ht : c'.trace = c.trace) (hp : c'.position = c.position) :
    c' = c := by
  cases c
  cases c'
  simp_all

end Moves

section Current

/-- Within the snapshots, the cursor shows the snapshot at its position. -/
theorem current_eq (hp : c.position < c.trace.snapshots.size) :
    c.current = c.trace.snapshots[c.position] := by
  simp [current, hp]

/-- Without snapshots, the cursor shows the initial state. -/
theorem current_of_empty (hn : c.trace.snapshots.size = 0) : c.current = c.trace.initial := by
  simp [current, hn]

/-- The snapshots from a position within them: the one at the position, then the rest. -/
theorem drop_toList_eq (hp : c.position < c.trace.snapshots.size) :
    c.trace.snapshots.toList.drop c.position =
      c.current :: c.trace.snapshots.toList.drop (c.position + 1) := by
  rw [current_eq hp, List.drop_eq_getElem_cons (by simpa using hp)]
  simp

end Current

section Replay

/-- At the end a replay yields the current snapshot alone. -/
theorem iterate_of_atEnd (h : c.atEnd = true) : c.iterate = ([c.current], c) := by
  rw [iterate]
  simp [h]

/-- Before the end a replay yields the current snapshot, then replays from one step on. -/
theorem iterate_of_not_atEnd (h : c.atEnd = false) :
    c.iterate = (c.current :: c.forward.iterate.1, c.forward.iterate.2) := by
  rw [iterate]
  simp [h]

theorem lt_last_of_not_atEnd (h : c.atEnd = false) : c.position < c.last := by
  simp only [atEnd, decide_eq_false_iff_not, Nat.not_le] at h
  simp only [last]
  omega

/-- A replay stops at the last position, or where the cursor stood if that is later. -/
theorem iterate_stop : c.iterate.2 = { c with position := max c.position c.last } := by
  induction c using iterate.induct with
  | case1 c h =>
    rw [iterate_of_atEnd h]
    simp only [atEnd, decide_eq_true_eq, last] at h ⊢
    exact ext_of rfl (by simp; omega)
  | case2 c h ih =>
    have hlt := lt_last_of_not_atEnd (Bool.eq_false_iff.2 h)
    rw [iterate_of_not_atEnd (Bool.eq_false_iff.2 h), ih]
    exact ext_of rfl (by simp; omega)

/-- A replay from a position in bounds yields the snapshots from that position to the
last, or the initial state alone when there are none. -/
theorem iterate_of_inBounds (h : c.InBounds) :
    c.iterate.1 = (if c.trace.snapshots.size = 0 then [c.trace.initial]
      else c.trace.snapshots.toList.drop c.position) := by
  -- the replay loop's own induction: each round moves one step closer to the last position
  induction c using iterate.induct with
  | case1 c hend =>
    rw [iterate_of_atEnd hend]
    simp only [InBounds, last] at h
    simp only [atEnd, decide_eq_true_eq] at hend
    by_cases hn : c.trace.snapshots.size = 0
    · rw [if_pos hn, current_of_empty hn]
    · -- the cursor stands on the last snapshot, after which there is none
      have hlt : c.position < c.trace.snapshots.size := by omega
      rw [if_neg hn, drop_toList_eq hlt, List.drop_eq_nil_of_le (by simp; omega)]
  | case2 c hend ih =>
    have hend := Bool.eq_false_iff.2 hend
    have hlt := lt_last_of_not_atEnd hend
    simp only [last] at hlt
    have hn : c.trace.snapshots.size ≠ 0 := by omega
    have hnext : c.forward.InBounds := by
      simp only [InBounds, forward_position, forward_last]
      omega
    have hpos : c.forward.position = c.position + 1 := by
      simp only [forward_position, last]
      omega
    rw [iterate_of_not_atEnd hend, ih hnext, forward_trace, hpos, if_neg hn, if_neg hn,
      drop_toList_eq (by omega)]

end Replay

section Bounds

@[simp] theorem move_trace (m : Move) : (c.move m).trace = c.trace := by
  cases m <;> simp [move, iterate_stop]

@[simp] theorem play_trace (ms : List Move) : (c.play ms).trace = c.trace := by
  induction ms generalizing c with
  | nil => rfl
  | cons m ms ih => rw [play_cons, ih, move_trace]

/-- Steps back stop at the first position. -/
theorem play_backwards (k : Nat) :
    c.play (List.replicate k .backward) = { c with position := c.position - k } := by
  induction k generalizing c with
  | zero => exact ext_of rfl (by simp)
  | succ k ih =>
    rw [List.replicate_succ, play_cons, ih]
    exact ext_of rfl (by simp [Cursor.move]; omega)

/-- A fresh cursor stands at the first position. -/
theorem inBounds_start (t : Trace) : ({ trace := t } : Cursor).InBounds := Nat.zero_le _

/-- Every move keeps the cursor in bounds. -/
theorem InBounds.move (h : c.InBounds) (m : Move) : (c.move m).InBounds := by
  have hl : (c.move m).last = c.last := last_of_trace (move_trace m)
  unfold InBounds at h ⊢
  rw [hl]
  cases m with
  | forward => exact Nat.min_le_right _ _
  | backward => exact Nat.le_trans (Nat.sub_le _ _) h
  | seek q => exact Nat.min_le_right _ _
  | reset => exact Nat.zero_le _
  | current => exact h
  | replay =>
    simp only [Cursor.move, iterate_stop]
    exact Nat.max_le.2 ⟨h, Nat.le_refl _⟩

/-- A sequence of moves keeps the cursor in bounds. -/
theorem InBounds.play (h : c.InBounds) (ms : List Move) : (c.play ms).InBounds := by
  induction ms generalizing c with
  | nil => exact h
  | cons m ms ih => exact ih (h.move m)

end Bounds

section InBounds

variable (h : c.InBounds)
include h

/-- A cursor in bounds over a trace with snapshots stands on one of them. -/
theorem InBounds.lt_size (hn : 0 < c.trace.snapshots.size) : c.position < c.trace.snapshots.size := by
  unfold InBounds last at h
  omega

/-- A cursor in bounds is at the end exactly at the last position. -/
theorem InBounds.atEnd_iff : c.atEnd = true ↔ c.position = c.last := by
  unfold InBounds last at h
  simp only [atEnd, decide_eq_true_eq, last]
  omega

/-- Steps forward from a cursor in bounds stop at the last position. -/
theorem InBounds.play_forwards (k : Nat) :
    c.play (List.replicate k .forward) = { c with position := min (c.position + k) c.last } := by
  induction k generalizing c with
  | zero =>
    unfold InBounds at h
    exact ext_of rfl (by simp; omega)
  | succ k ih =>
    rw [List.replicate_succ, play_cons, ih (h.move .forward)]
    exact ext_of rfl (by simp [Cursor.move]; omega)

/-- A seek from a cursor in bounds lands where as many single steps towards the target
would: forward to a later target, back to an earlier one. -/
theorem InBounds.seek_eq_play (q : Int) :
    c.seek q = if (c.position : Int) ≤ q then c.play (List.replicate (q - c.position).toNat .forward)
      else c.play (List.replicate (c.position - q).toNat .backward) := by
  have hle : c.position ≤ c.last := h
  split
  · rename_i hq
    rw [h.play_forwards]
    exact ext_of rfl (by simp; omega)
  · rename_i hq
    rw [play_backwards]
    exact ext_of rfl (by simp; omega)

end InBounds

/-- In a trace whose snapshots count their own positions, the snapshots from `p` on carry
the step indices from `p` up to the last. -/
theorem stepIndex_drop {t : Trace}
    (ht : ∀ k (hk : k < t.snapshots.size), t.snapshots[k].stepIndex = k) (p : Nat) :
    (t.snapshots.toList.drop p).map (·.stepIndex) =
      (List.range' p (t.snapshots.size - p)).map Int.ofNat := by
  apply List.ext_getElem
  · simp
  · intro i h₁ _
    have hi : p + i < t.snapshots.size := by simp at h₁; omega
    simp [ht (p + i) hi]

/-- What a client can rely on at a cursor over the trace `t`: the trace is kept; the
cursor stands at most at the last position, on the snapshot there, or on the initial
state when there are none; it is at the end exactly at the last position; a seek lands
where as many single steps would; and a replay yields the snapshots from the cursor to
the last, with their step indices, and stops at the last position. -/
structure Reliable (t : Trace) (c : Cursor) : Prop where
  trace : c.trace = t
  bounded : c.position ≤ t.snapshots.size - 1
  initial : t.snapshots.size = 0 → c.current = t.initial
  shows : 0 < t.snapshots.size →
    ∃ hp : c.position < t.snapshots.size, c.current = t.snapshots[c.position]
  atEnd_iff : c.atEnd = true ↔ c.position = t.snapshots.size - 1
  seek : ∀ q : Int, c.seek q =
    if (c.position : Int) ≤ q then c.play (List.replicate (q - c.position).toNat .forward)
    else c.play (List.replicate (c.position - q).toNat .backward)
  replay : c.iterate.1 =
    if t.snapshots.size = 0 then [t.initial] else t.snapshots.toList.drop c.position
  replay_indices : 0 < t.snapshots.size →
    c.iterate.1.map (·.stepIndex) =
      (List.range' c.position (t.snapshots.size - c.position)).map Int.ofNat
  replay_stop : c.iterate.2.position = t.snapshots.size - 1

/-- A cursor in bounds over a trace whose snapshots count their own positions is
reliable. -/
theorem InBounds.reliable {t : Trace}
    (ht : ∀ k (hk : k < t.snapshots.size), t.snapshots[k].stepIndex = k)
    (h : c.InBounds) (hc : c.trace = t) : Reliable t c := by
  subst hc
  have hreplay := iterate_of_inBounds h
  refine ⟨rfl, h, current_of_empty, fun hn => ⟨h.lt_size hn, current_eq (h.lt_size hn)⟩,
    h.atEnd_iff, h.seek_eq_play, hreplay, fun hn => ?_, ?_⟩
  · rw [hreplay, if_neg (Nat.pos_iff_ne_zero.1 hn)]
    exact stepIndex_drop ht c.position
  · rw [iterate_stop]
    exact Nat.max_eq_right h

/-- Every sequence of moves from a fresh cursor over a trace whose snapshots count their
own positions leaves a reliable cursor: within the trace, at the end exactly at the last
position, seeking as single steps would and replaying the rest of the trace. -/
theorem play_keeps_cursor_in_bounds (t : Trace)
    (ht : ∀ k (hk : k < t.snapshots.size), t.snapshots[k].stepIndex = k) (ms : List Move) :
    Reliable t (({ trace := t } : Cursor).play ms) :=
  ((inBounds_start t).play ms).reliable ht (play_trace ms)

/-- A session over two snapshots: a step forward, a seek past the end, a step back and a
replay. -/
theorem play_keeps_cursor_in_bounds_two_snapshots :
    let t : Trace := ⟨#[({} : Env).snapshot 0 1 "x ← 1", ({} : Env).snapshot 1 2 "x ← 2"],
      ({} : Env).snapshot (-1) 0 "", false, [], ⟨2, 2, 0, 0, false⟩⟩
    (∀ k (hk : k < t.snapshots.size), t.snapshots[k].stepIndex = k) ∧
      Reliable t (({ trace := t } : Cursor).play [.forward, .seek 7, .backward, .replay]) :=
  ⟨by decide, play_keeps_cursor_in_bounds _ (by decide) _⟩


end Cursor

end DnclTrace
