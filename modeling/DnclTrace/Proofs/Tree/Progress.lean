import DnclTrace.Proofs.Tree.Reports

/-!
# Reading a program always moves forward

The block of a control line lies wholly after it (`BlockAhead`): its body, its else
marker, its else body and the line where reading resumes. That holds of a block found
at any position, counted from either end (`Span.resolve_ahead`), and of the blocks the
reader takes (`Block.resolve_ahead`). So every reading below a line starts at later
lines: a loop's or a conditional's body, an else body, and the next conditional of an
else-if chain (`TreeSource.plainBlock_ahead`, `TreeSource.condBlock_ahead`); and the
reading of a line resumes past it (`TreeSource.readAt_resumes`), so the reader's walk
over a list of lines passes at least the line it read.

Each step down the tree thus moves to a later line and takes at most two calls, so a
reading never needs more room than two calls per line, and two more: from there on the
call limit makes no difference, and reading with more room gives the same statements,
diagnostics and reports (`TreeSource.read_room_stable`).

Main statement: `TreeSource.read_moves_forward`.
-/

namespace DnclTrace

namespace TreeSource

open Reading

variable {r : TreeSource}

/-- A conditional read at line `i`, with its else body or the rest of its chain, resumes
past `i`. -/
theorem readConditional_resumes {room : Nat} {c : Classified} {i : Nat} {s : Stmt} {res : Nat}
    (h : Returns (r.readConditional room c i) (s, res)) : i < res := by
  induction room generalizing c i s res with
  | zero =>
    rw [readConditional_eq_short (by decide)] at h
    exact absurd h Returns.not_throw
  | succ f ih =>
    by_cases hshort : f + 1 < blockCalls
    · rw [readConditional_eq_short hshort] at h
      exact absurd h Returns.not_throw
    have hb := (condBlock_ahead r i).1
    rw [readConditional.eq_1, dif_neg hshort, Nat.add_sub_cancel] at h
    obtain ⟨body, -, h⟩ := h.bind
    rcases he : (r.condBlock i).elseIndex with _ | k
    · simp only [he] at h
      cases h.pure_eq
      exact hb.resumes
    · have hik := (hb.marker k he).1
      simp only [he] at h
      cases hm : (r.lineAt k).form <;> simp only [hm] at h
      case elseIf cond =>
        -- the chain goes on at the marker, which is past `i`
        obtain ⟨⟨s', res'⟩, hs', h⟩ := h.bind
        cases h.pure_eq
        exact Nat.lt_trans hik (ih hs')
      -- any other marker: the else body is read, and reading resumes past it
      all_goals
        obtain ⟨eb, -, h⟩ := h.bind
        cases h.pure_eq
        exact hb.resumes

/-- Reading the statement at line `i` resumes past it. -/
theorem readAt_resumes {room i : Nat} {s : Stmt} {res : Nat}
    (h : Returns (r.readAt room i) (s, res)) : i < res := by
  by_cases hshort : room < (r.lineAt i).form.kind.readCalls
  · rw [readAt_eq_short hshort] at h
    exact absurd h Returns.not_throw
  rw [readAt.eq_1, dif_neg hshort] at h
  cases hk : (r.lineAt i).form.kind <;> simp only [hk] at h
  case forLoop | whileLoop =>
    obtain ⟨body, -, h⟩ := h.bind
    cases h.pure_eq
    exact (plainBlock_ahead r i).1.resumes
  case conditional => exact readConditional_resumes h
  case elseIf | elseMarker =>
    -- a stray marker is reported and skipped with its block
    obtain ⟨_, -, h⟩ := h.bind
    cases h.pure_eq
    exact (plainBlock_ahead r i).1.resumes
  case unrecognized =>
    obtain ⟨_, -, h⟩ := h.bind
    cases h.pure_eq
    exact Nat.lt_succ_self i
  all_goals
    cases h.pure_eq
    exact Nat.lt_succ_self i

/-- The reader's walk over a list of lines passes the line it read: what is left after
reading `i` is shorter than the list that started with `i`. -/
theorem dropWhile_resume_length {i res : Nat} (rest : List Nat) (h : i < res) :
    ((i :: rest).dropWhile (· < res)).length < (i :: rest).length := by
  rw [List.dropWhile_cons_of_pos (by simpa using h)]
  exact Nat.lt_succ_of_le (List.dropWhile_sublist _).length_le

section Room

variable (r)

/-- Reading the indices `idx` with `room` calls left, room to spare at each, gives what
any more room gives. -/
def RangeStable (room : Nat) (idx : List Nat) : Prop :=
  ∀ more, room ≤ more → (∀ j ∈ idx, r.Spare room j) → r.readRange room idx = r.readRange more idx

/-- Reading line `i` with `room` calls left, room to spare, gives what any more room
gives. -/
def AtStable (room i : Nat) : Prop :=
  ∀ more, room ≤ more → r.Spare room i → r.readAt room i = r.readAt more i

/-- Reading a conditional at line `i` with `room` calls left above its frame, room to
spare, gives what any more room gives. -/
def CondStable (room : Nat) (c : Classified) (i : Nat) : Prop :=
  ∀ more, room ≤ more → r.Spare (room + 1) i →
    r.readConditional room c i = r.readConditional more c i

variable {r} {room i : Nat}

theorem rangeStable_nil (room : Nat) : r.RangeStable room [] := by
  intro more _ _
  rw [readRange.eq_1, readRange.eq_1]

theorem rangeStable_cons {rest : List Nat} (hat : r.AtStable room i)
    (hrest : ∀ res, r.RangeStable room (rest.dropWhile (· < res))) :
    r.RangeStable room (i :: rest) := by
  intro more hle hspare
  -- the rest of the list is read alike wherever reading resumes
  have hmore : ∀ res, r.readRange room (rest.dropWhile (· < res)) =
      r.readRange more (rest.dropWhile (· < res)) := fun res =>
    hrest res more hle fun j hj =>
      hspare j (List.mem_cons_of_mem i ((List.dropWhile_sublist _).subset hj))
  rw [readRange.eq_2, readRange.eq_2, hat more hle (hspare i List.mem_cons_self)]
  simp only [hmore]

/-- A line too deep to read never has room to spare. -/
theorem atStable_short (h : room < (r.lineAt i).form.kind.readCalls) : r.AtStable room i :=
  fun _ _ hspare => absurd h (hspare.not_short _)

theorem atStable_loop
    (hk : (r.lineAt i).form.kind = .forLoop ∨ (r.lineAt i).form.kind = .whileLoop)
    (hroom : ¬room < (r.lineAt i).form.kind.readCalls)
    (ih : r.RangeStable (room - 1) (r.plainBlock i).body) : r.AtStable room i := by
  intro more hle hspare
  have hmore : ¬more < (r.lineAt i).form.kind.readCalls := by omega
  rw [readAt_eq_loop hroom hk, readAt_eq_loop hmore hk, ih (more - 1) (by omega) hspare.plainBody]

theorem atStable_conditional (hk : (r.lineAt i).form.kind = .conditional)
    (hroom : ¬room < (r.lineAt i).form.kind.readCalls)
    (ih : r.CondStable (room - 1) (r.lineAt i) i) : r.AtStable room i := by
  intro more hle hspare
  have hmore : ¬more < (r.lineAt i).form.kind.readCalls := by omega
  rw [readAt_eq_conditional hroom hk, readAt_eq_conditional hmore hk]
  exact ih (more - 1) (by omega) hspare.frame

/-- A line whose reading takes no calls below it reads alike with any room it fits in. -/
theorem atStable_leaf (hk : (r.lineAt i).form.kind ∉ [.forLoop, .whileLoop, .conditional])
    (hroom : ¬room < (r.lineAt i).form.kind.readCalls) : r.AtStable room i := by
  intro more hle _
  have hmore : ¬more < (r.lineAt i).form.kind.readCalls := by omega
  simp only [List.mem_cons, List.not_mem_nil, or_false, not_or] at hk
  rw [readAt.eq_1, readAt.eq_1, dif_neg hroom, dif_neg hmore]
  cases hc : (r.lineAt i).form.kind <;> simp_all

/-- A conditional too deep to resolve its block never has room to spare. -/
theorem condStable_short {c : Classified} (h : room < blockCalls) : r.CondStable room c i :=
  fun _ _ hspare => absurd h hspare.not_short_block

theorem condStable_room {c : Classified} (hroom : ¬room < blockCalls)
    (ihb : r.RangeStable (room - 1) (r.condBlock i).body)
    (ihk : ∀ k cond, r.CondStable (room - 1) ⟨(r.lineAt k).line, (r.lineAt k).text, .conditional cond⟩ k)
    (ihe : r.RangeStable (room - 1) (r.condBlock i).elseBody) : r.CondStable room c i := by
  intro more hle hspare
  have hmore : ¬more < blockCalls := by omega
  have hb := ihb (more - 1) (by omega) hspare.condBody
  have he := ihe (more - 1) (by omega) hspare.condElse
  rw [readConditional.eq_1, readConditional.eq_1, dif_neg hroom, dif_neg hmore]
  rcases hk : (r.condBlock i).elseIndex with _ | k
  · simp only [hb, hk]
  · -- the next conditional of a chain stands at a later line, with room to spare
    have hchain : ∀ cond,
        r.readConditional (room - 1) ⟨(r.lineAt k).line, (r.lineAt k).text, .conditional cond⟩ k =
          r.readConditional (more - 1) ⟨(r.lineAt k).line, (r.lineAt k).text, .conditional cond⟩ k :=
      fun cond => ihk k cond (more - 1) (by omega) (hspare.chain hk)
    simp only [hb, he, hchain, hk]

variable (r) in
/-- Every reading with room to spare gives what any more room gives. -/
theorem read_stable :
    (∀ room idx, r.RangeStable room idx) ∧ (∀ room i, r.AtStable room i) ∧
      ∀ room c i, r.CondStable room c i := by
  apply TreeSource.readRange.mutual_induct r (RangeStable r) (AtStable r) (CondStable r)
  case _ => exact rangeStable_nil
  case _ =>
    intro room i rest hat hrest
    exact rangeStable_cons hat hrest
  case _ => -- a line too deep to read
    intro room i
    exact atStable_short
  case _ => -- a counted loop
    intro room i
    dsimp only
    intro hroom hk ih
    exact atStable_loop (.inl hk) hroom ih
  case _ => -- a conditional loop
    intro room i
    dsimp only
    intro hroom hk ih
    exact atStable_loop (.inr hk) hroom ih
  case _ => -- a conditional
    intro room i
    dsimp only
    intro hroom hk ih
    exact atStable_conditional hk hroom ih
  case _ => -- a stray else-if marker
    intro room i
    dsimp only
    intro hroom hk
    exact atStable_leaf (by simp [hk]) hroom
  case _ => -- a stray else marker
    intro room i
    dsimp only
    intro hroom hk
    exact atStable_leaf (by simp [hk]) hroom
  case _ => -- an unrecognized line
    intro room i
    dsimp only
    intro hroom hk
    exact atStable_leaf (by simp [hk]) hroom
  case _ => -- any other line
    intro room i
    dsimp only
    intro hroom h₁ h₂ h₃ _ _ _
    refine atStable_leaf ?_ hroom
    simp only [List.mem_cons, List.not_mem_nil, or_false, not_or]
    exact ⟨h₁, h₂, h₃⟩
  case _ => -- a conditional too deep to resolve its block
    intro room c i
    exact condStable_short
  case _ =>
    intro room c i hroom
    dsimp only
    intro ihb ihk ihe
    exact condStable_room hroom ihb ihk ihe

/-- The call limit never cuts a reading with room for two calls per line, and two more:
reading all lines with any more room gives the same statements and diagnostics. -/
theorem read_room_stable {room : Nat} (h : 2 * r.lines.size + 2 ≤ room) :
    r.readRange room (List.range r.lines.size) =
      r.readRange (2 * r.lines.size + 2) (List.range r.lines.size) := by
  have hidx : ∀ j ∈ List.range r.lines.size, r.Spare (2 * r.lines.size + 2) j := fun j hj =>
    ⟨List.mem_range.1 hj, by omega⟩
  exact ((read_stable r).1 _ _ room h hidx).symm

end Room

end TreeSource

/-- Reading a program always moves forward. A block found at any position, counted from
either end, lies after it: its body, its else marker, its else body and where reading
resumes. The reader reads the body of a loop or a conditional, an else body, and the next
conditional of an else-if chain at later lines only; the reading of a line resumes past
it, so the walk over a list of lines passes at least the line read; and from a room of
two calls per line, and two more, the call limit never cuts the reading short. -/
theorem TreeSource.read_moves_forward :
    (∀ (lines : Array SourceLine) (i : Int) (ks : Option (Array StmtKind)) (s : Span),
      Span.resolve lines i ks = some s → BlockAhead i s.body s.elseBody s.elseIndex s.next) ∧
    ∀ r : TreeSource,
      (∀ i, BlockAhead i (r.plainBlock i).body (r.plainBlock i).elseBody
          (r.plainBlock i).elseIndex (r.plainBlock i).next ∧
        BlockAhead i (r.condBlock i).body (r.condBlock i).elseBody
          (r.condBlock i).elseIndex (r.condBlock i).next) ∧
      (∀ room i rest s res, Reading.Returns (r.readAt room i) (s, res) →
        ((i :: rest).dropWhile (· < res)).length < (i :: rest).length) ∧
      (∀ room, 2 * r.lines.size + 2 ≤ room →
        r.readRange room (List.range r.lines.size) =
          r.readRange (2 * r.lines.size + 2) (List.range r.lines.size)) :=
  ⟨fun _ _ _ _ => Span.resolve_ahead, fun _ =>
    ⟨fun i => ⟨(plainBlock_ahead _ i).1, (condBlock_ahead _ i).1⟩,
      fun _ _ rest _ _ h => dropWhile_resume_length rest (readAt_resumes h),
      fun _ => read_room_stable⟩⟩

/-- The block of a line found from the end: in three lines, the first, counted as `-3`,
has the second as its body, and reading resumes at the third, `-1`. -/
theorem TreeSource.read_moves_forward_from_end :
    let lines : Array SourceLine := #[⟨1, 0, "a"⟩, ⟨2, 2, "b"⟩, ⟨3, 0, "c"⟩]
    Span.resolve lines (-3) none = some { body := [-2], next := -1 } ∧
      BlockAhead (-3 : Int) [-2] [] none (-1) := by
  intro lines
  have h : Span.resolve lines (-3) none = some { body := [-2], next := -1 } := by decide
  exact ⟨h, TreeSource.read_moves_forward.1 lines (-3) none { body := [-2], next := -1 } h⟩

end DnclTrace
