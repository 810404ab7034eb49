import DnclTrace.Proofs.Run.Invariant

/-!
# How a run ends

A program's run starts sound (`start_sound`), so by `block_sound` it either returns a
sound machine or stops on the budget exhausted, one step past it; a trace comes only
from these two ends (`execute_cases`). From there:

* `execute_step_by_step`: the snapshots of a trace are numbered from zero, and
  each differs from the state before it, the empty initial state for the first, by the
  effect of one action of a statement of the program alone, the completion snapshot of
  a completed run last.
* `execute_completes_or_exhausts`: a run takes at most one step past the budget, and
  a trace either completed within the budget, with exactly one completion snapshot, the
  last, at the program's last line, and no budget report; or was cut short one step
  past the budget, with no completion snapshot and one budget report, the last, at the
  line of the statement whose tick went past the budget.
-/

namespace DnclTrace

open Run

variable {depth : Nat} {p : ParsedProgram} {cfg : RunConfig} {t : Trace}

/-- The statements of a program. -/
abbrev ParsedProgram.all (p : ParsedProgram) : List Stmt := Stmt.walk p.stmts

theorem start_sound (p : ParsedProgram) (cfg : RunConfig) :
    Sound cfg p.all p.diagnostics.toArray 0 p.start := by
  refine ⟨⟨nofun, ⟨[], nofun, .nil _⟩, rfl, nofun, ⟨[], nofun, by simp [ParsedProgram.start]⟩⟩,
    Nat.le_refl _, Nat.zero_le _⟩

/-- The run of a program's statements returns sound or stops exhausted on the budget. -/
theorem runStmts_ends (depth : Nat) (p : ParsedProgram) (cfg : RunConfig) :
    Exits (fun _ => Sound cfg p.all p.diagnostics.toArray 0) (Stopped cfg p.all p.diagnostics.toArray)
      (p.runStmts depth cfg).1 (p.runStmts depth cfg).2 :=
  (block_sound _ (Nat.lt_succ_self _)).1 (depth + 2) p.stmts (List.Subset.refl _) 0 p.start
    (start_sound p cfg)

/-- A trace comes from a run that returned, with the completion snapshot added, or from
one that ran out of budget, with the budget diagnostic added. -/
theorem execute_cases (h : p.execute depth cfg = .ok t) :
    (∃ m, Sound cfg p.all p.diagnostics.toArray 0 m ∧
      t = ({ m with snapshots :=
        m.snapshots.push (m.env.snapshot m.snapshots.size (lastLineNumber p.lines) completionText) } :
          Machine).trace false) ∨
    (∃ m, Exhausted cfg p.all p.diagnostics.toArray m ∧ (p.runStmts depth cfg).2 = m ∧
      t = ({ m with diagnostics :=
        m.diagnostics.push ⟨m.currentLine, .stepBudgetExhausted, budgetMessage cfg.maxSteps⟩ } :
          Machine).trace true) := by
  have ends := runStmts_ends depth p cfg
  unfold ParsedProgram.execute ParsedProgram.outcome at h
  rcases hr : p.runStmts depth cfg with ⟨r, m⟩
  rw [hr] at h ends
  cases r with
  | ok u =>
    cases h
    exact .inl ⟨m, ends, rfl⟩
  | error e =>
    cases e with
    | budget =>
      cases h
      exact .inr ⟨m, ends, rfl, rfl⟩
    | failed d => cases h
    | fault f => cases h

/-- The snapshots of a trace of `p` are numbered from zero, and each follows the state
before it, the empty initial state for the first, by the effect of one action of a
statement of `p` and by nothing else; a completed trace ends with its completion
snapshot, at the program's last line. -/
structure Trace.StepByStep (p : ParsedProgram) (t : Trace) : Prop where
  initial : t.initial.env = {}
  indexed : ∀ k (hk : k < t.snapshots.size), t.snapshots[k].stepIndex = k
  recorded : ∃ acts : List Act, (∀ a ∈ acts, ∃ s ∈ Stmt.walk p.stmts, a.IssuedBy s) ∧
    Recorded t.initial.env
      (acts ++ if t.truncated then [] else [.finish (lastLineNumber p.lines)]) t.snapshots.toList

theorem execute_step_by_step (h : p.execute depth cfg = .ok t) : t.StepByStep p := by
  rcases execute_cases h with ⟨m, hm, rfl⟩ | ⟨m, hm, -, rfl⟩
  · obtain ⟨acts, issued, recorded⟩ := hm.recorded
    refine ⟨rfl, indexed_push hm.indexed rfl, acts, issued, ?_⟩
    show Recorded {} (acts ++ [.finish _]) (m.snapshots.push _).toList
    rw [Array.toList_push]
    exact recorded.snoc ⟨trivial, rfl, by rw [Env.snapshot_env, hm.synced]; rfl⟩
  · obtain ⟨acts, issued, recorded⟩ := hm.recorded
    refine ⟨rfl, hm.indexed, acts, issued, ?_⟩
    simpa [Machine.trace] using recorded

/-- A conditional that holds, around a conditional loop that never starts: two snapshots,
the decision and the completion. -/
theorem execute_step_by_step_branch :
    let p : ParsedProgram := ⟨#[⟨1, 0, "もし 1 ならば"⟩, ⟨2, 2, "0 の間，"⟩],
      [.branch ⟨1, "もし 1 ならば", .conditional ⟨"1", .ok (.num (.int 1))⟩⟩
        [.loop ⟨2, "0 の間，", .whileLoop ⟨"0", .ok (.num (.int 0))⟩⟩ []] none], []⟩
    let t : Trace := ⟨#[⟨0, 1, "条件判定: 『1』は成立します。", [], [], []⟩,
        ⟨1, 2, completionText, [], [], []⟩],
      ({} : Env).snapshot (-1) 0 "変数を初期化します。", false, [], ⟨2, 2, 0, 0, false⟩⟩
    p.execute 0 ⟨10, .lenient⟩ = .ok t ∧ t.StepByStep p := by
  intro p t
  have ran : p.execute 0 ⟨10, .lenient⟩ = .ok t := rfl
  exact ⟨ran, execute_step_by_step ran⟩

/-- Starting without budget reports, a run adds none before it stops. -/
theorem Run.Kept.no_budget_report {m : Machine} (hm : Kept p.all p.diagnostics.toArray m)
    (hp : ∀ d ∈ p.diagnostics, d.kind ≠ .stepBudgetExhausted) :
    ∀ d ∈ m.diagnostics.toList, d.kind ≠ .stepBudgetExhausted := by
  obtain ⟨ds, hds, heq⟩ := hm.noted
  intro d hd
  rw [heq, Array.toList_append, List.mem_append] at hd
  rcases hd with hd | hd
  · exact hp d (by simpa using hd)
  · exact hds d (by simpa using hd)

/-- A trace of `p` that completed within the budget: its last snapshot and no other is
the completion snapshot, at the program's last line, and nothing reports the budget. -/
structure Trace.Completed (p : ParsedProgram) (maxSteps : Int) (t : Trace) : Prop where
  not_truncated : t.truncated = false
  steps_le : t.stats.steps ≤ maxSteps.toNat
  last : ∃ s, t.snapshots.back? = some s ∧ s.description = completionText ∧
    s.line = lastLineNumber p.lines
  only_last : ∀ k (hk : k + 1 < t.snapshots.size), t.snapshots[k].description ≠ completionText
  no_report : ∀ d ∈ t.diagnostics, d.kind ≠ .stepBudgetExhausted

/-- A trace of `p` cut short one step past the budget, where the run stopped with the
machine `stop`: no completion snapshot, and the diagnostics end with their only budget
report, at the line of the statement of `p` whose tick went past the budget and stopped
the run. -/
structure Trace.CutShort (p : ParsedProgram) (maxSteps : Int) (stop : Machine) (t : Trace) :
    Prop where
  truncated : t.truncated = true
  stats_truncated : t.stats.truncated = true
  steps_eq : t.stats.steps = maxSteps.toNat + 1
  no_completion : ∀ s ∈ t.snapshots.toList, s.description ≠ completionText
  report : ∃ ds d, t.diagnostics = ds ++ [d] ∧ (∀ d' ∈ ds, d'.kind ≠ .stepBudgetExhausted) ∧
    d.kind = .stepBudgetExhausted ∧
    ∃ s ∈ Stmt.walk p.stmts, Form.executes s.head.form ∧ d.line = s.head.line ∧
      TickedPast maxSteps s stop

/-- A run takes at most one step past the budget, and its trace, when it has one, either
completed within the budget or was cut short one step past it, by the tick of the
statement its budget report names. -/
theorem execute_completes_or_exhausts (hp : ∀ d ∈ p.diagnostics, d.kind ≠ .stepBudgetExhausted) :
    (p.runStmts depth cfg).2.steps ≤ cfg.maxSteps.toNat + 1 ∧
    ∀ t, p.execute depth cfg = .ok t →
      t.Completed p cfg.maxSteps ∨ t.CutShort p cfg.maxSteps (p.runStmts depth cfg).2 := by
  refine ⟨?_, fun t h => ?_⟩
  · have ends := runStmts_ends depth p cfg
    rcases hr : p.runStmts depth cfg with ⟨r, m⟩
    rw [hr] at ends
    cases r with
    | ok u => exact Nat.le_succ_of_le ends.live
    | error e =>
      cases e with
      | budget => exact Nat.le_of_eq ends.exceeded
      | failed d => exact Nat.le_succ_of_le ends
      | fault f => exact Nat.le_succ_of_le ends
  rcases execute_cases h with ⟨m, hm, rfl⟩ | ⟨m, hm, hstop, rfl⟩
  · refine .inl ⟨rfl, hm.live, ⟨m.env.snapshot m.snapshots.size (lastLineNumber p.lines)
      completionText, by simp [Machine.trace], rfl, rfl⟩, fun k hk => ?_,
      hm.toKept.no_budget_report hp⟩
    simp only [Machine.trace, Array.size_push] at hk ⊢
    rw [Array.getElem_push_lt (by omega)]
    exact hm.plain _ (Array.getElem_mem_toList _)
  · -- the report stands at the line where the run stopped: that of the tick past the budget
    obtain ⟨s, hs, hx, m₀, hm₀, htick⟩ := hm.ticked
    refine .inr ⟨rfl, rfl, hm.exceeded, hm.plain, m.diagnostics.toList,
      ⟨m.currentLine, .stepBudgetExhausted, budgetMessage cfg.maxSteps⟩, by simp [Machine.trace],
      hm.toKept.no_budget_report hp, rfl, s, hs, hx, by rw [htick], ?_⟩
    rw [hstop]
    exact ⟨m₀, hm₀, htick⟩

/-- A conditional loop that always holds, after a line that was not understood, under a
budget of three steps. -/
theorem execute_completes_or_exhausts_forever :
    let p : ParsedProgram := ⟨#[⟨1, 0, "?"⟩, ⟨2, 0, "1 の間，"⟩],
      [.single ⟨1, "?", .unrecognized⟩,
        .loop ⟨2, "1 の間，", .whileLoop ⟨"1", .ok (.num (.int 1))⟩⟩ []],
      [⟨1, .unrecognizedLine, "解釈できない行です: ?"⟩]⟩
    (∀ d ∈ p.diagnostics, d.kind ≠ .stepBudgetExhausted) ∧
      (p.runStmts 0 ⟨3, .lenient⟩).2.steps ≤ (3 : Int).toNat + 1 ∧
      ∀ t, p.execute 0 ⟨3, .lenient⟩ = .ok t →
        t.Completed p 3 ∨ t.CutShort p 3 (p.runStmts 0 ⟨3, .lenient⟩).2 :=
  ⟨by decide, execute_completes_or_exhausts (by decide)⟩

end DnclTrace
