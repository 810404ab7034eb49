import DnclTrace.Trace.Run

/-!
# A program logic for runs

A run is a computation over the machine that may stop early. `Run.Triple P x Q` says
that from any machine satisfying `P`, the outcome of `x` and the machine it leaves
satisfy `Q`; `Run.Exits ok stop` builds such a postcondition from a predicate on the
returned value and one on a stop. The rules follow the do-blocks of the machine, so
proofs about statements apply them and never unfold `bind`.

A computation is `Quiet` when it changes nothing but the diagnostics, adds no report of
the step budget and never stops on the budget. Evaluation, the declaration checks and
the printing of values are quiet (`quiet_evalAt`, `quiet_arraysDeclared`,
`quiet_textOf`), so every property that survives added diagnostics survives them
(`Quiet.triple`).
-/

namespace DnclTrace.Run

/-- A postcondition from a predicate on the returned value and one on a stop. -/
def Exits {α : Type} (ok : α → Machine → Prop) (stop : Halt → Machine → Prop) :
    Except Halt α → Machine → Prop
  | .ok a, m => ok a m
  | .error h, m => stop h m

/-- From every machine satisfying `P`, the outcome of `x` and the machine after it
satisfy `Q`. -/
def Triple {α : Type} (P : Machine → Prop) (x : Run α) (Q : Except Halt α → Machine → Prop) :
    Prop :=
  ∀ m, P m → Q (x.run.run m).1 (x.run.run m).2

theorem run_bind {α β : Type} (x : Run α) (f : α → Run β) (m : Machine) :
    (x >>= f).run.run m = match x.run.run m with
      | (.ok a, m') => (f a).run.run m'
      | (.error e, m') => (.error e, m') := by
  simp only [ExceptT.run_bind, StateT.run_bind]
  rcases x.run.run m with ⟨r, m'⟩
  cases r <;> rfl

@[simp] theorem run_pure {α : Type} (a : α) (m : Machine) : (pure a : Run α).run.run m = (.ok a, m) :=
  rfl

@[simp] theorem run_modify (f : Machine → Machine) (m : Machine) :
    (modify f : Run Unit).run.run m = (.ok (), f m) := rfl

@[simp] theorem run_get (m : Machine) : (get : Run Machine).run.run m = (.ok m, m) := rfl

section Rules

variable {α β : Type} {P : Machine → Prop} {stop : Halt → Machine → Prop}

theorem Triple.bind {x : Run α} {f : α → Run β} {Q : α → Machine → Prop}
    {ok : β → Machine → Prop} (hx : Triple P x (Exits Q stop))
    (hf : ∀ a, Triple (Q a) (f a) (Exits ok stop)) : Triple P (x >>= f) (Exits ok stop) := by
  intro m hm
  have first := hx m hm
  rw [run_bind]
  rcases hr : x.run.run m with ⟨r, m'⟩
  rw [hr] at first
  cases r with
  | ok a => exact hf a m' first
  | error e => exact first

theorem Triple.ret {a : α} {ok : α → Machine → Prop} (h : ∀ m, P m → ok a m) :
    Triple P (pure a) (Exits ok stop) :=
  fun m hm => h m hm

theorem Triple.halt {e : Halt} {ok : α → Machine → Prop} (h : ∀ m, P m → stop e m) :
    Triple P (throw e : Run α) (Exits ok stop) :=
  fun m hm => h m hm

theorem Triple.update {f : Machine → Machine} {ok : Unit → Machine → Prop}
    (h : ∀ m, P m → ok () (f m)) : Triple P (modify f) (Exits ok stop) :=
  fun m hm => h m hm

theorem Triple.read {ok : Machine → Machine → Prop} (h : ∀ m, P m → ok m m) :
    Triple P get (Exits ok stop) :=
  fun m hm => h m hm

/-- Reading the machine returns the machine itself. -/
theorem Triple.read_self : Triple P get (Exits (fun v m => P m ∧ v = m) stop) :=
  Triple.read fun _ hm => ⟨hm, rfl⟩

theorem Triple.cond {c : Prop} [Decidable c] {x y : Run α} {Q : Except Halt α → Machine → Prop}
    (hx : c → Triple P x Q) (hy : ¬c → Triple P y Q) : Triple P (if c then x else y) Q := by
  by_cases h : c
  · rw [if_pos h]; exact hx h
  · rw [if_neg h]; exact hy h

theorem Triple.weaken {P' : Machine → Prop} {x : Run α} {Q Q' : Except Halt α → Machine → Prop}
    (hx : Triple P x Q) (hP : ∀ m, P' m → P m) (hQ : ∀ r m, Q r m → Q' r m) : Triple P' x Q' :=
  fun m hm => hQ _ _ (hx m (hP m hm))

/-- When every call keeps `P`, so does the whole map, which returns one value per
element. -/
theorem Triple.mapM {γ : Type} {f : γ → Run α} (hf : ∀ c, Triple P (f c) (Exits (fun _ => P) stop)) :
    ∀ cs : List γ, Triple P (cs.mapM f) (Exits (fun ys m => ys.length = cs.length ∧ P m) stop)
  | [] => Triple.ret fun _ hm => ⟨rfl, hm⟩
  | c :: cs => by
    rw [List.mapM_cons]
    refine (hf c).bind fun _ => (Triple.mapM hf cs).bind fun _ => ?_
    exact Triple.ret fun _ hm => ⟨by simp [hm.1], hm.2⟩

/-- A step: the line becomes current and the count grows by one; past the budget the
run stops there. -/
theorem tick_run (cfg : RunConfig) (line : Nat) (m : Machine) :
    (tick cfg line).run.run m =
      if cfg.maxSteps < ((m.steps + 1 : Nat) : Int) then
        (.error .budget, { m with currentLine := line, steps := m.steps + 1 })
      else (.ok (), { m with currentLine := line, steps := m.steps + 1 }) := by
  simp only [tick, run_bind, run_modify, run_get]
  by_cases h : cfg.maxSteps < ((m.steps + 1 : Nat) : Int) <;> simp only [h, ↓reduceIte] <;> rfl

theorem Triple.tick {cfg : RunConfig} {line : Nat} {ok : Unit → Machine → Prop}
    (h : ∀ m, P m → let m' := { m with currentLine := line, steps := m.steps + 1 }
      (cfg.maxSteps < (m'.steps : Int) → stop .budget m') ∧
        (¬cfg.maxSteps < (m'.steps : Int) → ok () m')) :
    Triple P (tick cfg line) (Exits ok stop) := by
  intro m hm
  obtain ⟨exceeded, kept⟩ := h m hm
  rw [tick_run]
  by_cases hs : cfg.maxSteps < ((m.steps + 1 : Nat) : Int)
  · rw [if_pos hs]; exact exceeded hs
  · rw [if_neg hs]; exact kept hs

theorem run_note (d : Diagnostic) (m : Machine) :
    (note d).run.run m = (.ok (), { m with diagnostics := m.diagnostics.push d }) := rfl

theorem run_record (line : Nat) (text : String) (m : Machine) :
    (record line text).run.run m =
      (.ok (), { m with snapshots := m.snapshots.push (m.env.snapshot m.snapshots.size line text) }) :=
  rfl

theorem run_forM_note (ds : List Diagnostic) (m : Machine) :
    (ds.forM (note ·) : Run PUnit).run.run m =
      (.ok (), { m with diagnostics := m.diagnostics ++ ds.toArray }) := by
  induction ds generalizing m with
  | nil =>
    show ((Except.ok (), m) : Except Halt PUnit × Machine) = _
    simp
  | cons d ds ih =>
    simp only [List.forM]
    rw [run_bind, run_note]
    dsimp only
    rw [ih]
    simp

/-- Evaluation adds the diagnostics of the evaluation and changes nothing else; a strict
failure or a fault stops the run at the line. -/
theorem evalAt_run (cfg : RunConfig) (depth : Nat) (e : SourceExpr) (line : Nat) (m : Machine) :
    (evalAt cfg depth e line).run.run m =
      match e.evaluate (depth + 2) cfg.policy m.env line with
      | .ok (v, ds) => (.ok v, { m with diagnostics := m.diagnostics ++ ds.toArray })
      | .error (.failed err) => (.error (.failed ⟨line, .evaluationFailure, err.message⟩), m)
      | .error (.fault f) => (.error (.fault f), m) := by
  unfold evalAt
  rw [run_bind, run_get]
  dsimp only
  rcases e.evaluate (depth + 2) cfg.policy m.env line with stop | ⟨v, ds⟩
  · cases stop <;> rfl
  · rw [run_bind, run_forM_note]
    rfl

/-- After an evaluation that gives a value, the run goes on with it, the evaluation's
diagnostics added. -/
theorem evalAt_bind_run {cfg : RunConfig} {depth line : Nat} {e : SourceExpr} {f : Value → Run β}
    {env : Env} {m : Machine} {v : Value} {ds : List Diagnostic}
    (h : e.evaluate (depth + 2) cfg.policy env line = .ok (v, ds)) (henv : m.env = env) :
    (evalAt cfg depth e line >>= f).run.run m =
      (f v).run.run { m with diagnostics := m.diagnostics ++ ds.toArray } := by
  rw [run_bind, evalAt_run, henv, h]

/-- Two continuations that agree after the step agree after `tick`. -/
theorem tick_bind_run {cfg : RunConfig} {line : Nat} {m : Machine} {f g : Unit → Run α}
    (h : (f ()).run.run { m with currentLine := line, steps := m.steps + 1 } =
      (g ()).run.run { m with currentLine := line, steps := m.steps + 1 }) :
    (tick cfg line >>= f).run.run m = (tick cfg line >>= g).run.run m := by
  rw [run_bind, run_bind, tick_run]
  by_cases hs : cfg.maxSteps < ((m.steps + 1 : Nat) : Int)
  · rw [if_pos hs]
  · rw [if_neg hs]
    exact h

theorem Triple.record {line : Nat} {text : String} {ok : Unit → Machine → Prop}
    (h : ∀ m, P m →
      ok () { m with snapshots := m.snapshots.push (m.env.snapshot m.snapshots.size line text) }) :
    Triple P (record line text) (Exits ok stop) :=
  Triple.update h

theorem Triple.setEnv {f : Env → Env} {ok : Unit → Machine → Prop}
    (h : ∀ m, P m → ok () { m with env := f m.env }) : Triple P (setEnv f) (Exits ok stop) :=
  Triple.update h

end Rules

/-- The machine gains diagnostics, none a report of the step budget, and changes in
nothing else. -/
def Noted (m m' : Machine) : Prop :=
  ∃ ds : List Diagnostic, (∀ d ∈ ds, d.kind ≠ .stepBudgetExhausted) ∧
    m' = { m with diagnostics := m.diagnostics ++ ds.toArray }

theorem Noted.refl (m : Machine) : Noted m m := ⟨[], by simp, by simp⟩

theorem Noted.trans {m₁ m₂ m₃ : Machine} (h₁ : Noted m₁ m₂) (h₂ : Noted m₂ m₃) : Noted m₁ m₃ := by
  obtain ⟨ds, hds, rfl⟩ := h₁
  obtain ⟨es, hes, rfl⟩ := h₂
  refine ⟨ds ++ es, ?_, by simp [Array.append_assoc]⟩
  intro d hd
  rcases List.mem_append.1 hd with hd | hd
  · exact hds d hd
  · exact hes d hd

/-- A property that survives added diagnostics that are no budget reports. -/
def Settled (P : Machine → Prop) : Prop := ∀ m m', Noted m m' → P m → P m'

/-- Running `x` only adds diagnostics that are no budget reports, and never stops on the
budget. -/
def Quiet {α : Type} (x : Run α) : Prop :=
  ∀ m, Noted m (x.run.run m).2 ∧ (x.run.run m).1 ≠ .error .budget

section Quiet

variable {α β : Type}

theorem Quiet.triple {P : Machine → Prop} {x : Run α} (hx : Quiet x) (hP : Settled P) :
    Triple P x (Exits (fun _ => P) (fun h m => h ≠ .budget ∧ P m)) := by
  intro m hm
  obtain ⟨noted, notBudget⟩ := hx m
  have after := hP _ _ noted hm
  rcases hr : x.run.run m with ⟨r, m'⟩
  rw [hr] at after notBudget
  cases r with
  | ok a => exact after
  | error e => exact ⟨fun he => notBudget (by rw [he]), after⟩

theorem quiet_pure (a : α) : Quiet (pure a : Run α) := fun m => ⟨Noted.refl m, nofun⟩

theorem quiet_get : Quiet (get : Run Machine) := fun m => ⟨Noted.refl m, nofun⟩

theorem quiet_throw {e : Halt} (he : e ≠ .budget) : Quiet (throw e : Run α) :=
  fun m => ⟨Noted.refl m, fun h => he (Except.error.inj h)⟩

theorem Quiet.bind {x : Run α} {f : α → Run β} (hx : Quiet x) (hf : ∀ a, Quiet (f a)) :
    Quiet (x >>= f) := by
  intro m
  obtain ⟨noted, notBudget⟩ := hx m
  rw [run_bind]
  rcases hr : x.run.run m with ⟨r, m'⟩
  rw [hr] at noted notBudget
  cases r with
  | ok a =>
    obtain ⟨noted', notBudget'⟩ := hf a m'
    exact ⟨noted.trans noted', notBudget'⟩
  | error e =>
    refine ⟨noted, ?_⟩
    simpa using notBudget

theorem quiet_mapM {γ : Type} {f : γ → Run α} (hf : ∀ c, Quiet (f c)) :
    ∀ cs : List γ, Quiet (cs.mapM f)
  | [] => quiet_pure []
  | c :: cs => by
    rw [List.mapM_cons]
    exact (hf c).bind fun _ => (quiet_mapM hf cs).bind fun _ => quiet_pure _

theorem quiet_forM {γ : Type} {f : γ → Run PUnit} :
    ∀ cs : List γ, (∀ c ∈ cs, Quiet (f c)) → Quiet (cs.forM f)
  | [], _ => quiet_pure _
  | c :: cs, hf => by
    simp only [List.forM]
    exact (hf c (by simp)).bind fun _ => quiet_forM cs fun c' hc' => hf c' (by simp [hc'])

theorem quiet_note {d : Diagnostic} (hd : d.kind ≠ .stepBudgetExhausted) : Quiet (note d) :=
  fun m => ⟨⟨[d], by simpa using hd, rfl⟩, nofun⟩

theorem quiet_orFault (r : Except Fault α) : Quiet (orFault r) := by
  cases r with
  | ok a => exact quiet_pure a
  | error f => exact quiet_throw nofun

theorem quiet_textOf (v : Value) : Quiet (textOf v) := quiet_orFault _

theorem quiet_absorb (cfg : RunConfig) (line : Nat) (kind : DiagnosticKind)
    (hk : kind ≠ .stepBudgetExhausted) (message : String) : Quiet (absorb cfg line kind message) := by
  unfold absorb
  cases cfg.policy with
  | strict => exact quiet_throw nofun
  | lenient => exact quiet_note hk

/-- Evaluation under either policy reports only evaluation failures. -/
theorem evaluate_reports {depth : Nat} {policy : Policy} {env : Env} {line : Nat} {e : SourceExpr}
    {v : Value} {ds : List Diagnostic} (h : e.evaluate depth policy env line = .ok (v, ds)) :
    ∀ d ∈ ds, d.kind = .evaluationFailure := by
  unfold SourceExpr.evaluate at h
  split at h
  · cases h; simp
  · split at h
    · cases h; simp [SourceExpr.failureDiagnostic]
    · cases h
  · cases h

theorem quiet_evalAt (cfg : RunConfig) (depth : Nat) (e : SourceExpr) (line : Nat) :
    Quiet (evalAt cfg depth e line) := by
  unfold evalAt
  refine quiet_get.bind fun m => ?_
  split
  · rename_i v ds hev
    refine (quiet_forM ds fun d hd => ?_).bind fun _ => quiet_pure v
    exact quiet_note (by rw [evaluate_reports hev d hd]; nofun)
  · exact quiet_throw nofun
  · exact quiet_throw nofun

theorem quiet_arraysDeclared (cfg : RunConfig) (depth line : Nat) (es : List SourceExpr) :
    Quiet (arraysDeclared cfg depth line es) := by
  unfold arraysDeclared
  refine quiet_get.bind fun m => (quiet_orFault _).bind fun found => ?_
  cases found with
  | some n =>
    dsimp only
    exact (quiet_absorb cfg line .undeclaredArray nofun _).bind fun _ => quiet_pure false
  | none => exact quiet_pure true

end Quiet

end DnclTrace.Run
