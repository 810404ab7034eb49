import DnclTrace.Proofs.Run.Logic

/-!
# A run only adds to what it has recorded

A machine `Extends` another when it keeps all of the other's snapshots and diagnostics
as a prefix of its own and has taken at least as many steps. A computation `Grows` when
the machine it leaves always extends the one it started from.

Statements without a body are built from a few primitive effects: added diagnostics, a
new environment and a recorded snapshot. A property of machines that each of them keeps
(`Closed`) is kept by every such statement (`simple_preserves`). Two instances matter:
such a statement only extends the machine, and it takes no step (`simple_grows`,
`simple_steps`).
-/

namespace DnclTrace.Run

/-- Machine `m'` continues `m`: the snapshots and diagnostics of `m` begin those of `m'`, and
`m'` has taken at least the steps of `m`. -/
structure Extends (m m' : Machine) : Prop where
  snapshots : m.snapshots.toList <+: m'.snapshots.toList
  diagnostics : m.diagnostics.toList <+: m'.diagnostics.toList
  steps : m.steps ≤ m'.steps

theorem Extends.refl (m : Machine) : Extends m m :=
  ⟨List.prefix_refl _, List.prefix_refl _, Nat.le_refl _⟩

theorem Extends.trans {m₁ m₂ m₃ : Machine} (h₁ : Extends m₁ m₂) (h₂ : Extends m₂ m₃) :
    Extends m₁ m₃ :=
  ⟨h₁.snapshots.trans h₂.snapshots, h₁.diagnostics.trans h₂.diagnostics,
    Nat.le_trans h₁.steps h₂.steps⟩

/-- Added diagnostics only extend a machine. -/
theorem Noted.extends {m m' : Machine} (h : Noted m m') : Extends m m' := by
  obtain ⟨ds, -, rfl⟩ := h
  exact ⟨List.prefix_refl _, by simp, Nat.le_refl _⟩

/-- From every machine, `x` leaves one that extends it. -/
def Grows {α : Type} (x : Run α) : Prop := ∀ m, Extends m (x.run.run m).2

section Grows

variable {α β : Type}

theorem grows_pure (a : α) : Grows (pure a : Run α) := fun m => Extends.refl m

theorem grows_throw (e : Halt) : Grows (throw e : Run α) := fun m => Extends.refl m

theorem grows_modify {f : Machine → Machine} (h : ∀ m, Extends m (f m)) : Grows (modify f) := h

/-- A growing run leaves a machine extending the one it started from, whatever it
answers. -/
theorem Grows.extends_of_run {x : Run α} (hx : Grows x) {m m' : Machine}
    {r : Except Halt α} (h : x.run.run m = (r, m')) : Extends m m' := by
  have g := hx m
  rwa [h] at g

/-- A continuation that grows keeps whatever extension its first part reached. -/
theorem Grows.bind_extends {x : Run α} {f : α → Run β} (hf : ∀ a, Grows (f a))
    {m₀ m : Machine} (first : Extends m₀ (x.run.run m).2) : Extends m₀ ((x >>= f).run.run m).2 := by
  rw [run_bind]
  rcases hr : x.run.run m with ⟨r, m'⟩
  rw [hr] at first
  cases r with
  | ok a => exact first.trans (hf a m')
  | error e => exact first

theorem Grows.bind {x : Run α} {f : α → Run β} (hx : Grows x) (hf : ∀ a, Grows (f a)) :
    Grows (x >>= f) := fun m => Grows.bind_extends hf (hx m)

theorem Quiet.grows {x : Run α} (hx : Quiet x) : Grows x := fun m => (hx m).1.extends

theorem grows_tick (cfg : RunConfig) (line : Nat) : Grows (tick cfg line) := by
  intro m
  rw [tick_run]
  split <;> exact ⟨List.prefix_refl _, List.prefix_refl _, Nat.le_succ _⟩

theorem grows_record (line : Nat) (text : String) : Grows (record line text) :=
  grows_modify fun m => ⟨by simp [Array.toList_push], List.prefix_refl _, Nat.le_refl _⟩

theorem grows_setEnv (f : Env → Env) : Grows (setEnv f) :=
  grows_modify fun _ => ⟨List.prefix_refl _, List.prefix_refl _, Nat.le_refl _⟩

theorem grows_beginIteration (cfg : RunConfig) (line : Nat) : Grows (beginIteration cfg line) :=
  (grows_tick cfg line).bind fun _ =>
    grows_modify fun _ => ⟨List.prefix_refl _, List.prefix_refl _, Nat.le_refl _⟩

end Grows

/-- Running `x` leaves a machine satisfying `P` whenever it starts from one, whatever it
returns. -/
def Preserves {α : Type} (P : Machine → Prop) (x : Run α) : Prop :=
  Triple P x (Exits (fun _ => P) (fun _ => P))

/-- A property of machines kept by the primitive effects of a statement without a body:
added diagnostics, a new environment, and a recorded snapshot. -/
structure Closed (P : Machine → Prop) : Prop where
  noted : Settled P
  setEnv : ∀ m (f : Env → Env), P m → P { m with env := f m.env }
  record : ∀ m line text, P m →
    P { m with snapshots := m.snapshots.push (m.env.snapshot m.snapshots.size line text) }

section Preserves

variable {α : Type} {P : Machine → Prop}

/-- The machine a preserving computation leaves satisfies the property. -/
theorem Preserves.after {x : Run α} (hx : Preserves P x) {m : Machine} (hm : P m) :
    P (x.run.run m).2 := by
  have kept := hx m hm
  rcases hr : x.run.run m with ⟨r, m'⟩
  rw [hr] at kept
  cases r <;> exact kept

theorem Quiet.preserves {x : Run α} (hx : Quiet x) (hP : Settled P) : Preserves P x :=
  (hx.triple hP).weaken (fun _ h => h) fun r _ h => by
    cases r with
    | ok a => exact h
    | error e => exact h.2

theorem Closed.setEnv_preserves (hP : Closed P) (f : Env → Env) : Preserves P (Run.setEnv f) :=
  Triple.setEnv fun m h => hP.setEnv m f h

theorem Closed.record_preserves (hP : Closed P) (line : Nat) (text : String) :
    Preserves P (Run.record line text) :=
  Triple.record fun m h => hP.record m line text h

variable (cfg : RunConfig) (depth line : Nat) (target : String)

theorem assign_preserves (hP : Closed P) (value : SourceExpr) :
    Preserves P (assign cfg depth line target value) := by
  unfold assign
  refine ((quiet_arraysDeclared _ _ _ _).preserves hP.noted).bind fun _ =>
    Triple.cond (fun _ => Triple.ret fun _ h => h) fun _ => ?_
  refine ((quiet_evalAt _ _ _ _).preserves hP.noted).bind fun v => ?_
  refine (hP.setEnv_preserves _).bind fun _ => ?_
  exact ((quiet_textOf v).preserves hP.noted).bind fun _ => hP.record_preserves _ _

theorem declare_preserves (hP : Closed P) (elements : List SourceExpr) :
    Preserves P (declare cfg depth line target elements) := by
  unfold declare
  refine ((quiet_arraysDeclared _ _ _ _).preserves hP.noted).bind fun _ =>
    Triple.cond (fun _ => Triple.ret fun _ h => h) fun _ => ?_
  refine ((quiet_mapM (fun _ => quiet_evalAt _ _ _ _) elements).preserves hP.noted).bind
    fun vs => ?_
  refine (hP.setEnv_preserves _).bind fun _ => ?_
  exact ((quiet_mapM quiet_textOf vs).preserves hP.noted).bind fun _ => hP.record_preserves _ _

theorem store_preserves (hP : Closed P) (index value : SourceExpr) :
    Preserves P (store cfg depth line target index value) := by
  unfold store
  refine (Triple.read fun _ h => h).bind fun _ => Triple.cond (fun _ => ?_) fun _ => ?_
  · exact ((quiet_absorb cfg line .undeclaredArray nofun _).preserves hP.noted).bind fun _ =>
      Triple.ret fun _ h => h
  refine ((quiet_arraysDeclared _ _ _ _).preserves hP.noted).bind fun _ =>
    Triple.cond (fun _ => Triple.ret fun _ h => h) fun _ => ?_
  refine ((quiet_evalAt _ _ _ _).preserves hP.noted).bind fun i => ?_
  refine ((quiet_evalAt _ _ _ _).preserves hP.noted).bind fun v => ?_
  refine (Triple.read fun _ h => h).bind fun mg => ?_
  -- the write either falls outside the array, absorbed, or lands and is recorded
  cases mg.env.writeIndex target i v with
  | none =>
    exact ((quiet_textOf i).bind fun _ =>
      quiet_absorb cfg line .indexOutOfRange nofun _).preserves hP.noted
  | some env =>
    refine (hP.setEnv_preserves _).bind fun _ => ?_
    refine ((quiet_textOf i).preserves hP.noted).bind fun _ => ?_
    exact ((quiet_textOf v).preserves hP.noted).bind fun _ => hP.record_preserves _ _

theorem output_preserves (hP : Closed P) (parts : List OutputPart) :
    Preserves P (output cfg depth line parts) := by
  unfold output
  refine ((quiet_arraysDeclared _ _ _ _).preserves hP.noted).bind fun _ =>
    Triple.cond (fun _ => Triple.ret fun _ h => h) fun _ => ?_
  refine ((quiet_mapM (fun p => ?_) parts).preserves hP.noted).bind fun _ => ?_
  · cases p with
    | literal t => exact quiet_pure t
    | expr e => exact (quiet_evalAt _ _ _ _).bind quiet_textOf
  exact (hP.setEnv_preserves _).bind fun _ => hP.record_preserves _ _

/-- Every statement without a body keeps a property closed under its effects. -/
theorem simple_preserves (hP : Closed P) (c : Classified) : Preserves P (simple cfg depth c) := by
  obtain ⟨line, text, form⟩ := c
  cases form with
  | assign t v => exact assign_preserves cfg depth line t hP v
  | arrayDeclare t es => exact declare_preserves cfg depth line t hP es
  | indexAssign t i v => exact store_preserves cfg depth line t hP i v
  | output ps => exact output_preserves cfg depth line hP ps
  | _ => exact Triple.ret fun _ h => h

end Preserves

/-- Extending a given machine is closed under every effect of a statement. -/
theorem closed_extends (m₀ : Machine) : Closed (Extends m₀) where
  noted _ _ h hm := hm.trans h.extends
  setEnv _ _ hm := ⟨hm.snapshots, hm.diagnostics, hm.steps⟩
  record _ _ _ hm := hm.trans ⟨by simp [Array.toList_push], List.prefix_refl _, Nat.le_refl _⟩

/-- Having taken a given number of steps is closed under every effect of a statement. -/
theorem closed_steps (n : Nat) : Closed fun m => m.steps = n where
  noted _ _ h hm := by
    obtain ⟨ds, -, rfl⟩ := h
    exact hm
  setEnv _ _ hm := hm
  record _ _ _ hm := hm

theorem simple_grows (cfg : RunConfig) (depth : Nat) (c : Classified) : Grows (simple cfg depth c) :=
  fun m => (simple_preserves cfg depth (closed_extends m) c).after (Extends.refl m)

/-- A statement without a body takes no step. -/
theorem simple_steps (cfg : RunConfig) (depth : Nat) (c : Classified) (m : Machine) :
    ((simple cfg depth c).run.run m).2.steps = m.steps :=
  (simple_preserves cfg depth (closed_steps m.steps) c).after rfl

end DnclTrace.Run
