import DnclTrace.Proofs.Run.Growth

/-!
# Runs under a smaller and a larger budget

Only a step reads the budget. Two runs of one program under budgets `b ≤ b'` therefore
go in lock-step (`Lockstep`): from the same machine they end alike, having stayed within
`b`, or the run under `b` stops on its budget at a machine that the other run only
extends, keeping its snapshots and diagnostics as prefixes. A loop's cap on iterations
lies past the larger budget, so it never stops the larger run where the smaller one goes
on; where it stops the smaller run, that run stops on the budget anyway.

The relation is built like the program logic of `Triple`: one rule per combinator
(`Lockstep.bind`, `Lockstep.cond`), one lemma per primitive (`tick_lockstep`), the loops
by induction on the iterations left (`counted_lockstep`, `repeated_lockstep`), and every
block by the run's own recursion (`block_lockstep`).

Main statement: `compile_budget_monotone`: whatever a larger budget lets a program
show, a smaller budget shows a prefix of, and the very same trace once it completes;
a failure under the smaller budget is the same failure under the larger one.
-/

namespace DnclTrace.Run

/-- How the runs of one computation under a budget `b` and under a larger one end, from
the same machine: alike, and when they return, within `b` and after at least `k` steps;
or the run under `b` stopped on its budget at a machine the other run's last machine
extends. -/
def Agree {α : Type} (b k : Nat) (small big : Except Halt α × Machine) : Prop :=
  (big = small ∧ ∀ a, small.1 = .ok a → k ≤ small.2.steps ∧ small.2.steps ≤ b) ∨
  (small.1 = .error .budget ∧ Extends small.2 big.2)

/-- Runs of `x` under the budget of `cfg` and of `x'` under a larger one go in lock-step
from every machine that has taken at least `k` steps and no more than the budget;
when they return, they have taken at least `k'`. The larger run only extends its
machine. -/
structure Lockstep {α : Type} (cfg : RunConfig) (k k' : Nat) (x x' : Run α) : Prop where
  agree : ∀ m, k ≤ m.steps → m.steps ≤ cfg.maxSteps.toNat →
    Agree cfg.maxSteps.toNat k' (x.run.run m) (x'.run.run m)
  grows : Grows x'

section Rules

variable {α β : Type} {cfg : RunConfig} {k k' k'' : Nat}

theorem Lockstep.bind {x x' : Run α} {f f' : α → Run β} (hx : Lockstep cfg k k' x x')
    (hf : ∀ a, Lockstep cfg k' k'' (f a) (f' a)) : Lockstep cfg k k'' (x >>= f) (x' >>= f') := by
  refine ⟨fun m hk hb => ?_, hx.grows.bind fun a => (hf a).grows⟩
  have first := hx.agree m hk hb
  rw [run_bind x f]
  rcases hr : x.run.run m with ⟨r, m₁⟩
  rw [hr] at first
  rcases first with ⟨same, within⟩ | ⟨stopped, ext⟩
  · rw [run_bind x' f', same]
    cases r with
    | ok a =>
      obtain ⟨hk₁, hb₁⟩ := within a rfl
      exact (hf a).agree m₁ hk₁ hb₁
    | error e => exact .inl ⟨rfl, fun _ h => nomatch h⟩
  · -- the smaller run stopped; whatever the larger one does next only extends it
    cases stopped
    exact .inr ⟨rfl, Grows.bind_extends (fun a => (hf a).grows) ext⟩

/-- A computation that reads no budget and takes no step goes in lock-step with itself. -/
theorem Lockstep.same {x : Run α} (hk : k' ≤ k) (grows : Grows x)
    (steps : ∀ m, (x.run.run m).2.steps = m.steps) : Lockstep cfg k k' x x :=
  ⟨fun m hk' hb => .inl ⟨rfl, fun _ _ => by rw [steps]; omega⟩, grows⟩

theorem Lockstep.ret (a : α) (hk : k' ≤ k) : Lockstep cfg k k' (pure a) (pure a) :=
  .same hk (grows_pure a) fun _ => rfl

theorem Lockstep.halt (e : Halt) : Lockstep cfg k k' (throw e : Run α) (throw e) :=
  ⟨fun _ _ _ => .inl ⟨rfl, fun _ h => nomatch h⟩, grows_throw e⟩

theorem Lockstep.lower {x x' : Run α} (h : Lockstep cfg k k' x x') (hk : k'' ≤ k') :
    Lockstep cfg k k'' x x' := by
  refine ⟨fun m hk' hb => ?_, h.grows⟩
  rcases h.agree m hk' hb with ⟨same, within⟩ | stopped
  · exact .inl ⟨same, fun a ha => ⟨Nat.le_trans hk (within a ha).1, (within a ha).2⟩⟩
  · exact .inr stopped

theorem Lockstep.cond {c : Prop} [Decidable c] {x x' y y' : Run α} (hx : c → Lockstep cfg k k' x x')
    (hy : ¬c → Lockstep cfg k k' y y') :
    Lockstep cfg k k' (if c then x else y) (if c then x' else y') := by
  by_cases h : c
  · rw [if_pos h, if_pos h]; exact hx h
  · rw [if_neg h, if_neg h]; exact hy h

/-- A quiet computation only adds diagnostics, so it takes no step. -/
theorem Quiet.lockstep {x : Run α} (hx : Quiet x) : Lockstep cfg k k x x :=
  .same (Nat.le_refl k) hx.grows fun m => by
    obtain ⟨ds, -, heq⟩ := (hx m).1
    rw [heq]

theorem record_lockstep (line : Nat) (text : String) :
    Lockstep cfg k k (record line text) (record line text) :=
  .same (Nat.le_refl k) (grows_record line text) fun _ => rfl

theorem setEnv_lockstep (f : Env → Env) : Lockstep cfg k k (setEnv f) (setEnv f) :=
  .same (Nat.le_refl k) (grows_setEnv f) fun _ => rfl

end Rules

section TwoBudgets

/-! Two configurations with the same policy, the budget of `cfg` no larger than that of
`cfg'`. -/

variable {cfg cfg' : RunConfig}

/-- Evaluation reads the policy of a configuration, not its budget. -/
theorem evalAt_policy (h : cfg.policy = cfg'.policy) : evalAt cfg = evalAt cfg' := by
  obtain ⟨b, p⟩ := cfg
  obtain ⟨b', p'⟩ := cfg'
  cases h
  rfl

/-- A statement without a body reads the policy of a configuration, not its budget. -/
theorem simple_policy (h : cfg.policy = cfg'.policy) : simple cfg = simple cfg' := by
  obtain ⟨b, p⟩ := cfg
  obtain ⟨b', p'⟩ := cfg'
  cases h
  rfl

variable {k : Nat}

theorem evalAt_lockstep (hpol : cfg.policy = cfg'.policy) (depth : Nat) (e : SourceExpr)
    (line : Nat) : Lockstep cfg k k (evalAt cfg depth e line) (evalAt cfg' depth e line) := by
  rw [← evalAt_policy hpol]
  exact (quiet_evalAt cfg depth e line).lockstep

theorem simple_lockstep (hpol : cfg.policy = cfg'.policy) (depth : Nat) (c : Classified) :
    Lockstep cfg k k (simple cfg depth c) (simple cfg' depth c) := by
  rw [← simple_policy hpol]
  exact .same (Nat.le_refl k) (simple_grows cfg depth c) (simple_steps cfg depth c)

/-- A step: both runs take it alike within the smaller budget; past it the smaller run
stops where the larger one stands. -/
theorem tick_lockstep (hle : cfg.maxSteps ≤ cfg'.maxSteps) (line : Nat) :
    Lockstep cfg k (k + 1) (tick cfg line) (tick cfg' line) := by
  refine ⟨fun m hk hb => ?_, grows_tick cfg' line⟩
  rw [tick_run, tick_run]
  by_cases hs : cfg.maxSteps < ((m.steps + 1 : Nat) : Int)
  · rw [if_pos hs]
    refine .inr ⟨rfl, ?_⟩
    split <;> exact Extends.refl _
  · have hs' : ¬cfg'.maxSteps < ((m.steps + 1 : Nat) : Int) := by omega
    rw [if_neg hs, if_neg hs']
    exact .inl ⟨rfl, fun _ _ => ⟨by simp only; omega, by simp only; omega⟩⟩

theorem beginIteration_lockstep (hle : cfg.maxSteps ≤ cfg'.maxSteps) (line : Nat) :
    Lockstep cfg k (k + 1) (beginIteration cfg line) (beginIteration cfg' line) :=
  (tick_lockstep hle line).bind fun _ =>
    .same (Nat.le_refl _) (grows_modify fun _ => ⟨List.prefix_refl _, List.prefix_refl _,
      Nat.le_refl _⟩) fun _ => rfl

end TwoBudgets

section Loops

variable {cfg cfg' : RunConfig} {body body' : Run Unit} {line : Nat}

theorem counted_grows (hbody : Grows body) (name : String) (stop step : Value) :
    ∀ left counter, Grows (counted cfg body left line name stop step counter) := by
  intro left counter
  fun_induction counted cfg body left line name stop step counter with
  | case1 counter => exact grows_throw _
  | case2 counter left inside ih =>
    refine (grows_beginIteration cfg line).bind fun _ => (grows_setEnv _).bind fun _ =>
      (quiet_textOf counter).grows.bind fun _ => (grows_record _ _).bind fun _ =>
        hbody.bind fun _ => ?_
    split
    · exact ih _
    · exact grows_throw _
  | case3 counter left outside => exact grows_pure ()

theorem repeated_grows (hbody : Grows body) (depth : Nat) (cond : SourceExpr) :
    ∀ left, Grows (repeated cfg body left depth line cond) := by
  intro left
  induction left with
  | zero => rw [repeated]; exact grows_throw _
  | succ left ih =>
    rw [repeated]
    refine (quiet_evalAt _ _ _ _).grows.bind fun _ => ?_
    split
    · exact (grows_beginIteration cfg line).bind fun _ => (grows_record _ _).bind fun _ =>
        hbody.bind fun _ => ih
    · exact grows_pure ()

variable (hle : cfg.maxSteps ≤ cfg'.maxSteps)
include hle

/-- The iterations of a counted loop go in lock-step while the steps taken and the
larger run's iterations left together pass the larger budget; the smaller run's own
cap needs no such bound, as running out of it is a stop on the budget. -/
theorem counted_lockstep (hbody : ∀ k, Lockstep cfg k k body body') (name : String)
    (stop step : Value) :
    ∀ left' left counter k, cfg'.maxSteps.toNat < k + left' →
      Lockstep cfg k k (counted cfg body left line name stop step counter)
        (counted cfg' body' left' line name stop step counter) := by
  intro left'
  induction left' with
  | zero =>
    intro left counter k hk
    rw [counted]
    refine ⟨fun m hkm hb => absurd (Nat.le_trans hkm hb) ?_, grows_throw _⟩
    have := Int.toNat_le_toNat hle
    omega
  | succ left' ih =>
    intro left counter k hk
    have grows : Grows (counted cfg' body' (left' + 1) line name stop step counter) :=
      counted_grows (hbody 0).grows name stop step _ _
    cases left with
    | zero =>
      rw [counted]
      exact ⟨fun m _ _ => .inr ⟨rfl, grows m⟩, grows⟩
    | succ left =>
      rw [counted, counted]
      refine .cond (fun _ => ?_) fun _ => .ret () (Nat.le_refl k)
      refine (beginIteration_lockstep hle line).bind fun _ => (setEnv_lockstep _).bind fun _ =>
        (quiet_textOf counter).lockstep.bind fun _ => (record_lockstep _ _).bind fun _ =>
          (hbody (k + 1)).bind fun _ => ?_
      split
      · exact (ih left _ (k + 1) (by omega)).lower (Nat.le_succ k)
      · exact .halt _

/-- The iterations of a conditional loop, likewise. -/
theorem repeated_lockstep (hpol : cfg.policy = cfg'.policy)
    (hbody : ∀ k, Lockstep cfg k k body body') (depth : Nat)
    (cond : SourceExpr) :
    ∀ left' left k, cfg'.maxSteps.toNat < k + left' →
      Lockstep cfg k k (repeated cfg body left depth line cond)
        (repeated cfg' body' left' depth line cond) := by
  intro left'
  induction left' with
  | zero =>
    intro left k hk
    rw [repeated]
    refine ⟨fun m hkm hb => absurd (Nat.le_trans hkm hb) ?_, grows_throw _⟩
    have := Int.toNat_le_toNat hle
    omega
  | succ left' ih =>
    intro left k hk
    have grows : Grows (repeated cfg' body' (left' + 1) depth line cond) :=
      repeated_grows (hbody 0).grows depth cond _
    cases left with
    | zero =>
      rw [repeated]
      exact ⟨fun m _ _ => .inr ⟨rfl, grows m⟩, grows⟩
    | succ left =>
      rw [repeated, repeated]
      refine (evalAt_lockstep hpol depth cond line).bind fun v =>
        .cond (fun _ => ?_) fun _ => .ret () (Nat.le_refl k)
      refine (beginIteration_lockstep hle line).bind fun _ => (record_lockstep _ _).bind fun _ =>
        (hbody (k + 1)).bind fun _ => ?_
      exact (ih left (k + 1) (by omega)).lower (Nat.le_succ k)

end Loops

/-- Every block and every statement goes in lock-step under the two budgets, when the
larger run caps its loops past the larger budget. By induction along the run's own
recursion: a statement steps first, then runs its handler, its loop or its branches. -/
theorem block_lockstep {cfg cfg' : RunConfig} (hle : cfg.maxSteps ≤ cfg'.maxSteps)
    (hpol : cfg.policy = cfg'.policy) (bound bound' : Nat) (hb : cfg'.maxSteps.toNat < bound') :
    (∀ depth ss k, Lockstep cfg k k (block cfg bound depth ss) (block cfg' bound' depth ss)) ∧
    (∀ depth s k, Lockstep cfg k k (stmt cfg bound depth s) (stmt cfg' bound' depth s)) := by
  refine block.mutual_induct cfg bound _ _ ?single ?inert ?loop ?inertLoop ?branch ?inertBranch
    ?nil ?cons
  case single =>
    intro depth c hx k
    rw [stmt, stmt, if_pos hx, if_pos hx]
    exact (tick_lockstep hle _).bind fun _ => (simple_lockstep hpol depth c).lower (Nat.le_succ k)
  case inert =>
    intro depth c hx k
    rw [stmt, stmt, if_neg hx, if_neg hx]
    exact .ret () (Nat.le_refl k)
  case loop =>
    intro depth line text form body hx ih k
    rw [stmt.eq_def, stmt.eq_def]
    dsimp only
    rw [if_pos hx, if_pos hx]
    refine (tick_lockstep hle line).bind fun _ => ?_
    cases form with
    | forLoop name a b d desc =>
      refine (evalAt_lockstep hpol _ a line).bind fun start =>
        (evalAt_lockstep hpol _ b line).bind fun stop => (evalAt_lockstep hpol _ d line).bind
          fun step => ?_
      exact (counted_lockstep hle ih name stop _ bound' bound start (k + 1)
        (by omega)).lower (Nat.le_succ k)
    | whileLoop cond =>
      exact (repeated_lockstep hle hpol ih depth cond bound' bound (k + 1) (by omega)).lower
        (Nat.le_succ k)
    | _ => exact .ret () (Nat.le_succ k)
  case inertLoop =>
    intro depth line text form body hx _ k
    cases form <;> first | exact absurd rfl hx | exact .ret () (Nat.le_refl k)
  case branch =>
    intro depth line text body orElse cond ihBody ihElse k
    rw [stmt.eq_def, stmt.eq_def]
    dsimp only
    refine (tick_lockstep hle line).bind fun _ => (evalAt_lockstep hpol depth cond line).bind
      fun v => (record_lockstep _ _).bind fun _ => .cond (fun _ => (ihBody _).lower
        (Nat.le_succ k)) fun _ => ?_
    cases orElse with
    | some b => exact (ihElse _).lower (Nat.le_succ k)
    | none => exact .ret () (Nat.le_succ k)
  case inertBranch =>
    intro depth line text form body orElse hc k
    cases form <;> first | exact absurd rfl (hc _) | exact .ret () (Nat.le_refl k)
  case nil =>
    intro depth k
    exact .ret () (Nat.le_refl k)
  case cons =>
    intro depth s rest ihs ihr k
    rw [block, block]
    exact (ihs k).bind fun _ => ihr k

end DnclTrace.Run

namespace DnclTrace

open Run

/-- The trace `t` is what a run cut at a smaller budget shows of the trace `t'` of the same program
under a larger one: its snapshots begin those of `t'`, and so do its diagnostics once
its last budget report, if any, is set aside; a completed `t` is `t'` itself; and a
cut-short `t'` was cut short under the smaller budget too. -/
structure Trace.IsPrefix (t t' : Trace) : Prop where
  snapshots : t.snapshots.toList <+: t'.snapshots.toList
  diagnostics : ∃ ds, ds <+: t'.diagnostics ∧
    (t.diagnostics = ds ∨ ∃ d, d.kind = .stepBudgetExhausted ∧ t.diagnostics = ds ++ [d])
  completed : t.truncated = false → t = t'
  truncated : t'.truncated = true → t.truncated = true

theorem Trace.IsPrefix.refl (t : Trace) : t.IsPrefix t :=
  ⟨List.prefix_refl _, ⟨_, List.prefix_refl _, .inl rfl⟩, fun _ => rfl, id⟩

/-- A run cut short on the smaller budget at `m`, against any trace the larger run makes
from a machine extending `m`. -/
theorem Trace.isPrefix_of_cut {m m' : Machine} (ext : Extends m m') {d : Diagnostic}
    (hd : d.kind = .stepBudgetExhausted) {t' : Trace}
    (hs : m'.snapshots.toList <+: t'.snapshots.toList)
    (hds : m'.diagnostics.toList <+: t'.diagnostics) :
    ({ m with diagnostics := m.diagnostics.push d } : Machine).trace true |>.IsPrefix t' := by
  refine ⟨ext.snapshots.trans hs, ⟨m.diagnostics.toList, ext.diagnostics.trans hds,
    .inr ⟨d, hd, by simp [Machine.trace]⟩⟩, nofun, fun _ => rfl⟩

variable {p : ParsedProgram} {depth : Nat} {cfg cfg' : RunConfig}

/-- Under a smaller budget a program's run shows a prefix of what a larger one shows,
and it fails exactly where the larger one fails. -/
theorem ParsedProgram.execute_budget (hle : cfg.maxSteps ≤ cfg'.maxSteps)
    (hpol : cfg.policy = cfg'.policy) :
    (∀ t', p.execute depth cfg' = .ok t' → ∃ t, p.execute depth cfg = .ok t ∧ t.IsPrefix t') ∧
    (∀ e, p.execute depth cfg = .error e → p.execute depth cfg' = .error e) := by
  have agree := ((block_lockstep hle hpol (cfg.maxSteps.toNat + 1) _ (Nat.lt_succ_self _)).1
    (depth + 2) p.stmts 0).agree p.start (Nat.zero_le _) (Nat.zero_le _)
  change Agree _ 0 (p.runStmts depth cfg) (p.runStmts depth cfg') at agree
  unfold ParsedProgram.execute ParsedProgram.outcome
  rcases hs : p.runStmts depth cfg with ⟨r, m⟩
  rcases hb : p.runStmts depth cfg' with ⟨r', m'⟩
  rw [hs, hb] at agree
  rcases agree with ⟨same, -⟩ | ⟨stopped, ext⟩
  · -- both runs ended alike: the same trace, or two budget reports at the same point
    obtain ⟨rfl, rfl⟩ := Prod.mk.inj same
    cases r' with
    | ok u => exact ⟨fun t' h => ⟨t', h, .refl t'⟩, fun _ h => h⟩
    | error e =>
      cases e with
      | budget =>
        refine ⟨fun t' h => ⟨_, rfl, ?_⟩, fun _ h => (nomatch h)⟩
        cases h
        exact Trace.isPrefix_of_cut (.refl m') rfl (by simp [Machine.trace])
          (by simp [Machine.trace])
      | failed d => exact ⟨fun _ h => (nomatch h), fun _ h => h⟩
      | fault f => exact ⟨fun _ h => (nomatch h), fun _ h => h⟩
  · -- the smaller run was cut short; the larger one completed, was cut later, or failed
    simp only at stopped
    subst stopped
    refine ⟨fun t' h => ⟨_, rfl, ?_⟩, fun _ h => (nomatch h)⟩
    cases r' with
    | ok u =>
      cases h
      exact Trace.isPrefix_of_cut ext rfl (by simp [Machine.trace]) (by simp [Machine.trace])
    | error e =>
      cases e with
      | budget =>
        cases h
        exact Trace.isPrefix_of_cut ext rfl (by simp [Machine.trace]) (by simp [Machine.trace])
      | failed d => cases h
      | fault f => cases h

/-- Whatever a program shows under a budget, a smaller budget shows a prefix of, the
same trace once it completes; and a compilation that fails under a budget fails alike
under every larger one. -/
theorem compile_budget_monotone {source : String} {policy : Policy} {maxSteps maxSteps' : Int}
    (hle : maxSteps ≤ maxSteps') :
    (∀ t', compile depth source maxSteps' policy = .ok t' →
      ∃ t, compile depth source maxSteps policy = .ok t ∧ t.IsPrefix t') ∧
    (∀ e, compile depth source maxSteps policy = .error e →
      compile depth source maxSteps' policy = .error e) := by
  unfold compile
  cases ParsedProgram.read (depth + 1) source policy with
  | error stop =>
    cases stop with
    | rejected d => exact ⟨fun _ h => (nomatch h), fun _ h => h⟩
    | fault f => exact ⟨fun _ h => (nomatch h), fun _ h => h⟩
  | ok p =>
    obtain ⟨shown, failed⟩ :=
      @ParsedProgram.execute_budget p (depth + 1) ⟨maxSteps, policy⟩ ⟨maxSteps', policy⟩ hle rfl
    dsimp only
    by_cases hw : callLimit < depth + 2 + Stmt.walkCalls p.stmts
    · -- nested too deep to count, under any budget
      rw [if_pos hw, if_pos hw]
      exact ⟨fun _ h => (nomatch h), fun _ h => h⟩
    rw [if_neg hw, if_neg hw]
    refine ⟨fun t' h => ?_, fun e h => ?_⟩
    · -- the larger run returned a trace, so the smaller one did too
      rcases hx : p.execute (depth + 1) ⟨maxSteps', policy⟩ with e' | t''
      · rw [hx] at h
        cases e' <;> cases h
      · rw [hx] at h
        cases h
        obtain ⟨t, ht, pre⟩ := shown t' hx
        exact ⟨t, by rw [ht]; rfl, pre⟩
    · -- the smaller run failed, and the larger one fails alike
      rcases hx : p.execute (depth + 1) ⟨maxSteps, policy⟩ with e' | t
      · rw [hx] at h
        rw [failed e' hx]
        exact h
      · rw [hx] at h
        cases h

/-- Two assignments, under budgets of one step and of ten. -/
theorem compile_budget_monotone_two_assignments :
    (1 : Int) ≤ 10 ∧
    ((∀ t', compile 6 "x ← 1\ny ← 2" 10 .lenient = .ok t' →
      ∃ t, compile 6 "x ← 1\ny ← 2" 1 .lenient = .ok t ∧ t.IsPrefix t') ∧
    (∀ e, compile 6 "x ← 1\ny ← 2" 1 .lenient = .error e →
      compile 6 "x ← 1\ny ← 2" 10 .lenient = .error e)) :=
  ⟨by decide, compile_budget_monotone (by decide)⟩

end DnclTrace
