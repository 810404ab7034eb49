import DnclTrace.Proofs.Run.Growth
import DnclTrace.Proofs.Tree.Policy

/-!
# Runs under the strict and the lenient policy

A run reads its policy in two places. An evaluation error stops a strict run and gives
the value `0` and a diagnostic in a lenient one. A statement's absorbed problem (an
undeclared array, a write outside an array) stops a strict run and is noted by a lenient
one. Otherwise the two runs do the same. So two runs of one program under the two
policies go in lock-step (`Shadows`): they end alike, the strict run noting nothing; or
the strict run fails at a line where the lenient run notes a diagnostic for the same
problem (`Absorbs`), and the lenient run goes on from the machine where the strict one
stopped.

The relation is built like the lock-step of two budgets: one rule per combinator
(`Shadows.bind`, `Shadows.cond`), one lemma per primitive (`evalAt_shadows`,
`absorb_shadows`), the loops by induction on the iterations left, and every block by the
run's own recursion (`block_shadows`).

Main statement: `compile_policies`. A program that compiles strictly compiles to the
same trace leniently. A lenient trace whose only diagnostics are budget reports is the
strict trace too. Where the strict compilation fails with a diagnostic, the lenient one
fails as well, or gives a trace whose first diagnostic is that report of reading or
stands for that failure of the run. Up to the failure the two runs record the same
snapshots.
-/

namespace DnclTrace.Run

/-- The lenient diagnostic `d'` stands for the strict failure `d`: at the same line, the
failure reported as an evaluation failure, the diagnostic naming an undeclared array, an
index out of range or an evaluation failure. -/
def Absorbs (d d' : Diagnostic) : Prop :=
  d.kind = .evaluationFailure ∧ d'.line = d.line ∧
    (d'.kind = .undeclaredArray ∨ d'.kind = .indexOutOfRange ∨ d'.kind = .evaluationFailure)

/-- How the strict and the lenient run of a computation end, from the machine `m`: the
strict run notes nothing; and the two end alike, or the strict run failed where the
lenient run noted a diagnostic standing for the failure, first after those of `m`, and
went on from the machine where the strict run stopped. -/
def Shadow {α : Type} (m : Machine) (strict lenient : Except Halt α × Machine) : Prop :=
  strict.2.diagnostics = m.diagnostics ∧
    (lenient = strict ∨ ∃ d, strict.1 = .error (.failed d) ∧ Extends strict.2 lenient.2 ∧
      ∃ d' rest, lenient.2.diagnostics.toList = m.diagnostics.toList ++ d' :: rest ∧ Absorbs d d')

/-- Runs of `x`, strict, and of `y`, lenient, go in lock-step from every machine; the
lenient run only extends its machine. -/
structure Shadows {α : Type} (x y : Run α) : Prop where
  agree : ∀ m, Shadow m (x.run.run m) (y.run.run m)
  grows : Grows y

section Rules

variable {α β : Type}

theorem Shadows.bind {x y : Run α} {f g : α → Run β} (hx : Shadows x y)
    (hf : ∀ a, Shadows (f a) (g a)) : Shadows (x >>= f) (y >>= g) := by
  refine ⟨fun m => ?_, hx.grows.bind fun a => (hf a).grows⟩
  have first := hx.agree m
  rw [run_bind x f]
  rcases hr : x.run.run m with ⟨r, m₁⟩
  rw [hr] at first
  obtain ⟨quiet, same | ⟨d, hd, ext, d', rest, hds, habs⟩⟩ := first
  · rw [run_bind y g, same]
    cases r with
    | ok a =>
      obtain ⟨quiet', after⟩ := (hf a).agree m₁
      refine ⟨quiet'.trans quiet, ?_⟩
      rcases after with same' | ⟨d, hd, ext, d', rest, hds, habs⟩
      · exact .inl same'
      · exact .inr ⟨d, hd, ext, d', rest, by rw [hds, quiet], habs⟩
    | error e => exact ⟨quiet, .inl rfl⟩
  · -- the strict run failed; the lenient one goes on and only extends its machine
    simp only at hd
    subst hd
    have later := Grows.bind_extends (fun a => (hf a).grows) (Extends.refl (y.run.run m).2)
    obtain ⟨more, hmore⟩ := later.diagnostics
    exact ⟨quiet, .inr ⟨d, rfl, ext.trans later, d', rest ++ more, by rw [← hmore, hds]; simp, habs⟩⟩

/-- A computation that reads no policy and notes nothing goes in lock-step with itself. -/
theorem Shadows.same {x : Run α} (quiet : ∀ m, (x.run.run m).2.diagnostics = m.diagnostics)
    (grows : Grows x) : Shadows x x :=
  ⟨fun m => ⟨quiet m, .inl rfl⟩, grows⟩

theorem Shadows.ret (a : α) : Shadows (pure a : Run α) (pure a) :=
  .same (fun _ => rfl) (grows_pure a)

theorem Shadows.halt (e : Halt) : Shadows (throw e : Run α) (throw e) :=
  .same (fun _ => rfl) (grows_throw e)

theorem Shadows.cond {c : Prop} [Decidable c] {x x' y y' : Run α} (hx : c → Shadows x x')
    (hy : ¬c → Shadows y y') : Shadows (if c then x else y) (if c then x' else y') := by
  by_cases h : c
  · rw [if_pos h, if_pos h]; exact hx h
  · rw [if_neg h, if_neg h]; exact hy h

theorem get_shadows : Shadows (get : Run Machine) get :=
  .same (fun _ => rfl) fun m => Extends.refl m

theorem orFault_shadows (r : Except Fault α) : Shadows (orFault r) (orFault r) := by
  cases r with
  | ok a => exact .ret a
  | error f => exact .halt _

theorem textOf_shadows (v : Value) : Shadows (textOf v) (textOf v) := orFault_shadows _

theorem record_shadows (line : Nat) (text : String) :
    Shadows (record line text) (record line text) :=
  .same (fun _ => rfl) (grows_record line text)

theorem setEnv_shadows (f : Env → Env) : Shadows (setEnv f) (setEnv f) :=
  .same (fun _ => rfl) (grows_setEnv f)

theorem shadows_mapM {γ : Type} {f g : γ → Run α} (hf : ∀ c, Shadows (f c) (g c)) :
    ∀ cs : List γ, Shadows (cs.mapM f) (cs.mapM g)
  | [] => .ret []
  | c :: cs => by
    rw [List.mapM_cons, List.mapM_cons]
    exact (hf c).bind fun _ => (shadows_mapM hf cs).bind fun _ => .ret _

end Rules

section Primitives

/-! The two configurations share the budget `b`; one is strict, the other lenient. -/

variable (b : Int)

/-- A step reads the budget only. -/
theorem tick_shadows (line : Nat) : Shadows (tick ⟨b, .strict⟩ line) (tick ⟨b, .lenient⟩ line) :=
  .same (fun m => by rw [tick_run]; split <;> rfl) (grows_tick _ line)

theorem beginIteration_shadows (line : Nat) :
    Shadows (beginIteration ⟨b, .strict⟩ line) (beginIteration ⟨b, .lenient⟩ line) :=
  (tick_shadows b line).bind fun _ => .same (fun _ => rfl)
    (grows_modify fun _ => ⟨List.prefix_refl _, List.prefix_refl _, Nat.le_refl _⟩)

/-- An evaluation error stops the strict run at the line; the lenient run takes `0`
and notes the error at the same line. -/
theorem evalAt_shadows (depth : Nat) (e : SourceExpr) (line : Nat) :
    Shadows (evalAt ⟨b, .strict⟩ depth e line) (evalAt ⟨b, .lenient⟩ depth e line) := by
  refine ⟨fun m => ?_, (quiet_evalAt _ depth e line).grows⟩
  rw [evalAt_run, evalAt_run]
  rcases hv : e.evalStrict (depth + 2) m.env with stop | v
  · cases stop with
    | failed err =>
      have hs : e.evaluate (depth + 2) .strict m.env line = .error (.failed err) := by
        simp only [SourceExpr.evaluate, hv]
        rfl
      have hl : e.evaluate (depth + 2) .lenient m.env line =
          .ok (.int 0, [e.failureDiagnostic line err]) := by
        simp only [SourceExpr.evaluate, hv]
        rfl
      rw [hs, hl]
      exact ⟨rfl, .inr ⟨_, rfl, ⟨List.prefix_refl _, by simp, Nat.le_refl _⟩,
        e.failureDiagnostic line err, [], by simp, rfl, rfl, .inr (.inr rfl)⟩⟩
    | fault f =>
      have hf : ∀ policy, e.evaluate (depth + 2) policy m.env line = .error (.fault f) := by
        intro policy
        simp only [SourceExpr.evaluate, hv]
        rfl
      rw [hf, hf]
      exact ⟨rfl, .inl rfl⟩
  · have hok : ∀ policy, e.evaluate (depth + 2) policy m.env line = .ok (v, []) := by
      intro policy
      simp only [SourceExpr.evaluate, hv]
      rfl
    rw [hok, hok]
    exact ⟨by simp, .inl rfl⟩

theorem run_absorb_strict (line : Nat) (kind : DiagnosticKind) (message : String) (m : Machine) :
    (absorb ⟨b, .strict⟩ line kind message).run.run m =
      (.error (.failed ⟨line, .evaluationFailure, message⟩), m) := rfl

theorem run_absorb_lenient (line : Nat) (kind : DiagnosticKind) (message : String) (m : Machine) :
    (absorb ⟨b, .lenient⟩ line kind message).run.run m =
      (.ok (), { m with diagnostics := m.diagnostics.push ⟨line, kind, message⟩ }) := rfl

/-- An absorbed problem stops the strict run at the line; the lenient run notes it. -/
theorem absorb_shadows (line : Nat) {kind : DiagnosticKind}
    (hk : kind = .undeclaredArray ∨ kind = .indexOutOfRange) (message : String) :
    Shadows (absorb ⟨b, .strict⟩ line kind message) (absorb ⟨b, .lenient⟩ line kind message) := by
  refine ⟨fun m => ?_, ?_⟩
  · rw [run_absorb_strict, run_absorb_lenient]
    refine ⟨rfl, .inr ⟨_, rfl, ⟨List.prefix_refl _, by simp, Nat.le_refl _⟩,
      ⟨line, kind, message⟩, [], by simp, rfl, rfl, ?_⟩⟩
    rcases hk with hk | hk
    · exact .inl hk
    · exact .inr (.inl hk)
  · exact (quiet_absorb _ line kind (by rcases hk with hk | hk <;> rw [hk] <;> nofun) message).grows

theorem arraysDeclared_shadows (depth line : Nat) (es : List SourceExpr) :
    Shadows (arraysDeclared ⟨b, .strict⟩ depth line es)
      (arraysDeclared ⟨b, .lenient⟩ depth line es) := by
  unfold arraysDeclared
  refine get_shadows.bind fun _ => (orFault_shadows _).bind fun found => ?_
  cases found with
  | some n =>
    dsimp only
    exact (absorb_shadows b line (.inl rfl) _).bind fun _ => .ret false
  | none => exact .ret true

end Primitives

section Statements

variable (b : Int) (depth line : Nat) (target : String)

theorem assign_shadows (value : SourceExpr) :
    Shadows (assign ⟨b, .strict⟩ depth line target value)
      (assign ⟨b, .lenient⟩ depth line target value) := by
  unfold assign
  refine (arraysDeclared_shadows b depth line _).bind fun _ =>
    .cond (fun _ => .ret ()) fun _ => ?_
  exact (evalAt_shadows b depth value line).bind fun v => (setEnv_shadows _).bind fun _ =>
    (textOf_shadows v).bind fun _ => record_shadows _ _

theorem declare_shadows (elements : List SourceExpr) :
    Shadows (declare ⟨b, .strict⟩ depth line target elements)
      (declare ⟨b, .lenient⟩ depth line target elements) := by
  unfold declare
  refine (arraysDeclared_shadows b depth line _).bind fun _ =>
    .cond (fun _ => .ret ()) fun _ => ?_
  refine (shadows_mapM (fun e => evalAt_shadows b (depth + 1) e line) elements).bind fun vs => ?_
  exact (setEnv_shadows _).bind fun _ => (shadows_mapM textOf_shadows vs).bind fun _ =>
    record_shadows _ _

theorem store_shadows (index value : SourceExpr) :
    Shadows (store ⟨b, .strict⟩ depth line target index value)
      (store ⟨b, .lenient⟩ depth line target index value) := by
  unfold store
  refine get_shadows.bind fun _ => .cond (fun _ => ?_) fun _ => ?_
  · exact (absorb_shadows b line (.inl rfl) _).bind fun _ => .ret ()
  refine (arraysDeclared_shadows b depth line _).bind fun _ =>
    .cond (fun _ => .ret ()) fun _ => ?_
  refine (evalAt_shadows b depth index line).bind fun i =>
    (evalAt_shadows b depth value line).bind fun v => get_shadows.bind fun mg => ?_
  -- the write either falls outside the array, absorbed, or lands and is recorded
  cases mg.env.writeIndex target i v with
  | none => exact (textOf_shadows i).bind fun _ => absorb_shadows b line (.inr rfl) _
  | some env =>
    exact (setEnv_shadows _).bind fun _ => (textOf_shadows i).bind fun _ =>
      (textOf_shadows v).bind fun _ => record_shadows _ _

theorem output_shadows (parts : List OutputPart) :
    Shadows (output ⟨b, .strict⟩ depth line parts) (output ⟨b, .lenient⟩ depth line parts) := by
  unfold output
  refine (arraysDeclared_shadows b depth line _).bind fun _ =>
    .cond (fun _ => .ret ()) fun _ => ?_
  refine (shadows_mapM (fun p => ?_) parts).bind fun _ => ?_
  · cases p with
    | literal t => exact .ret t
    | expr e => exact (evalAt_shadows b depth e line).bind textOf_shadows
  exact (setEnv_shadows _).bind fun _ => record_shadows _ _

/-- Every statement without a body goes in lock-step under the two policies. -/
theorem simple_shadows (c : Classified) :
    Shadows (simple ⟨b, .strict⟩ depth c) (simple ⟨b, .lenient⟩ depth c) := by
  obtain ⟨line, text, form⟩ := c
  cases form with
  | assign t v => exact assign_shadows b depth line t v
  | arrayDeclare t es => exact declare_shadows b depth line t es
  | indexAssign t i v => exact store_shadows b depth line t i v
  | output ps => exact output_shadows b depth line ps
  | _ => exact .ret ()

end Statements

section Loops

variable (b : Int) {body body' : Run Unit} (hbody : Shadows body body') (line : Nat)
include hbody

theorem counted_shadows (name : String) (stop step : Value) :
    ∀ left counter, Shadows (counted ⟨b, .strict⟩ body left line name stop step counter)
      (counted ⟨b, .lenient⟩ body' left line name stop step counter) := by
  intro left
  induction left with
  | zero =>
    intro counter
    rw [counted, counted]
    exact .halt _
  | succ left ih =>
    intro counter
    rw [counted, counted]
    refine .cond (fun _ => ?_) fun _ => .ret ()
    refine (beginIteration_shadows b line).bind fun _ => (setEnv_shadows _).bind fun _ =>
      (textOf_shadows counter).bind fun _ => (record_shadows _ _).bind fun _ =>
        hbody.bind fun _ => ?_
    split
    · exact ih _
    · exact .halt _

theorem repeated_shadows (depth : Nat) (cond : SourceExpr) :
    ∀ left, Shadows (repeated ⟨b, .strict⟩ body left depth line cond)
      (repeated ⟨b, .lenient⟩ body' left depth line cond) := by
  intro left
  induction left with
  | zero =>
    rw [repeated, repeated]
    exact .halt _
  | succ left ih =>
    rw [repeated, repeated]
    refine (evalAt_shadows b depth cond line).bind fun _ => .cond (fun _ => ?_) fun _ => .ret ()
    exact (beginIteration_shadows b line).bind fun _ => (record_shadows _ _).bind fun _ =>
      hbody.bind fun _ => ih

end Loops

/-- Every block and every statement goes in lock-step under the two policies, by
induction along the run's own recursion. -/
theorem block_shadows (b : Int) (bound : Nat) :
    (∀ depth ss, Shadows (block ⟨b, .strict⟩ bound depth ss) (block ⟨b, .lenient⟩ bound depth ss)) ∧
    (∀ depth s, Shadows (stmt ⟨b, .strict⟩ bound depth s) (stmt ⟨b, .lenient⟩ bound depth s)) := by
  refine block.mutual_induct ⟨b, .strict⟩ bound _ _ ?single ?inert ?loop ?inertLoop ?branch
    ?inertBranch ?nil ?cons
  case single =>
    intro depth c hx
    rw [stmt, stmt, if_pos hx, if_pos hx]
    exact (tick_shadows b _).bind fun _ => simple_shadows b depth c
  case inert =>
    intro depth c hx
    rw [stmt, stmt, if_neg hx, if_neg hx]
    exact .ret ()
  case loop =>
    intro depth line text form body hx ih
    rw [stmt.eq_def, stmt.eq_def]
    dsimp only
    rw [if_pos hx, if_pos hx]
    refine (tick_shadows b line).bind fun _ => ?_
    cases form with
    | forLoop name a c d desc =>
      exact (evalAt_shadows b _ a line).bind fun start => (evalAt_shadows b _ c line).bind
        fun stop => (evalAt_shadows b _ d line).bind fun step =>
          counted_shadows b ih line name stop _ bound start
    | whileLoop cond => exact repeated_shadows b ih line depth cond bound
    | _ => exact .ret ()
  case inertLoop =>
    intro depth line text form body hx _
    cases form <;> first | exact absurd rfl hx | exact .ret ()
  case branch =>
    intro depth line text body orElse cond ihBody ihElse
    rw [stmt.eq_def, stmt.eq_def]
    dsimp only
    refine (tick_shadows b line).bind fun _ => (evalAt_shadows b depth cond line).bind
      fun v => (record_shadows _ _).bind fun _ => .cond (fun _ => ihBody) fun _ => ?_
    cases orElse with
    | some eb => exact ihElse
    | none => exact .ret ()
  case inertBranch =>
    intro depth line text form body orElse hc
    cases form <;> first | exact absurd rfl (hc _) | exact .ret ()
  case nil =>
    intro depth
    exact .ret ()
  case cons =>
    intro depth s rest ihs ihr
    rw [block, block]
    exact ihs.bind fun _ => ihr

end DnclTrace.Run

namespace DnclTrace

open Run

/-- The runs of a parsed program under the two policies go in lock-step from its start. -/
theorem ParsedProgram.runStmts_shadow (p : ParsedProgram) (depth : Nat) (b : Int) :
    Shadow p.start (p.runStmts depth ⟨b, .strict⟩) (p.runStmts depth ⟨b, .lenient⟩) :=
  ((block_shadows b (b.toNat + 1)).1 (depth + 2) p.stmts).agree p.start

/-- A program runs alike under the two policies; or its strict run fails where the
lenient run notes a diagnostic standing for the failure, the first after those of
reading, and goes on. Up to there both record the same snapshots. -/
theorem ParsedProgram.execute_policies (p : ParsedProgram) (depth : Nat) (b : Int) :
    (p.execute depth ⟨b, .lenient⟩ = p.execute depth ⟨b, .strict⟩ ∨
      ∃ d, p.execute depth ⟨b, .strict⟩ = .error (.failed d) ∧
        ((∃ e, p.execute depth ⟨b, .lenient⟩ = .error e) ∨
          ∃ t d' rest, p.execute depth ⟨b, .lenient⟩ = .ok t ∧
            t.diagnostics = p.diagnostics ++ d' :: rest ∧ Absorbs d d')) ∧
    (p.outcome depth ⟨b, .strict⟩).2.toList <+: (p.outcome depth ⟨b, .lenient⟩).2.toList := by
  have sh := p.runStmts_shadow depth b
  unfold ParsedProgram.execute ParsedProgram.outcome
  rcases hs : p.runStmts depth ⟨b, .strict⟩ with ⟨r, m⟩
  rcases hl : p.runStmts depth ⟨b, .lenient⟩ with ⟨r', m'⟩
  rw [hs, hl] at sh
  obtain ⟨-, same | ⟨d, hd, ext, d', rest, hds, habs⟩⟩ := sh
  · -- both runs ended alike, so their outcomes are one
    obtain ⟨rfl, rfl⟩ := Prod.mk.inj same
    exact ⟨.inl rfl, List.prefix_refl _⟩
  · -- the strict run failed there; the lenient one went on from where it stopped
    simp only at hd
    subst hd
    simp only [ParsedProgram.start, List.toList_toArray] at hds
    refine ⟨.inr ⟨d, rfl, ?_⟩, ?_⟩
    · cases r' with
      | ok u => exact .inr ⟨_, d', rest, rfl, by simp [Machine.trace, hds], habs⟩
      | error e =>
        cases e with
        | budget =>
          exact .inr ⟨_, d', rest ++ [⟨m'.currentLine, .stepBudgetExhausted, budgetMessage b⟩], rfl,
            by simp [Machine.trace, hds], habs⟩
        | failed d'' => exact .inl ⟨_, rfl⟩
        | fault f => exact .inl ⟨_, rfl⟩
    · cases r' with
      | ok u => exact ext.snapshots.trans (by simp [Array.toList_push])
      | error e => cases e <;> exact ext.snapshots

/-- A lenient trace keeps the diagnostics of reading first. -/
theorem ParsedProgram.diagnostics_prefix_execute {p : ParsedProgram} {depth : Nat} {b : Int}
    {t : Trace} (h : p.execute depth ⟨b, .lenient⟩ = .ok t) : p.diagnostics <+: t.diagnostics := by
  have grows := ((block_shadows b (b.toNat + 1)).1 (depth + 2) p.stmts).grows p.start
  change Extends p.start (p.runStmts depth ⟨b, .lenient⟩).2 at grows
  unfold ParsedProgram.execute ParsedProgram.outcome at h
  rcases hl : p.runStmts depth ⟨b, .lenient⟩ with ⟨r, m⟩
  rw [hl] at h grows
  have pre : p.diagnostics <+: m.diagnostics.toList := by
    simpa [ParsedProgram.start] using grows.diagnostics
  cases r with
  | ok u =>
    cases h
    simpa [Machine.trace] using pre
  | error e =>
    cases e with
    | budget =>
      cases h
      exact pre.trans (by simp [Machine.trace])
    | failed d => cases h
    | fault f => cases h

section Compile

variable {depth : Nat} {source : String} {maxSteps : Int} {policy : Policy}

/-- A program compiles to a trace exactly when it is read, its statements can be counted
and its run gives that trace. -/
theorem compile_ok_iff {t : Trace} :
    compile depth source maxSteps policy = .ok t ↔
      ∃ p, ParsedProgram.read (depth + 1) source policy = .ok p ∧
        ¬callLimit < depth + 2 + Stmt.walkCalls p.stmts ∧
        p.execute (depth + 1) ⟨maxSteps, policy⟩ = .ok t := by
  unfold compile
  rcases ParsedProgram.read (depth + 1) source policy with stop | p
  · cases stop <;> simp [throw, throwThe, MonadExceptOf.throw]
  · dsimp only
    by_cases hw : callLimit < depth + 2 + Stmt.walkCalls p.stmts
    · simp [hw, Nat.not_le.2 hw, throw, throwThe, MonadExceptOf.throw]
    rcases hx : p.execute (depth + 1) ⟨maxSteps, policy⟩ with e | t'
    · cases e <;> simp [hw, Nat.not_lt.1 hw, hx, throw, throwThe, MonadExceptOf.throw]
    · simp [hw, Nat.not_lt.1 hw, hx, pure, Except.pure]

/-- A compilation fails with a diagnostic exactly when reading rejects a line with it, or
the run of the program read fails with it. -/
theorem compile_failed_iff {d : Diagnostic} :
    compile depth source maxSteps policy = .error (some d) ↔
      ParsedProgram.read (depth + 1) source policy = .error (.rejected d) ∨
        ∃ p, ParsedProgram.read (depth + 1) source policy = .ok p ∧
          ¬callLimit < depth + 2 + Stmt.walkCalls p.stmts ∧
          p.execute (depth + 1) ⟨maxSteps, policy⟩ = .error (.failed d) := by
  unfold compile
  rcases ParsedProgram.read (depth + 1) source policy with stop | p
  · cases stop <;> simp [throw, throwThe, MonadExceptOf.throw]
  · dsimp only
    by_cases hw : callLimit < depth + 2 + Stmt.walkCalls p.stmts
    · simp [hw, Nat.not_le.2 hw, throw, throwThe, MonadExceptOf.throw]
    rcases hx : p.execute (depth + 1) ⟨maxSteps, policy⟩ with e | t'
    · cases e <;> simp [hw, Nat.not_lt.1 hw, hx, throw, throwThe, MonadExceptOf.throw]
    · simp [hw, Nat.not_lt.1 hw, hx, pure, Except.pure]

theorem compile_fails_of_read {stop : ReadStop}
    (h : ParsedProgram.read (depth + 1) source policy = .error stop) :
    ∃ e, compile depth source maxSteps policy = .error e := by
  unfold compile
  rw [h]
  cases stop <;> exact ⟨_, rfl⟩

theorem compile_fails_of_execute {p : ParsedProgram} {e : Halt}
    (h : ParsedProgram.read (depth + 1) source policy = .ok p)
    (hx : p.execute (depth + 1) ⟨maxSteps, policy⟩ = .error e) :
    ∃ e, compile depth source maxSteps policy = .error e := by
  unfold compile
  rw [h]
  dsimp only
  by_cases hw : callLimit < depth + 2 + Stmt.walkCalls p.stmts
  · rw [if_pos hw]
    exact ⟨_, rfl⟩
  rw [if_neg hw, hx]
  cases e <;> exact ⟨_, rfl⟩

/-- What compiles strictly compiles to the same trace leniently. -/
theorem compile_lenient_of_strict {t : Trace}
    (h : compile depth source maxSteps .strict = .ok t) :
    compile depth source maxSteps .lenient = .ok t := by
  obtain ⟨p, hr, hw, hx⟩ := compile_ok_iff.1 h
  obtain ⟨hl, -⟩ := (ParsedProgram.read_policies (depth + 1) source).of_strict_ok hr
  refine compile_ok_iff.2 ⟨p, hl, hw, ?_⟩
  rcases (p.execute_policies (depth + 1) maxSteps).1 with same | ⟨d, hfail, -⟩
  · rw [same]
    exact hx
  · rw [hfail] at hx
    cases hx

/-- A lenient trace whose only diagnostics are budget reports is the strict trace. -/
theorem compile_strict_of_lenient {t : Trace}
    (h : compile depth source maxSteps .lenient = .ok t)
    (hb : ∀ d ∈ t.diagnostics, d.kind = .stepBudgetExhausted) :
    compile depth source maxSteps .strict = .ok t := by
  obtain ⟨p, hr, hw, hx⟩ := compile_ok_iff.1 h
  rcases ParsedProgram.read_policies (depth + 1) source with
    ⟨hsame, hquiet⟩ | ⟨d, hd, -, ⟨p', rest, hl, hp⟩ | ⟨f, hl⟩⟩
  · have hrs := hsame.symm.trans hr
    refine compile_ok_iff.2 ⟨p, hrs, hw, ?_⟩
    rcases (p.execute_policies (depth + 1) maxSteps).1 with same | ⟨d, hfail, hlen⟩
    · rw [← same]
      exact hx
    · -- the lenient trace would hold a diagnostic standing for the failure
      exfalso
      rcases hlen with ⟨e, he⟩ | ⟨t', d', rest, ht', hds, habs⟩
      · rw [he] at hx
        cases hx
      · rw [ht'] at hx
        cases hx
        have hk := hb d' (by simp [hds, hquiet p hrs])
        rcases habs.2.2 with h | h | h <;> rw [h] at hk <;> cases hk
  · -- the lenient trace keeps the report of reading
    exfalso
    rw [hl] at hr
    cases hr
    have pre := ParsedProgram.diagnostics_prefix_execute hx
    rw [hp] at pre
    have hk := hb d (pre.subset List.mem_cons_self)
    rcases hd with h | h <;> rw [h] at hk <;> cases hk
  · -- the lenient reading did not fault: it read the program
    rw [hl] at hr
    cases hr

/-- Where the strict compilation fails with a diagnostic, the lenient one fails as well,
or gives a trace whose first diagnostic is that report of reading, or stands for that
failure of the run at its line. -/
theorem compile_lenient_of_failed {d : Diagnostic}
    (h : compile depth source maxSteps .strict = .error (some d)) :
    (∃ e, compile depth source maxSteps .lenient = .error e) ∨
      ∃ t d' rest, compile depth source maxSteps .lenient = .ok t ∧ t.diagnostics = d' :: rest ∧
        (Reading.Reported d ∧ d' = d ∨ Absorbs d d') := by
  have hread := ParsedProgram.read_policies (depth + 1) source
  rcases compile_failed_iff.1 h with hrej | ⟨p, hr, hw, hx⟩
  · -- reading rejected a line
    rcases hread with ⟨hsame, -⟩ | ⟨d₀, hd, hs, ⟨p, rest, hl, hp⟩ | ⟨f, hl⟩⟩
    · exact .inl (compile_fails_of_read (hsame.trans hrej))
    · rw [hs] at hrej
      simp only [Except.error.injEq, ReadStop.rejected.injEq] at hrej
      subst hrej
      by_cases hw : callLimit < depth + 2 + Stmt.walkCalls p.stmts
      · -- the lenient program is nested too deep to count
        exact .inl ⟨none, by unfold compile; rw [hl]; exact if_pos hw⟩
      rcases hx : p.execute (depth + 1) ⟨maxSteps, .lenient⟩ with e | t
      · exact .inl (compile_fails_of_execute hl hx)
      · obtain ⟨more, hmore⟩ := ParsedProgram.diagnostics_prefix_execute hx
        exact .inr ⟨t, d₀, rest ++ more, compile_ok_iff.2 ⟨p, hl, hw, hx⟩,
          by rw [← hmore, hp]; rfl, .inl ⟨hd, rfl⟩⟩
    · exact .inl (compile_fails_of_read hl)
  · -- the run failed
    obtain ⟨hrl, hnone⟩ := hread.of_strict_ok hr
    rcases (p.execute_policies (depth + 1) maxSteps).1 with same | ⟨d₀, hfail, hlen⟩
    · exact .inl (compile_fails_of_execute hrl (same.trans hx))
    · rw [hfail] at hx
      simp only [Except.error.injEq, Halt.failed.injEq] at hx
      subst hx
      rcases hlen with ⟨e, he⟩ | ⟨t, d', rest, ht, hds, habs⟩
      · exact .inl (compile_fails_of_execute hrl he)
      · exact .inr ⟨t, d', rest, compile_ok_iff.2 ⟨p, hrl, hw, ht⟩, by simp [hds, hnone], .inr habs⟩

/-- A program read strictly is read the same leniently, and its strict run records the
first snapshots of its lenient run. -/
theorem read_lenient_of_strict {p : ParsedProgram}
    (hp : ParsedProgram.read (depth + 1) source .strict = .ok p) :
    ParsedProgram.read (depth + 1) source .lenient = .ok p ∧
      (p.outcome (depth + 1) ⟨maxSteps, .strict⟩).2.toList <+:
        (p.outcome (depth + 1) ⟨maxSteps, .lenient⟩).2.toList :=
  ⟨((ParsedProgram.read_policies (depth + 1) source).of_strict_ok hp).1,
    (p.execute_policies (depth + 1) maxSteps).2⟩

end Compile

/-- A program compiles alike under the two policies up to its first problem. What
compiles strictly compiles to the same trace leniently; a lenient trace whose only
diagnostics are budget reports is the strict trace too; where the strict compilation
fails with a diagnostic, the lenient one fails as well, or gives a trace whose first
diagnostic is that report of reading, or stands for that failure of the run at its line.
A program read strictly is read the same leniently, and its strict run records the first
snapshots of its lenient run. -/
theorem compile_policies (depth : Nat) (source : String) (maxSteps : Int) :
    (∀ t, compile depth source maxSteps .strict = .ok t →
      compile depth source maxSteps .lenient = .ok t) ∧
    (∀ t, compile depth source maxSteps .lenient = .ok t →
      (∀ d ∈ t.diagnostics, d.kind = .stepBudgetExhausted) →
        compile depth source maxSteps .strict = .ok t) ∧
    (∀ d, compile depth source maxSteps .strict = .error (some d) →
      (∃ e, compile depth source maxSteps .lenient = .error e) ∨
        ∃ t d' rest, compile depth source maxSteps .lenient = .ok t ∧ t.diagnostics = d' :: rest ∧
          (Reading.Reported d ∧ d' = d ∨ Absorbs d d')) ∧
    (∀ p, ParsedProgram.read (depth + 1) source .strict = .ok p →
      ParsedProgram.read (depth + 1) source .lenient = .ok p ∧
        (p.outcome (depth + 1) ⟨maxSteps, .strict⟩).2.toList <+:
          (p.outcome (depth + 1) ⟨maxSteps, .lenient⟩).2.toList) :=
  ⟨fun _ => compile_lenient_of_strict, fun _ => compile_strict_of_lenient,
    fun _ => compile_lenient_of_failed, fun _ => read_lenient_of_strict⟩

end DnclTrace
