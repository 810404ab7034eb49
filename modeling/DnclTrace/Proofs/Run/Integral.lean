import DnclTrace.Proofs.Run.Growth
import DnclTrace.Proofs.Run.Outcome

/-!
# Programs that compute with integers

A program none of whose expressions holds a real numeral or a true division `/` keeps
its machine integral: every value in its variables and arrays is an integer, in the
state and in every snapshot recorded, so its trace shows integers only.

Every operator but `/` takes integers to integers (comparisons and logical operators
give `1` and `0`); an element read gives a stored integer or `0`; a failed evaluation
gives `0` under the lenient policy (`Expr.eval_isInt`, `SourceExpr.evaluate_isInt`).
The effects of the statements store only such values (`Env.Integral.setVar` and the
others), and a counted loop steps an integer counter by an integer step. The run is then
taken apart as in `block_sound`, one case for each kind of statement.

Main statement: `ParsedProgram.execute_keeps_integers`.
-/

namespace DnclTrace

/-- The tree computes with integers only: no real numeral and no true division. -/
def Expr.integerOnly : Expr → Bool
  | .num v => v.isInt
  | .var _ => true
  | .index _ p => p.integerOnly
  | .unary _ e => e.integerOnly
  | .binary op l r => op != .div && l.integerOnly && r.integerOnly

/-- A written expression computes with integers only; one without a tree computes
nothing. -/
def SourceExpr.integerOnly (e : SourceExpr) : Bool :=
  match e.tree with
  | .ok t => t.integerOnly
  | .error _ => true

/-- Every expression of a line computes with integers only. -/
def Form.integerOnly (f : Form) : Bool := f.operands.all SourceExpr.integerOnly

/-- Every expression of every statement of a program computes with integers only. -/
def ParsedProgram.integerOnly (p : ParsedProgram) : Bool :=
  (Stmt.walk p.stmts).all (·.head.form.integerOnly)

/-- Every value the environment holds, in a variable or in an array, is an integer. -/
structure Env.Integral (env : Env) : Prop where
  vars : ∀ x ∈ env.vars, x.2.isInt
  arrays : ∀ a ∈ env.arrays, ∀ v ∈ a.2, v.isInt

theorem mem_setEntry {α : Type} {k : String} {v : α} {es : List (String × α)} {e : String × α}
    (h : e ∈ setEntry k v es) : e = (k, v) ∨ e ∈ es := by
  induction es with
  | nil => simpa [setEntry] using h
  | cons e' rest ih =>
    obtain ⟨k', v'⟩ := e'
    by_cases hk : k' = k
    · simp only [setEntry, hk, if_true, List.mem_cons] at h
      exact h.imp_right (List.mem_cons_of_mem _)
    · simp only [setEntry, hk, if_false, List.mem_cons] at h
      rcases h with rfl | h
      · exact .inr (List.mem_cons_self ..)
      · exact (ih h).imp_right (List.mem_cons_of_mem _)

theorem mem_of_lookup {α : Type} {k : String} {v : α} {es : List (String × α)}
    (h : es.lookup k = some v) : (k, v) ∈ es := by
  induction es with
  | nil => simp at h
  | cons e rest ih =>
    obtain ⟨k', v'⟩ := e
    by_cases hk : k = k'
    · subst hk
      simp only [List.lookup_cons, beq_self_eq_true, Option.some.injEq] at h
      simp [h]
    · simp only [List.lookup_cons, beq_false_of_ne hk] at h
      exact List.mem_cons_of_mem _ (ih h)

namespace Env.Integral

variable {env : Env}

theorem empty : ({} : Env).Integral := ⟨nofun, nofun⟩

theorem setVar (h : env.Integral) (x : String) {v : Value} (hv : v.isInt) :
    (env.setVar x v).Integral := by
  refine ⟨fun e he => ?_, h.arrays⟩
  rcases mem_setEntry he with rfl | he
  · exact hv
  · exact h.vars e he

theorem declareArray (h : env.Integral) (a : String) {vs : List Value} (hvs : ∀ v ∈ vs, v.isInt) :
    (env.declareArray a vs).Integral := by
  refine ⟨h.vars, fun e he => ?_⟩
  rcases mem_setEntry he with rfl | he
  · exact hvs
  · exact h.arrays e he

theorem print (h : env.Integral) (text : String) : (env.print text).Integral := ⟨h.vars, h.arrays⟩

/-- An element read gives a stored integer, or the `0` of a missing element. -/
theorem readIndex (h : env.Integral) (a : String) (pos : Value) : (env.readIndex a pos).isInt := by
  unfold Env.readIndex
  rcases hl : env.arrays.lookup a with _ | vs
  · rfl
  · rcases hs : Env.slot? vs.length pos with _ | j <;> simp only [hs]
    · rfl
    · rw [List.getD_eq_getElem?_getD]
      rcases hj : vs[j]? with _ | v
      · rfl
      · exact h.arrays _ (mem_of_lookup hl) v (List.mem_of_getElem? hj)

/-- An element write of an integer keeps the environment integral. -/
theorem writeIndex (h : env.Integral) {a : String} {pos v : Value} {env' : Env} (hv : v.isInt)
    (hw : env.writeIndex a pos v = some env') : env'.Integral := by
  obtain ⟨vs, j, hl, -, rfl⟩ := Run.Env.writeIndex_some hw
  refine h.declareArray a fun u hu => ?_
  rcases List.mem_or_eq_of_mem_set hu with hu | rfl
  · exact h.arrays _ (mem_of_lookup hl) u hu
  · exact hv

end Env.Integral

/-! ## Evaluation -/

namespace Value

theorem applyUn_isInt {v : Value} (hv : v.isInt) (op : UnOp) : (applyUn op v).isInt := by
  cases v with
  | int n => cases op <;> rfl
  | real x => cases hv

theorem arith_isInt {fi : Int → Int → Int} {fr : Float → Float → Float} {a b v : Value}
    (ha : a.isInt) (hb : b.isInt) (h : arith fi fr a b = some v) : v.isInt := by
  cases a with
  | real _ => cases ha
  | int m =>
    cases b with
    | real _ => cases hb
    | int n => cases h; rfl

/-- Every operator but `/` gives an integer on integers, when it gives a value. -/
theorem applyBin_isInt {op : BinOp} {m n : Int} {v : Value} (hop : op ≠ .div)
    (h : applyBin op (.int m) (.int n) = .ok (some v)) : v.isInt := by
  cases op
  case div => exact absurd rfl hop
  case floorDiv =>
    simp only [applyBin, floorDivide] at h
    split at h <;> cases h
    rfl
  case mod =>
    simp only [applyBin, modulo] at h
    split at h <;> cases h
    rfl
  all_goals cases h; rfl

end Value

namespace Expr

variable {env : Env} {room : Nat} {v : Value}

/-! Each kind of node has a value only in one way: its leaf, the variable's value, an
element read, or its operator applied to the operands' values. -/

theorem eval_num_ok {w : Value} (h : (num w).eval env room = .ok v) : v = w := by
  unfold Expr.eval at h
  simp only [bind, Except.bind, pure, Except.pure] at h
  rcases hn : reach room nodeSteps with _ | _ <;> simp only [hn, reduceCtorEq, Except.ok.injEq] at h
  exact h.symm

theorem eval_var_ok {n : String} (h : (var n).eval env room = .ok v) : env.var? n = some v := by
  unfold Expr.eval at h
  simp only [bind, Except.bind, pure, Except.pure, throw, throwThe, MonadExceptOf.throw] at h
  rcases hn : reach room nodeSteps with _ | _ <;> simp only [hn, reduceCtorEq] at h
  rcases hv : env.var? n with _ | w <;> simp only [hv, Except.ok.injEq] at h
  · rcases he : reach room errorSteps with _ | _ <;> simp only [he, reduceCtorEq] at h
  · rw [h]

theorem eval_index_ok {n : String} {p : Expr} (h : (index n p).eval env room = .ok v) :
    ∃ i, v = env.readIndex n i := by
  unfold Expr.eval at h
  simp only [bind, Except.bind, pure, Except.pure] at h
  rcases hn : reach room nodeSteps with _ | _ <;> simp only [hn, reduceCtorEq] at h
  rcases hp : eval env (room - 2) p with _ | i <;> simp only [hp, reduceCtorEq] at h
  rcases hs : reach room (env.readSteps n i) with _ | _ <;>
    simp only [hs, reduceCtorEq, Except.ok.injEq] at h
  exact ⟨i, h.symm⟩

theorem eval_unary_ok {op : UnOp} {e : Expr} (h : (unary op e).eval env room = .ok v) :
    ∃ w, e.eval env (room - 2) = .ok w ∧ v = Value.applyUn op w := by
  unfold Expr.eval at h
  simp only [bind, Except.bind, pure, Except.pure] at h
  rcases hn : reach room nodeSteps with _ | _ <;> simp only [hn, reduceCtorEq] at h
  rcases he : eval env (room - 2) e with _ | w <;> simp only [he, reduceCtorEq] at h
  rcases hs : reach room op.steps with _ | _ <;> simp only [hs, reduceCtorEq, Except.ok.injEq] at h
  exact ⟨w, rfl, h.symm⟩

theorem eval_binary_ok {op : BinOp} {l r : Expr} (h : (binary op l r).eval env room = .ok v) :
    ∃ a b, l.eval env (room - 2) = .ok a ∧ r.eval env (room - 2) = .ok b ∧
      Value.applyBin op a b = .ok (some v) := by
  unfold Expr.eval at h
  simp only [bind, Except.bind, pure, Except.pure, throw, throwThe, MonadExceptOf.throw] at h
  rcases hn : reach room nodeSteps with _ | _ <;> simp only [hn, reduceCtorEq] at h
  rcases ha : eval env (room - 2) l with _ | a <;> simp only [ha, reduceCtorEq] at h
  rcases hb : eval env (room - 2) r with _ | b <;> simp only [hb, reduceCtorEq] at h
  rcases hs : reach room (op.steps b) with _ | _ <;> simp only [hs, reduceCtorEq] at h
  refine ⟨a, b, rfl, rfl, ?_⟩
  -- an operator without a value ends in an error, whatever the operands' texts
  rcases hab : Value.applyBin op a b with f | _ | w <;> simp only [hab, reduceCtorEq] at h
  · rcases h₁ : reach room a.textSteps with _ | _ <;> simp only [h₁, reduceCtorEq] at h
    rcases h₂ : a.text with _ | _ <;> simp only [h₂, reduceCtorEq] at h
    rcases h₃ : reach room b.textSteps with _ | _ <;> simp only [h₃, reduceCtorEq] at h
    rcases h₄ : b.text with _ | _ <;> simp only [h₄, reduceCtorEq] at h
    rcases h₅ : reach room errorSteps with _ | _ <;> simp only [h₅, reduceCtorEq] at h
  · rw [Except.ok.injEq] at h
    rw [h]

/-- A tree that computes with integers, evaluated where every value is an integer, has
an integer value. By induction on the tree; an element read needs no hypothesis on its
position, whose value it does not return. -/
theorem eval_isInt (henv : env.Integral) :
    ∀ {t : Expr} {room : Nat} {v : Value}, t.integerOnly → t.eval env room = .ok v → v.isInt
  | .num w, _, _, ht, h => by
    rw [eval_num_ok h]
    exact ht
  | .var n, _, _, _, h => henv.vars _ (mem_of_lookup (eval_var_ok h))
  | .index n p, _, _, _, h => by
    obtain ⟨i, rfl⟩ := eval_index_ok h
    exact henv.readIndex n i
  | .unary op e, _, _, ht, h => by
    obtain ⟨w, hw, rfl⟩ := eval_unary_ok h
    exact Value.applyUn_isInt (eval_isInt henv (t := e) ht hw) op
  | .binary op l r, _, _, ht, h => by
    simp only [integerOnly, Bool.and_eq_true, bne_iff_ne, ne_eq] at ht
    obtain ⟨⟨hop, hl⟩, hr⟩ := ht
    obtain ⟨a, b, ha, hb, hv⟩ := eval_binary_ok h
    have ia := eval_isInt henv hl ha
    have ib := eval_isInt henv hr hb
    cases a with
    | real _ => cases ia
    | int m =>
      cases b with
      | real _ => cases ib
      | int n => exact Value.applyBin_isInt hop hv

end Expr

/-- A written expression that computes with integers, evaluated where every value is an
integer, has an integer value under either policy: its tree's, or the `0` that stands for
a failure. -/
theorem SourceExpr.evaluate_isInt {e : SourceExpr} {depth : Nat} {policy : Policy} {env : Env}
    {line : Nat} {v : Value} {ds : List Diagnostic} (he : e.integerOnly) (henv : env.Integral)
    (h : e.evaluate depth policy env line = .ok (v, ds)) : v.isInt := by
  unfold SourceExpr.evaluate at h
  rcases hs : e.evalStrict depth env with stop | w
  · rw [hs] at h
    cases stop with
    | failed err =>
      cases policy with
      | lenient => cases h; rfl
      | strict => cases h
    | fault f => cases h
  · rw [hs] at h
    cases h
    unfold SourceExpr.evalStrict at hs
    unfold SourceExpr.integerOnly at he
    rcases ht : e.tree with err | t
    · rw [ht] at hs
      cases hs
    · rw [ht] at hs he
      exact Expr.eval_isInt henv he hs

/-! ## Runs -/

/-- The machine holds integers only, in its state and in every snapshot it recorded. -/
structure Machine.Integral (m : Machine) : Prop where
  env : m.env.Integral
  snapshots : ∀ s ∈ m.snapshots.toList, s.env.Integral

namespace Machine.Integral

variable {m : Machine}

theorem settled : Run.Settled Machine.Integral := by
  rintro m _ ⟨ds, -, rfl⟩ hm
  exact ⟨hm.env, hm.snapshots⟩

theorem counters (h : m.Integral) (steps loops line : Nat) :
    Machine.Integral { m with steps := steps, loopIterations := loops, currentLine := line } :=
  ⟨h.env, h.snapshots⟩

theorem record (h : m.Integral) (line : Nat) (text : String) :
    Machine.Integral
      { m with snapshots := m.snapshots.push (m.env.snapshot m.snapshots.size line text) } := by
  refine ⟨h.env, fun s hs => ?_⟩
  rw [Array.toList_push, List.mem_append, List.mem_singleton] at hs
  rcases hs with hs | rfl
  · exact h.snapshots s hs
  · exact h.env

end Machine.Integral

namespace Run

variable {cfg : RunConfig} {α : Type} {P : Machine → Prop} {stop : Halt → Machine → Prop}

/-- When every call on an element returns a value satisfying `Q` and keeps `P`, the whole
map returns values that all satisfy `Q`. -/
theorem Triple.mapM_all {γ : Type} {f : γ → Run α} {Q : α → Prop} :
    ∀ cs : List γ, (∀ c ∈ cs, Triple P (f c) (Exits (fun a m => Q a ∧ P m) stop)) →
      Triple P (cs.mapM f) (Exits (fun ys m => (∀ y ∈ ys, Q y) ∧ P m) stop)
  | [], _ => Triple.ret fun _ hm => ⟨nofun, hm⟩
  | c :: cs, hf => by
    rw [List.mapM_cons]
    refine (hf c (List.mem_cons_self ..)).bind fun y m hm => ?_
    -- the first value's property is carried past the rest of the map
    exact ((Triple.mapM_all cs fun c' hc' => hf c' (List.mem_cons_of_mem c hc')).bind fun ys =>
      Triple.ret fun _ h => ⟨List.forall_mem_cons.2 ⟨hm.1, h.1⟩, h.2⟩) m hm.2

theorem quiet_integral {x : Run α} (hx : Quiet x) : Preserves Machine.Integral x :=
  hx.preserves Machine.Integral.settled

theorem tick_integral (line : Nat) : Preserves Machine.Integral (tick cfg line) :=
  Triple.tick fun _ hm => ⟨fun _ => hm.counters _ _ _, fun _ => hm.counters _ _ _⟩

theorem beginIteration_integral (line : Nat) : Preserves Machine.Integral (beginIteration cfg line) :=
  (tick_integral line).bind fun _ => Triple.update fun _ hm => hm.counters _ _ _

/-- A new environment keeps the machine integral when it is integral itself. -/
theorem setEnv_integral {f : Env → Env} (hf : ∀ m, P m → m.Integral ∧ (f m.env).Integral) :
    Triple P (setEnv f) (Exits (fun _ => Machine.Integral) (fun _ => Machine.Integral)) :=
  Triple.setEnv fun m hm => ⟨(hf m hm).2, (hf m hm).1.snapshots⟩

theorem record_integral (line : Nat) (text : String) : Preserves Machine.Integral (record line text) :=
  Triple.record fun _ hm => hm.record line text

/-- Evaluating an expression that computes with integers gives an integer. -/
theorem evalAt_integral {depth line : Nat} {e : SourceExpr} (he : e.integerOnly) :
    Triple Machine.Integral (evalAt cfg depth e line)
      (Exits (fun v m => v.isInt ∧ m.Integral) (fun _ => Machine.Integral)) := by
  intro m hm
  rw [evalAt_run]
  rcases hv : e.evaluate (depth + 2) cfg.policy m.env line with stop | ⟨v, ds⟩
  · cases stop <;> exact hm
  · exact ⟨SourceExpr.evaluate_isInt he hm.env hv, hm.env, hm.snapshots⟩

section Handlers

variable {depth line : Nat} {target : String}

theorem assign_integral {value : SourceExpr} (he : value.integerOnly) :
    Preserves Machine.Integral (assign cfg depth line target value) := by
  unfold assign
  refine (quiet_integral (quiet_arraysDeclared _ _ _ _)).bind fun _ =>
    Triple.cond (fun _ => Triple.ret fun _ h => h) fun _ => ?_
  refine (evalAt_integral he).bind fun v => ?_
  refine (setEnv_integral fun m hm => ⟨hm.2, hm.2.env.setVar target hm.1⟩).bind fun _ => ?_
  exact (quiet_integral (quiet_textOf v)).bind fun _ => record_integral _ _

theorem declare_integral {elements : List SourceExpr} (he : ∀ e ∈ elements, e.integerOnly) :
    Preserves Machine.Integral (declare cfg depth line target elements) := by
  unfold declare
  refine (quiet_integral (quiet_arraysDeclared _ _ _ _)).bind fun _ =>
    Triple.cond (fun _ => Triple.ret fun _ h => h) fun _ => ?_
  refine (Triple.mapM_all elements fun e he' => evalAt_integral (he e he')).bind fun vs => ?_
  refine (setEnv_integral fun m hm => ⟨hm.2, hm.2.env.declareArray target hm.1⟩).bind fun _ => ?_
  exact (quiet_integral (quiet_mapM quiet_textOf vs)).bind fun _ => record_integral _ _

theorem store_integral {index value : SourceExpr} (he : value.integerOnly) :
    Preserves Machine.Integral (store cfg depth line target index value) := by
  unfold store
  refine (Triple.read fun _ h => h).bind fun _ => Triple.cond (fun _ => ?_) fun _ => ?_
  · exact (quiet_integral (quiet_absorb cfg line .undeclaredArray nofun _)).bind fun _ =>
      Triple.ret fun _ h => h
  refine (quiet_integral (quiet_arraysDeclared _ _ _ _)).bind fun _ =>
    Triple.cond (fun _ => Triple.ret fun _ h => h) fun _ => ?_
  refine (quiet_integral (quiet_evalAt _ _ _ _)).bind fun i => ?_
  refine (evalAt_integral he).bind fun v => ?_
  refine Triple.read_self.bind fun mg => ?_
  -- the write either falls outside the array, absorbed, or lands and is recorded
  rcases hw : mg.env.writeIndex target i v with _ | env
  · exact ((quiet_integral (quiet_textOf i)).bind fun _ =>
      quiet_integral (quiet_absorb cfg line .indexOutOfRange nofun _)).weaken
        (fun _ h => h.1.2) fun _ _ h => h
  · refine (setEnv_integral fun m hm => ?_).bind fun _ => ?_
    · obtain ⟨⟨hv, hm⟩, rfl⟩ := hm
      exact ⟨hm, hm.env.writeIndex hv hw⟩
    refine (quiet_integral (quiet_textOf i)).bind fun _ => ?_
    exact (quiet_integral (quiet_textOf v)).bind fun _ => record_integral _ _

theorem output_integral {parts : List OutputPart} :
    Preserves Machine.Integral (output cfg depth line parts) := by
  unfold output
  refine (quiet_integral (quiet_arraysDeclared _ _ _ _)).bind fun _ =>
    Triple.cond (fun _ => Triple.ret fun _ h => h) fun _ => ?_
  refine (quiet_integral (quiet_mapM (fun p => ?_) parts)).bind fun _ => ?_
  · cases p with
    | literal t => exact quiet_pure t
    | expr e => exact (quiet_evalAt _ _ _ _).bind quiet_textOf
  refine (setEnv_integral fun m hm => ⟨hm, hm.env.print _⟩).bind fun _ => ?_
  exact record_integral _ _

/-- A statement without a body whose expressions compute with integers keeps the machine
integral; an output stores nothing, whatever it computes. -/
theorem simple_integral {c : Classified} (hc : c.form.integerOnly) :
    Preserves Machine.Integral (simple cfg depth c) := by
  obtain ⟨line, text, form⟩ := c
  simp only [Form.integerOnly, Form.operands, List.all_eq_true] at hc
  cases form with
  | assign t v => exact assign_integral (hc v (by simp))
  | arrayDeclare t es => exact declare_integral hc
  | indexAssign t i v => exact store_integral (hc v (by simp))
  | output ps => exact output_integral
  | _ => exact Triple.ret fun _ h => h

end Handlers

section Loops

variable {body : Run Unit} {line : Nat}

/-- The iterations of a counted loop keep the machine integral: each sets the counter, an
integer, and the next counter, the sum of two integers, is one too. -/
theorem counted_integral (hbody : Preserves Machine.Integral body) {name : String} {stop step : Value}
    (hstep : step.isInt) :
    ∀ left counter, counter.isInt →
      Preserves Machine.Integral (counted cfg body left line name stop step counter) := by
  intro left counter
  fun_induction counted cfg body left line name stop step counter with
  | case1 counter =>
    intro _
    exact Triple.halt fun _ h => h
  | case2 counter left inside ih =>
    intro hc
    refine (beginIteration_integral line).bind fun _ => ?_
    refine (setEnv_integral fun m hm => ⟨hm, hm.env.setVar name hc⟩).bind fun _ => ?_
    refine (quiet_integral (quiet_textOf counter)).bind fun _ => ?_
    refine (record_integral _ _).bind fun _ => ?_
    refine hbody.bind fun _ => ?_
    split
    · rename_i next hnext
      exact ih next (Value.arith_isInt hc hstep hnext)
    · exact Triple.halt fun _ h => h
  | case3 counter left outside =>
    intro _
    exact Triple.ret fun _ h => h

/-- The iterations of a conditional loop keep the machine integral; the condition's value
is not stored. -/
theorem repeated_integral (hbody : Preserves Machine.Integral body) {depth : Nat} {cond : SourceExpr} :
    ∀ left, Preserves Machine.Integral (repeated cfg body left depth line cond)
  | 0 => by
    rw [repeated]
    exact Triple.halt fun _ h => h
  | left + 1 => by
    rw [repeated]
    refine (quiet_integral (quiet_evalAt _ _ _ _)).bind fun _ =>
      Triple.cond (fun _ => ?_) fun _ => Triple.ret fun _ h => h
    refine (beginIteration_integral line).bind fun _ => ?_
    refine (record_integral _ _).bind fun _ => ?_
    exact hbody.bind fun _ => repeated_integral hbody left

end Loops

/-- Every block and every statement whose expressions compute with integers keeps the
machine integral. By induction along the run's own recursion, as for `block_sound`: a
counted loop's start and step are integers, so are all its counters. -/
theorem block_integral (bound : Nat) :
    (∀ depth ss, (∀ s ∈ Stmt.walk ss, s.head.form.integerOnly) →
      Preserves Machine.Integral (block cfg bound depth ss)) ∧
    (∀ depth s, (∀ s' ∈ Stmt.walkOne s, s'.head.form.integerOnly) →
      Preserves Machine.Integral (stmt cfg bound depth s)) := by
  refine block.mutual_induct cfg bound _ _ ?single ?inert ?loop ?inertLoop ?branch ?inertBranch
    ?nil ?cons
  case single =>
    intro depth c hx hw
    have hc : c.form.integerOnly := hw (.single c) (by simp [Stmt.walkOne])
    rw [stmt, if_pos hx]
    exact (tick_integral _).bind fun _ => simple_integral hc
  case inert =>
    intro depth c hx _
    rw [stmt, if_neg hx]
    exact Triple.ret fun _ h => h
  case loop =>
    intro depth line text form body hx ih hw
    have hf : form.integerOnly := hw (.loop ⟨line, text, form⟩ body) (by simp [Stmt.walkOne])
    have hbody : ∀ s ∈ Stmt.walk body, s.head.form.integerOnly :=
      fun s hs => hw s (by simp [Stmt.walkOne, hs])
    rw [stmt.eq_def]
    dsimp only
    rw [if_pos hx]
    refine (tick_integral _).bind fun _ => ?_
    cases form with
    | forLoop name a b d desc =>
      simp only [Form.integerOnly, Form.operands, List.all_cons, List.all_nil, Bool.and_true,
        Bool.and_eq_true] at hf
      obtain ⟨ha, -, hd⟩ := hf
      -- the start and the step are integers, and so is the step counted down
      refine (evalAt_integral ha).bind fun start m hm => ?_
      refine ((quiet_integral (quiet_evalAt _ _ _ _)).bind fun _ =>
        (evalAt_integral hd).bind fun step m' hm' => ?_) m hm.2
      have hstep : (if desc then Value.applyUn .neg step else step).isInt := by
        cases desc
        · exact hm'.1
        · exact Value.applyUn_isInt hm'.1 .neg
      exact counted_integral (ih hbody) hstep _ _ hm.1 m' hm'.2
    | whileLoop cond => exact repeated_integral (ih hbody) _
    | _ => exact Triple.ret fun _ h => h
  case inertLoop =>
    intro depth line text form body hx _ _
    cases form <;> first | exact absurd rfl hx | exact Triple.ret fun _ h => h
  case branch =>
    intro depth line text body orElse cond ihBody ihElse hw
    have hbody : ∀ s ∈ Stmt.walk body, s.head.form.integerOnly :=
      fun s hs => hw s (by simp [Stmt.walkOne, hs])
    rw [stmt.eq_def]
    dsimp only
    refine (tick_integral _).bind fun _ => ?_
    refine (quiet_integral (quiet_evalAt _ _ _ _)).bind fun _ => ?_
    refine (record_integral _ _).bind fun _ => ?_
    refine Triple.cond (fun _ => ihBody hbody) fun _ => ?_
    cases orElse with
    | some b =>
      exact ihElse fun s hs => hw s (by simp [Stmt.walkOne, Stmt.walkElse, hs])
    | none => exact Triple.ret fun _ h => h
  case inertBranch =>
    intro depth line text form body orElse hc _
    cases form <;> first | exact absurd rfl (hc _) | exact Triple.ret fun _ h => h
  case nil =>
    intro depth _
    exact Triple.ret fun _ h => h
  case cons =>
    intro depth s rest ihs ihr hw
    rw [block]
    exact (ihs fun s' hs' => hw s' (by simp [Stmt.walk, hs'])).bind fun _ =>
      ihr fun s' hs' => hw s' (by simp [Stmt.walk, hs'])

end Run

/-- Every state a trace shows holds integers only: the initial state, each snapshot, and
the final state. -/
structure Trace.Integral (t : Trace) : Prop where
  initial : t.initial.env.Integral
  snapshots : ∀ s ∈ t.snapshots.toList, s.env.Integral
  final : t.final.env.Integral

/-- The trace of an integral machine shows integers only. -/
theorem Machine.Integral.trace {m : Machine} (h : m.Integral) (truncated : Bool) :
    (m.trace truncated).Integral := by
  have initial : (m.trace truncated).initial.env.Integral := Env.Integral.empty
  refine ⟨initial, h.snapshots, ?_⟩
  unfold Trace.final
  rcases hb : (m.trace truncated).snapshots.back? with _ | s
  · exact initial
  · exact h.snapshots s (Array.mem_def.1 (Array.mem_of_getElem? hb))

/-- A program whose expressions compute with integers only, with no real numeral and no
true division, runs on integers alone: under any budget and either policy, the trace it
returns shows integers only, in every variable and every array element of its initial
state, of each snapshot and of its final state. -/
theorem ParsedProgram.execute_keeps_integers {p : ParsedProgram} {depth : Nat} {cfg : RunConfig}
    {t : Trace} (hp : p.integerOnly) (ht : p.execute depth cfg = .ok t) : t.Integral := by
  have hw : ∀ s ∈ Stmt.walk p.stmts, s.head.form.integerOnly := by
    simpa [ParsedProgram.integerOnly, List.all_eq_true] using hp
  have ran : (p.runStmts depth cfg).2.Integral :=
    ((Run.block_integral _).1 (depth + 2) p.stmts hw).after ⟨Env.Integral.empty, nofun⟩
  unfold ParsedProgram.execute ParsedProgram.outcome at ht
  rcases hr : p.runStmts depth cfg with ⟨r, m⟩
  rw [hr] at ht ran
  cases r with
  | ok u =>
    cases ht
    exact (ran.record _ _).trace false
  | error e =>
    cases e with
    | budget =>
      cases ht
      refine Machine.Integral.trace ?_ true
      exact ⟨ran.env, ran.snapshots⟩
    | failed d => cases ht
    | fault f => cases ht

/-- A counted loop that adds halves, floored, of its counter: its trace shows integers
only. -/
theorem execute_keeps_integers_halves :
    let p : ParsedProgram :=
      ⟨#[⟨1, 0, "s ← 0"⟩, ⟨2, 0, "i を 1 から 5 まで 2 ずつ増やしながら，"⟩, ⟨3, 2, "s ← s + i ÷ 2"⟩],
        [.single ⟨1, "s ← 0", .assign "s" ⟨"0", .ok (.num (.int 0))⟩⟩,
          .loop ⟨2, "i を 1 から 5 まで 2 ずつ増やしながら，", .forLoop "i" ⟨"1", .ok (.num (.int 1))⟩
              ⟨"5", .ok (.num (.int 5))⟩ ⟨"2", .ok (.num (.int 2))⟩ false⟩
            [.single ⟨3, "s ← s + i ÷ 2", .assign "s" ⟨"s + i ÷ 2",
              .ok (.binary .add (.var "s") (.binary .floorDiv (.var "i") (.num (.int 2))))⟩⟩]], []⟩
    p.integerOnly ∧ ∃ t, p.execute 0 ⟨100, .lenient⟩ = .ok t ∧ t.Integral := by
  intro p
  have ran : (p.execute 0 ⟨100, .lenient⟩).toBool = true := by decide +kernel
  obtain ⟨t, ht⟩ : ∃ t, p.execute 0 ⟨100, .lenient⟩ = .ok t := by
    rcases hx : p.execute 0 ⟨100, .lenient⟩ with e | t
    · rw [hx] at ran
      cases ran
    · exact ⟨t, rfl⟩
  exact ⟨rfl, t, ht, ParsedProgram.execute_keeps_integers rfl ht⟩

end DnclTrace
