import DnclTrace.Proofs.Run.Logic

/-!
# Problems a statement absorbs

A statement that writes checks, before it evaluates anything, that every array it reads is
declared: for an element assignment its target first, then the arrays its operands read,
in order and each in pre-order (`Form.checkedArrays`). The first that is not declared is
absorbed: under the lenient policy one diagnostic at the statement's line names it, under
the strict policy the run stops there; nothing else happens but the statement's step
(`simple_absent`). An element assignment whose index falls outside its array is absorbed
the same way, after the diagnostics of evaluating its two operands (`store_out_of_range`).

The arrays of an operand are listed on the call stack, one call per level of its tree, so
the check holds for operands that are not too tall (`SourceExpr.Listable`). A taller one
stops the run on a fault while it is being listed, whether its arrays are declared or
not (`assign_too_tall_faults`).

Main statement: `simple_absorbs_write_problems`.
-/

namespace DnclTrace

/-- The first of these names that is not a declared array. -/
def Env.firstAbsent (env : Env) (names : List String) : Option String :=
  names.find? fun n => !env.hasArray n

/-- The arrays a statement without a body checks before it evaluates anything: an element
assignment's target first, then the arrays its operands read, in order and each in
pre-order. Statements that write nothing check none. -/
def Form.checkedArrays (f : Form) : List String :=
  match f with
  | .indexAssign t _ _ => t :: f.operands.flatMap SourceExpr.arrayNames
  | .assign .. | .arrayDeclare .. | .output .. => f.operands.flatMap SourceExpr.arrayNames
  | _ => []

/-- The arrays an expression reads can be listed `depth` calls deep: its tree, if it has
one, is not too tall for the calls left. -/
def SourceExpr.Listable (depth : Nat) (e : SourceExpr) : Prop :=
  ∀ t, e.tree = .ok t → depth + t.height + 2 ≤ callLimit

theorem SourceExpr.arrayNamesAt_of_listable {depth : Nat} {e : SourceExpr}
    (h : e.Listable depth) : e.arrayNamesAt depth = .ok e.arrayNames := by
  unfold arrayNamesAt arrayNames
  rcases ht : e.tree with err | t
  · rfl
  · dsimp only
    rw [if_neg (by have := h t ht; omega)]
    rfl

namespace Run

/-- Listed one expression after the other, the arrays of listable expressions give the
first that is not declared among all of them. -/
theorem undeclaredIn_of_listable {depth : Nat} {env : Env} :
    ∀ {es : List SourceExpr}, (∀ e ∈ es, e.Listable depth) →
      undeclaredIn depth env es = .ok (env.firstAbsent (es.flatMap SourceExpr.arrayNames))
  | [], _ => rfl
  | e :: es, h => by
    rw [undeclaredIn, SourceExpr.arrayNamesAt_of_listable (h e List.mem_cons_self)]
    simp only [bind, Except.bind, List.flatMap_cons, Env.firstAbsent, List.find?_append]
    cases hf : e.arrayNames.find? fun n => !env.hasArray n with
    | some n => rfl
    | none =>
      exact undeclaredIn_of_listable fun e' he' => h e' (List.mem_cons_of_mem _ he')

theorem undeclaredIn_tall {depth : Nat} {env : Env} {source : String} {t : Expr}
    {es : List SourceExpr} (h : callLimit < depth + t.height + 2) :
    undeclaredIn depth env (⟨source, .ok t⟩ :: es) = .error (.tooDeep .enter) := by
  rw [undeclaredIn]
  simp only [SourceExpr.arrayNamesAt, if_pos h]
  rfl

variable {cfg : RunConfig} {depth line : Nat} {m : Machine}

/-- A check that finds an array not declared absorbs it, and the statement does nothing
more. -/
theorem arraysDeclared_absent {es : List SourceExpr} {n : String}
    (hfit : ∀ e ∈ es, e.Listable (depth + 3))
    (hn : m.env.firstAbsent (es.flatMap SourceExpr.arrayNames) = some n)
    {f : Bool → Run Unit} (hf : f false = pure ()) :
    (arraysDeclared cfg depth line es >>= f).run.run m =
      (absorb cfg line .undeclaredArray ("配列『" ++ n ++ "』は宣言されていません")).run.run m := by
  unfold arraysDeclared
  rw [bind_assoc, run_bind, run_get]
  dsimp only
  rw [undeclaredIn_of_listable hfit, hn]
  simp only [orFault, pure_bind, bind_assoc, hf, bind_pure_unit]

theorem arraysDeclared_present {α : Type} {es : List SourceExpr}
    (hfit : ∀ e ∈ es, e.Listable (depth + 3))
    (hn : m.env.firstAbsent (es.flatMap SourceExpr.arrayNames) = none) {f : Bool → Run α} :
    (arraysDeclared cfg depth line es >>= f).run.run m = (f true).run.run m := by
  unfold arraysDeclared
  rw [bind_assoc, run_bind, run_get]
  dsimp only
  rw [undeclaredIn_of_listable hfit, hn]
  simp only [orFault, pure_bind]

/-- A check whose listing faults stops the statement on that fault, with nothing noted. -/
theorem arraysDeclared_fault {α : Type} {es : List SourceExpr} {f : Fault}
    (h : undeclaredIn (depth + 3) m.env es = .error f) {g : Bool → Run α} :
    (arraysDeclared cfg depth line es >>= g).run.run m = (.error (.fault f), m) := by
  unfold arraysDeclared
  rw [bind_assoc, run_bind, run_get]
  dsimp only
  rw [h]
  rfl

/-- A statement without a body that reads an array not declared absorbs the first such
array and does nothing else. -/
theorem simple_absent {c : Classified} {n : String}
    (hfit : ∀ e ∈ c.form.operands, e.Listable (depth + 3))
    (hn : m.env.firstAbsent c.form.checkedArrays = some n) :
    (simple cfg depth c).run.run m =
      (absorb cfg c.line .undeclaredArray ("配列『" ++ n ++ "』は宣言されていません")).run.run m := by
  obtain ⟨line, text, form⟩ := c
  cases form with
  | assign t v => exact arraysDeclared_absent hfit hn rfl
  | arrayDeclare t es => exact arraysDeclared_absent hfit hn rfl
  | output ps => exact arraysDeclared_absent hfit hn rfl
  | indexAssign t i v =>
    -- the target is checked before the arrays its operands read
    simp only [Form.checkedArrays, Env.firstAbsent, List.find?_cons] at hn
    unfold simple store
    rw [run_bind, run_get]
    dsimp only
    cases ht : m.env.hasArray t with
    | false =>
      rw [ht] at hn
      cases hn
      rw [if_pos (show (!false) = true from rfl), bind_pure_unit]
    | true =>
      rw [ht] at hn
      rw [if_neg (show ¬((!true) = true) by decide)]
      exact arraysDeclared_absent hfit hn rfl
  | _ => simp [Form.checkedArrays, Env.firstAbsent] at hn

theorem writeIndex_of_slot {env : Env} {name : String} {vs : List Value} {pos v : Value}
    (hl : env.arrays.lookup name = some vs) (hs : Env.slot? vs.length pos = none) :
    env.writeIndex name pos v = none := by
  simp [Env.writeIndex, hl, hs]

/-- An element assignment whose index falls outside its array notes the diagnostics of
its two operands, then absorbs the index, which it quotes. -/
theorem store_out_of_range {target : String} {index value : SourceExpr} {vs : List Value}
    {i v : Value} {di dv : List Diagnostic} {shown : String}
    (hfit : ∀ e ∈ [index, value], e.Listable (depth + 3))
    (hl : m.env.arrays.lookup target = some vs)
    (hn : m.env.firstAbsent ([index, value].flatMap SourceExpr.arrayNames) = none)
    (hi : index.evaluate (depth + 2) cfg.policy m.env line = .ok (i, di))
    (hv : value.evaluate (depth + 2) cfg.policy m.env line = .ok (v, dv))
    (hslot : Env.slot? vs.length i = none) (hshown : i.display = .ok shown) :
    (store cfg depth line target index value).run.run m =
      ((di ++ dv).forM (note ·) >>= fun _ =>
        absorb cfg line .indexOutOfRange ("『" ++ target ++ "[" ++ shown ++ "]』は範囲外です")).run.run m := by
  have declared : m.env.hasArray target = true := by simp [Env.hasArray, hl]
  unfold store
  rw [run_bind, run_get]
  dsimp only
  rw [declared, if_neg (show ¬((!true) = true) by decide), arraysDeclared_present hfit hn,
    if_neg (show ¬((!true) = true) by decide), evalAt_bind_run hi, evalAt_bind_run hv, run_bind,
    run_get]
  · dsimp only
    rw [writeIndex_of_slot hl hslot]
    dsimp only
    rw [run_bind (List.forM (di ++ dv) fun d => note d), run_forM_note]
    simp only [textOf, hshown, orFault, pure_bind, ← List.append_toArray, Array.append_assoc]
  all_goals rfl

theorem stmt_single_run {bound : Nat} {c : Classified} (hx : Form.executes c.form = true) :
    stmt cfg bound depth (.single c) = (tick cfg c.line >>= fun _ => simple cfg depth c) := by
  rw [stmt, if_pos hx]

/-- A statement that writes and reads an array not declared takes its step, then absorbs
the first such array: the target of an element assignment first, then the arrays its
operands read, in order. An element assignment whose index is not a position of its
array takes its step, notes the diagnostics of its two operands, then absorbs the index.
Absorbing is one diagnostic at the statement's line under the lenient policy and a stop
there under the strict one; nothing is evaluated after it and no snapshot is recorded.
The operands must be listable, and the index must have a text to quote. -/
theorem simple_absorbs_write_problems {bound : Nat} :
    (∀ {c : Classified} {n : String}, (∀ e ∈ c.form.operands, e.Listable (depth + 3)) →
      m.env.firstAbsent c.form.checkedArrays = some n →
      (stmt cfg bound depth (.single c)).run.run m =
        (do
          tick cfg c.line
          absorb cfg c.line .undeclaredArray ("配列『" ++ n ++ "』は宣言されていません")).run.run m) ∧
    (∀ {line : Nat} {text target : String} {index value : SourceExpr} {vs : List Value}
      {i v : Value} {di dv : List Diagnostic} {shown : String},
      (∀ e ∈ [index, value], e.Listable (depth + 3)) →
      m.env.firstAbsent (Form.indexAssign target index value).checkedArrays = none →
      m.env.arrays.lookup target = some vs →
      index.evaluate (depth + 2) cfg.policy m.env line = .ok (i, di) →
      value.evaluate (depth + 2) cfg.policy m.env line = .ok (v, dv) →
      Env.slot? vs.length i = none → i.display = .ok shown →
      (stmt cfg bound depth (.single ⟨line, text, .indexAssign target index value⟩)).run.run m =
        (do
          tick cfg line
          (di ++ dv).forM (note ·)
          absorb cfg line .indexOutOfRange
            ("『" ++ target ++ "[" ++ shown ++ "]』は範囲外です")).run.run m) := by
  constructor
  · intro c n hfit hn
    -- only the four forms that write check arrays, and each of them takes a step
    have hx : Form.executes c.form = true := by
      obtain ⟨line, text, form⟩ := c
      cases form <;> first | rfl | simp [Form.checkedArrays, Env.firstAbsent] at hn
    rw [stmt_single_run hx]
    refine tick_bind_run ?_
    rw [simple_absent hfit]
    exact hn
  · intro line text target index value vs i v di dv shown hfit hn hl hi hv hslot hshown
    have declared : m.env.hasArray target = true := by simp [Env.hasArray, hl]
    have operands : m.env.firstAbsent ([index, value].flatMap SourceExpr.arrayNames) = none := by
      simp only [Form.checkedArrays, Form.operands, Env.firstAbsent, List.find?_cons, declared,
        Bool.not_true] at hn
      exact hn
    rw [stmt_single_run rfl]
    exact tick_bind_run (store_out_of_range hfit hl operands hi hv hslot hshown)

/-- Reading `B[0]` with no array `B` is absorbed as `B`; writing `A[5]` into a one-element
`A` is absorbed as the index `5`. -/
theorem simple_absorbs_write_problems_b_and_a_five :
    let cfg : RunConfig := ⟨100, .lenient⟩
    let m : Machine := { env := ⟨[], [("A", [.int 0])], []⟩ }
    let read : Classified := ⟨1, "x ← B[0]", .assign "x" ⟨"B[0]", .ok (.index "B" (.num (.int 0)))⟩⟩
    let write : Classified :=
      ⟨2, "A[5] ← 1", .indexAssign "A" ⟨"5", .ok (.num (.int 5))⟩ ⟨"1", .ok (.num (.int 1))⟩⟩
    (stmt cfg 101 0 (.single read)).run.run m =
        (do
          tick cfg 1
          absorb cfg 1 .undeclaredArray ("配列『" ++ "B" ++ "』は宣言されていません")).run.run m ∧
      (stmt cfg 101 0 (.single write)).run.run m =
        (do
          tick cfg 2
          ([] ++ []).forM (note ·)
          absorb cfg 2 .indexOutOfRange ("『" ++ "A" ++ "[" ++ "5" ++ "]』は範囲外です")).run.run m := by
  intro cfg m read write
  have fits : ∀ (e : SourceExpr) (t : Expr), e.tree = .ok t → t.height ≤ 1 → e.Listable 3 := by
    intro e t ht hh t' ht'
    rw [ht] at ht'
    cases ht'
    unfold callLimit
    omega
  have shown : (Value.int 5).display = .ok "5" := by
    show intText 5 = .ok "5"
    rw [intText, if_neg (by decide +kernel)]
    rfl
  refine ⟨(simple_absorbs_write_problems).1 ?_ rfl,
    (simple_absorbs_write_problems).2 ?_ rfl rfl rfl rfl rfl shown⟩
  · intro e he
    obtain rfl := List.mem_singleton.mp he
    exact fits _ _ rfl (by decide)
  · intro e he
    rcases List.mem_cons.mp he with rfl | he
    · exact fits _ _ rfl (by decide)
    · obtain rfl := List.mem_singleton.mp he
      exact fits _ _ rfl (by decide)

end Run

/-- The sum `B[0] + 1 + … + 1` of `n` ones, nested to the left as it is read. -/
def tallSum : Nat → Expr
  | 0 => .index "B" (.num (.int 0))
  | n + 1 => .binary .add (tallSum n) (.num (.int 1))

theorem tallSum_height (n : Nat) : (tallSum n).height = n + 1 := by
  induction n with
  | zero => rfl
  | succ n ih => simp [tallSum, Expr.height, ih]

theorem tallSum_arrayNames (n : Nat) : (tallSum n).arrayNames = ["B"] := by
  induction n with
  | zero => rfl
  | succ n ih => simp [tallSum, Expr.arrayNames, ih]

/-- An assignment of a sum too tall for the calls left stops on a fault after its step,
while the arrays it reads are listed, whatever arrays are declared. -/
theorem assign_too_tall_faults {cfg : RunConfig} {bound depth line n : Nat}
    {text source : String} {m : Machine} (hdeep : callLimit < depth + n + 6)
    (hstep : ¬cfg.maxSteps < ((m.steps + 1 : Nat) : Int)) :
    (Run.stmt cfg bound depth (.single ⟨line, text, .assign "x" ⟨source, .ok (tallSum n)⟩⟩)).run.run m =
      (.error (.fault (.tooDeep .enter)), { m with currentLine := line, steps := m.steps + 1 }) := by
  have tall : callLimit < depth + 3 + (tallSum n).height + 2 := by
    rw [tallSum_height]
    omega
  rw [Run.stmt_single_run rfl, Run.run_bind, Run.tick_run, if_neg hstep]
  exact Run.arraysDeclared_fault (Run.undeclaredIn_tall tall)

/-- A program that assigns `B[0]` plus 987 ones, with no array `B`, stops on a fault
instead of noting that `B` is not declared. -/
theorem assign_long_sum_faults :
    let e : SourceExpr := ⟨"B[0]" ++ String.join (List.replicate 987 "+1"), .ok (tallSum 987)⟩
    let p : ParsedProgram :=
      ⟨#[⟨1, 0, "x = " ++ e.source⟩], [.single ⟨1, "x = " ++ e.source, .assign "x" e⟩], []⟩
    p.start.env.firstAbsent (Form.assign "x" e).checkedArrays = some "B" ∧
      p.execute 7 ⟨10000, .lenient⟩ = .error (.fault (.tooDeep .enter)) := by
  intro e p
  refine ⟨?_, ?_⟩
  · simp only [e, Form.checkedArrays, Form.operands, List.flatMap_cons, List.flatMap_nil,
      SourceExpr.arrayNames, tallSum_arrayNames]
    rfl
  · have stops := @assign_too_tall_faults ⟨10000, .lenient⟩ (Int.toNat 10000 + 1) (7 + 2) 1 987
      ("x = " ++ e.source) e.source p.start (by decide) (by decide)
    simp only [ParsedProgram.execute, ParsedProgram.outcome, ParsedProgram.runStmts]
    rw [Run.block, Run.run_bind, stops]
    rfl

end DnclTrace
