import DnclTrace.Proofs.Run.Logic

/-!
# Running an if / else-if chain

A chain is a conditional whose else body is one conditional, whose else body is one
conditional in turn, and so on, the last ending with an else body or none
(`Stmt.chain`). Running it tests the links' conditions in order, each two calls deeper
than the one before, and runs the body of the first that holds, or the else body when
none does.

Every test sees the state the chain started in: a test takes a step, evaluates and
records, and none of that changes the environment (`test_run`). So the whole run is
decided at its start (`chain_run`): it is the tests of the links up to the first whose
condition holds in the starting environment (`firstHolding`), followed by that link's
body alone. Tests that complete take one step each and record one snapshot each, at
their link's line, saying whether its condition holds (`tests_record`): the links before
the chosen one that it does not, the chosen one that it does (`decisions_firstHolding`).
-/

namespace DnclTrace

/-- A link of an if / else-if chain: the line of its test, the text and the condition
there, and its body. -/
structure Link where
  line : Nat
  text : String
  cond : SourceExpr
  body : List Stmt

/-- The classified line of a link's test. -/
def Link.head (l : Link) : Classified := ⟨l.line, l.text, .conditional l.cond⟩

/-- The conditional of the link `l` followed by the links `ls`: each conditional but the
last has the next as the one statement of its else body; the last has the else body
`e`. -/
def Stmt.chain (l : Link) : List Link → Option (List Stmt) → Stmt
  | [], e => .branch l.head l.body e
  | l' :: ls, e => .branch l.head l.body (some [Stmt.chain l' ls e])

/-- Whether a link's condition holds in an environment, evaluated as its test does when
the test is run `depth` calls deep; a failed evaluation does not hold. -/
def Link.holds (cfg : RunConfig) (env : Env) (depth : Nat) (l : Link) : Bool :=
  match l.cond.evaluate (depth + 2) cfg.policy env l.line with
  | .ok (v, _) => v.truthy
  | .error _ => false

/-- The position of the first link whose condition holds, the links tested from `depth`
calls deep on, each two deeper than the one before; the number of links when none does. -/
def Link.firstHolding (cfg : RunConfig) (env : Env) : Nat → List Link → Nat
  | _, [] => 0
  | depth, l :: ls => if l.holds cfg env depth then 0 else firstHolding cfg env (depth + 2) ls + 1

namespace Run

/-- The description of the snapshot of a conditional's decision. -/
def decisionText (cond : SourceExpr) (taken : Bool) : String :=
  "条件判定: 『" ++ cond.source ++ (if taken then "』は成立します。" else "』は成立しません。")

variable (cfg : RunConfig)

/-- The test of a link, `depth` calls deep: a step at its line, its condition evaluated,
and a snapshot of the decision. -/
def test (depth : Nat) (l : Link) : Run Bool := do
  tick cfg l.line
  let taken := (← evalAt cfg depth l.cond l.line).truthy
  record l.line (decisionText l.cond taken)
  pure taken

/-- The tests of links in order, the first `depth` calls deep, each two deeper than the
one before. -/
def tests : Nat → List Link → Run Unit
  | _, [] => pure ()
  | depth, l :: ls => do
    let _ ← test cfg depth l
    tests (depth + 2) ls

/-- What a chain of `links` run `depth` calls deep runs after its tests, when the link at
position `j` is the first that holds: that link's body, or the else body when no link
holds. -/
def chosen (bound depth : Nat) (links : List Link) (e : Option (List Stmt)) (j : Nat) :
    Run Unit :=
  match links[j]? with
  | some l => block cfg bound (depth + 2 * j + 2) l.body
  | none =>
    match e with
    | some eb => block cfg bound (depth + 2 * links.length) eb
    | none => pure ()

/-- The lines and descriptions of the snapshots the tests of `links` record in an
environment. -/
def decisions (env : Env) : Nat → List Link → List (Nat × String)
  | _, [] => []
  | depth, l :: ls => (l.line, decisionText l.cond (l.holds cfg env depth)) :: decisions env (depth + 2) ls

variable {cfg}

/-- A chain of one link tests it, then runs its body or, when the test fails, the else body. -/
theorem stmt_chain_nil (bound depth : Nat) (l : Link) (e : Option (List Stmt)) :
    stmt cfg bound depth (Stmt.chain l [] e) =
      test cfg depth l >>= fun taken =>
        if taken then block cfg bound (depth + 2) l.body
        else match e with
            | some eb => block cfg bound (depth + 2) eb
            | none => pure () := by
  rw [Stmt.chain]
  conv => lhs; unfold stmt
  dsimp only [Link.head]
  unfold test decisionText
  -- with the else body split first, the runner's match and this statement's agree on it
  cases e <;> simp only [bind_assoc, pure_bind]

/-- A chain of several links tests the first, then runs its body or, when the test fails, the
rest of the chain two calls deeper. -/
theorem stmt_chain_cons (bound depth : Nat) (l l' : Link) (ls : List Link) (e : Option (List Stmt)) :
    stmt cfg bound depth (Stmt.chain l (l' :: ls) e) =
      test cfg depth l >>= fun taken =>
        if taken then block cfg bound (depth + 2) l.body
        else stmt cfg bound (depth + 2) (Stmt.chain l' ls e) := by
  rw [Stmt.chain]
  conv => lhs; unfold stmt
  dsimp only [Link.head]
  unfold test decisionText
  simp only [bind_assoc, pure_bind, block, bind_pure_unit]

/-- A test changes no variable, array or console line; when it returns, it took one step
and recorded one snapshot of its decision, and it decided whether its condition holds in
the environment it started in. -/
theorem test_run (depth : Nat) (l : Link) (m : Machine) :
    ((test cfg depth l).run.run m).2.env = m.env ∧
    ∀ taken, ((test cfg depth l).run.run m).1 = .ok taken →
      taken = l.holds cfg m.env depth ∧ ((test cfg depth l).run.run m).2.steps = m.steps + 1 ∧
      ((test cfg depth l).run.run m).2.snapshots =
        m.snapshots.push (m.env.snapshot m.snapshots.size l.line (decisionText l.cond taken)) := by
  unfold test
  rw [run_bind, tick_run]
  by_cases hb : cfg.maxSteps < ((m.steps + 1 : Nat) : Int)
  · rw [if_pos hb]
    exact ⟨rfl, fun _ h => nomatch h⟩
  · rw [if_neg hb]
    dsimp only
    rw [run_bind, evalAt_run]
    dsimp only
    -- the evaluation gives the value whose truth is the decision, or stops the run
    rcases hev : l.cond.evaluate (depth + 2) cfg.policy m.env l.line with stop | ⟨v, ds⟩
    · cases stop <;> exact ⟨rfl, fun _ h => nomatch h⟩
    · refine ⟨rfl, fun taken h => ?_⟩
      simp only [run_bind, run_record, run_pure, Except.ok.injEq] at h ⊢
      subst h
      simp [Link.holds, hev]

/-- Two continuations agree after `x` when they agree on every value `x` returns. -/
theorem run_bind_congr {α β : Type} {x : Run α} {f g : α → Run β} {m : Machine}
    (h : ∀ a, (x.run.run m).1 = .ok a →
      (f a).run.run (x.run.run m).2 = (g a).run.run (x.run.run m).2) :
    (x >>= f).run.run m = (x >>= g).run.run m := by
  rw [run_bind, run_bind]
  rcases hr : x.run.run m with ⟨r, m'⟩
  rw [hr] at h
  cases r with
  | ok a => exact h a rfl
  | error e => rfl

/-- Choosing after one more test is choosing two calls deeper among the links after it. -/
theorem chosen_cons (bound depth : Nat) (l : Link) (links : List Link) (e : Option (List Stmt))
    (j : Nat) : chosen cfg bound depth (l :: links) e (j + 1) = chosen cfg bound (depth + 2) links e j := by
  unfold chosen
  have body : depth + 2 * (j + 1) + 2 = depth + 2 + 2 * j + 2 := by omega
  have orElse : depth + 2 * (links.length + 1) = depth + 2 + 2 * links.length := by omega
  simp only [List.getElem?_cons_succ, List.length_cons, body, orElse]

/-- A chain runs as the tests of its links up to the first whose condition holds in the
environment it starts in, then that link's body alone; when no condition holds, as all
the tests, then the else body. -/
theorem chain_run (bound depth : Nat) (l : Link) (ls : List Link) (e : Option (List Stmt))
    (m : Machine) :
    (stmt cfg bound depth (Stmt.chain l ls e)).run.run m =
      (tests cfg depth ((l :: ls).take (Link.firstHolding cfg m.env depth (l :: ls) + 1)) >>=
        fun _ => chosen cfg bound depth (l :: ls) e
          (Link.firstHolding cfg m.env depth (l :: ls))).run.run m := by
  induction ls generalizing l depth m with
  | nil =>
    rw [stmt_chain_nil, Link.firstHolding.eq_2, Link.firstHolding.eq_1]
    simp only [tests, List.take, bind_assoc]
    refine run_bind_congr fun taken ht => ?_
    rw [(test_run depth l m).2 taken ht |>.1]
    by_cases h : l.holds cfg m.env depth
    · simp [h, chosen, tests]
    · simp [h, chosen, tests]
  | cons l' ls ih =>
    rw [stmt_chain_cons, Link.firstHolding.eq_2]
    by_cases h : l.holds cfg m.env depth
    · simp only [h, if_true, List.take, tests, bind_assoc, pure_bind]
      refine run_bind_congr fun taken ht => ?_
      rw [(test_run depth l m).2 taken ht |>.1, h]
      simp [chosen]
    · rw [if_neg h, List.take_succ_cons, tests.eq_2, bind_assoc]
      refine run_bind_congr fun taken ht => ?_
      rw [(test_run depth l m).2 taken ht |>.1, if_neg h, ih, (test_run depth l m).1, chosen_cons]

/-- Tests that complete keep the environment, take one step each and record one snapshot
each, at their link's line, describing whether its condition holds. -/
theorem tests_record (depth : Nat) (links : List Link) (m : Machine)
    (h : ((tests cfg depth links).run.run m).1 = .ok ()) :
    ((tests cfg depth links).run.run m).2.env = m.env ∧
    ((tests cfg depth links).run.run m).2.steps = m.steps + links.length ∧
    ∃ ss, ((tests cfg depth links).run.run m).2.snapshots.toList = m.snapshots.toList ++ ss ∧
      ss.map (fun s => (s.line, s.description)) = decisions cfg m.env depth links := by
  induction links generalizing depth m with
  | nil => exact ⟨rfl, rfl, [], by rw [List.append_nil]; rfl, rfl⟩
  | cons l ls ih =>
    simp only [tests] at h ⊢
    rw [run_bind] at h ⊢
    obtain ⟨henv, hok⟩ := test_run depth l m
    rcases hr : (test cfg depth l).run.run m with ⟨r, m₁⟩
    rw [hr] at h henv hok
    cases r with
    | error e => exact nomatch h
    | ok taken =>
      obtain ⟨rfl, hsteps, hsnap⟩ := hok taken rfl
      obtain ⟨henv', hsteps', ss, hss, hmap⟩ := ih (depth + 2) m₁ h
      refine ⟨henv'.trans henv, by simp only [List.length_cons] at hsteps hsteps' ⊢; omega,
        m.env.snapshot m.snapshots.size l.line (decisionText l.cond (l.holds cfg m.env depth)) :: ss,
        ?_, ?_⟩
      · simp only at hsnap
        rw [hss, hsnap, Array.toList_push, List.append_assoc, List.singleton_append]
      · rw [List.map_cons, hmap, henv]
        rfl

/-- The tests of a chain up to the first link that holds decide, in order, that each link
before it does not hold and that it does. -/
theorem decisions_firstHolding (env : Env) (depth : Nat) (links : List Link) :
    decisions cfg env depth (links.take (Link.firstHolding cfg env depth links + 1)) =
      (links.take (Link.firstHolding cfg env depth links)).map
          (fun l => (l.line, decisionText l.cond false)) ++
        (links[Link.firstHolding cfg env depth links]?.map
          (fun l => (l.line, decisionText l.cond true))).toList := by
  induction links generalizing depth with
  | nil => rfl
  | cons l ls ih =>
    by_cases h : l.holds cfg env depth
    · simp [Link.firstHolding, h, decisions]
    · simp [Link.firstHolding, h, decisions, ih]

end Run

end DnclTrace
