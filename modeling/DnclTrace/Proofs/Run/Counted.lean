import DnclTrace.Proofs.Run.Budget

/-!
# Counted loops

A counted loop from `s` to `e` by the step `δ`, on integers, runs once for each of
`s, s + δ, s + 2δ, …` that has not passed `e` in the direction of the step: `forCount`
gives that number in closed form, `none` when the step is zero and the loop never ends.

The run's cap on iterations is fuel that the loop never reaches: a run that caps its
loops past the step budget stops on the budget first, since every iteration takes a
step (`iterations_stop`). So a counted loop runs as its `forCount` iterations one after
the other (`counted_runs`), and one that never ends as more iterations than the budget
allows.

Main statement: `forLoop_iterates`: a for-loop statement whose bounds and step are
integers takes its step, reports the diagnostics of its three expressions, then runs
exactly `forCount` iterations, the `k`-th with its counter at `s + k * δ`; a loop with
no count never completes.
-/

namespace DnclTrace

/-- How many iterations a counted loop from `s` to `e` by the step `δ` runs: one for each
value not past `e`, and `none` when the step is zero and `s` is not past `e`. -/
def forCount (s e δ : Int) : Option Nat :=
  if 0 < δ then some (if s ≤ e then ((e - s) / δ).toNat + 1 else 0)
  else if δ < 0 then some (if e ≤ s then ((s - e) / -δ).toNat + 1 else 0)
  else if s ≤ e then none else some 0

/-- A floored quotient by `q` counts one more than that of `x - q` while `x` reaches `q`. -/
theorem ediv_toNat_eq {x q : Int} (hq : 0 < q) (hx : 0 ≤ x) :
    (x / q).toNat = if q ≤ x then ((x - q) / q).toNat + 1 else 0 := by
  by_cases hqx : q ≤ x
  · have step : x / q = (x - q) / q + 1 := by
      rw [← Int.add_mul_ediv_right (x - q) 1 (Int.ne_of_gt hq), Int.one_mul, Int.sub_add_cancel]
    have rest : 0 ≤ (x - q) / q := Int.ediv_nonneg (by omega) (Int.le_of_lt hq)
    rw [if_pos hqx, step]
    omega
  · rw [if_neg hqx, Int.ediv_eq_zero_of_lt hx (by omega)]
    rfl

/-- From a counter not past the end, the loop runs once more than from the next one. -/
theorem forCount_of_within {c e δ : Int} (h : if 0 ≤ δ then c ≤ e else e ≤ c) :
    forCount c e δ = (forCount (c + δ) e δ).map (· + 1) := by
  rcases Int.lt_trichotomy δ 0 with hδ | rfl | hδ
  · rw [if_neg (by omega)] at h
    have down : ¬0 < δ := by omega
    simp only [forCount, if_neg down, if_pos hδ, if_pos h, Option.map_some,
      ediv_toNat_eq (Int.neg_pos.mpr hδ) (Int.sub_nonneg.mpr h)]
    by_cases h' : e ≤ c + δ
    · rw [if_pos (by omega), if_pos h', show c - e - -δ = c + δ - e by omega]
    · rw [if_neg (by omega), if_neg h']
  · simp only [forCount, Int.lt_irrefl, if_false, Int.add_zero]
    rw [if_pos (by simpa using h)]
    rfl
  · rw [if_pos (Int.le_of_lt hδ)] at h
    simp only [forCount, if_pos hδ, if_pos h, Option.map_some,
      ediv_toNat_eq hδ (Int.sub_nonneg.mpr h)]
    by_cases h' : c + δ ≤ e
    · rw [if_pos (by omega), if_pos h', show e - c - δ = e - (c + δ) by omega]
    · rw [if_neg (by omega), if_neg h']

/-- From a counter past the end, the loop does not run. -/
theorem forCount_of_past {c e δ : Int} (h : ¬if 0 ≤ δ then c ≤ e else e ≤ c) :
    forCount c e δ = some 0 := by
  by_cases hδ : 0 ≤ δ
  · rw [if_pos hδ] at h
    by_cases hp : 0 < δ
    · simp [forCount, hp, h]
    · simp [forCount, h, show δ = 0 by omega]
  · rw [if_neg hδ] at h
    simp [forCount, show ¬0 < δ by omega, show δ < 0 by omega, h]

namespace Run

/-- On integers, the loop's test is the comparison with the end in the step's direction. -/
theorem inRange_int (c e δ : Int) :
    inRange (.int c) (.int e) (.int δ) = decide (if 0 ≤ δ then c ≤ e else e ≤ c) := by
  simp only [inRange, Value.compareExact, compare, compareOfLessAndEq]
  by_cases hδ : δ < 0
  · have down : ¬0 ≤ δ := by omega
    by_cases h : c < e <;> by_cases h' : c = e <;> simp [hδ, down, h, h'] <;> omega
  · have up : 0 ≤ δ := by omega
    by_cases h : c < e <;> by_cases h' : c = e <;> by_cases hz : δ = 0 <;>
      simp [hδ, up, h, h', hz] <;> omega

variable (cfg : RunConfig)

/-- One iteration of a counted loop with its counter at `v`: a step, the counter set, the
snapshot that starts the iteration at the loop's line, then the body. -/
def iteration (body : Run Unit) (line : Nat) (name : String) (v : Value) : Run Unit := do
  beginIteration cfg line
  setEnv (·.setVar name v)
  record line ("繰り返し: " ++ name ++ " = " ++ (← textOf v) ++ " として開始します。")
  body

variable {cfg} {body : Run Unit} {line : Nat} {name : String} {e δ : Int}

theorem counted_within {left : Nat} {c : Int} (h : if 0 ≤ δ then c ≤ e else e ≤ c) :
    counted cfg body (left + 1) line name (.int e) (.int δ) (.int c) =
      iteration cfg body line name (.int c) >>= fun _ =>
        counted cfg body left line name (.int e) (.int δ) (.int (c + δ)) := by
  rw [counted, inRange_int, decide_eq_true h, if_pos rfl]
  simp only [iteration, bind_assoc]
  rfl

theorem counted_past {left : Nat} {c : Int} (h : ¬if 0 ≤ δ then c ≤ e else e ≤ c) :
    counted cfg body (left + 1) line name (.int e) (.int δ) (.int c) = pure () := by
  rw [counted, inRange_int, decide_eq_false h]
  rfl

/-- The iterations from `c` are the one at `c`, then those from `c + δ`. -/
theorem forM_range_succ_shift {c : Int} (n : Nat) (f : Int → Run Unit) :
    ((List.range (n + 1)).forM fun k => f (c + k * δ)) =
      f c >>= fun _ => (List.range n).forM fun k => f (c + δ + k * δ) := by
  have shift : ∀ k : Nat, c + ((k.succ : Nat) : Int) * δ = c + δ + k * δ := by
    intro k
    rw [Nat.succ_eq_add_one, Int.natCast_add, Int.natCast_one, Int.add_mul, Int.one_mul]
    omega
  rw [List.range_succ_eq_map, List.forM_eq_forM, List.forM_cons, List.forM_map]
  simp only [Int.natCast_zero, Int.zero_mul, Int.add_zero, shift]

/-- With more iterations left than it counts, a loop runs exactly its count. -/
theorem counted_finishes : ∀ (n left : Nat) (c : Int), forCount c e δ = some n → n < left →
    counted cfg body left line name (.int e) (.int δ) (.int c) =
      (List.range n).forM fun k => iteration cfg body line name (.int (c + k * δ)) := by
  intro n
  induction n with
  | zero =>
    intro left c hn hl
    obtain ⟨left, rfl⟩ : ∃ l, left = l + 1 := ⟨left - 1, by omega⟩
    have past : ¬if 0 ≤ δ then c ≤ e else e ≤ c := fun within => by
      rw [forCount_of_within within] at hn
      cases h : forCount (c + δ) e δ <;> simp [h] at hn
    rw [counted_past past]
    rfl
  | succ n ih =>
    intro left c hn hl
    obtain ⟨left, rfl⟩ : ∃ l, left = l + 1 := ⟨left - 1, by omega⟩
    have within : if 0 ≤ δ then c ≤ e else e ≤ c := Classical.byContradiction fun past => by
      rw [forCount_of_past past] at hn
      cases hn
    have next : forCount (c + δ) e δ = some n := by
      rw [forCount_of_within within] at hn
      cases h : forCount (c + δ) e δ <;> simp [h] at hn ⊢
      exact hn
    rw [counted_within within, ih left (c + δ) next (by omega),
      forM_range_succ_shift n fun v => iteration cfg body line name (.int v)]

/-- With no more iterations left than it counts, a loop runs them all, then stops on the
budget. -/
theorem counted_exhausts : ∀ (left : Nat) (c : Int), (∀ n, forCount c e δ = some n → left ≤ n) →
    counted cfg body left line name (.int e) (.int δ) (.int c) =
      ((List.range left).forM fun k => iteration cfg body line name (.int (c + k * δ))) >>=
        fun _ => throw .budget := by
  intro left
  induction left with
  | zero =>
    intro c _
    rw [counted]
    rfl
  | succ left ih =>
    intro c hc
    have within : if 0 ≤ δ then c ≤ e else e ≤ c := Classical.byContradiction fun past => by
      have := hc 0 (forCount_of_past past)
      omega
    have rest : ∀ n, forCount (c + δ) e δ = some n → left ≤ n := fun n hn => by
      have := hc (n + 1) (by rw [forCount_of_within within, hn]; rfl)
      omega
    rw [counted_within within, ih (c + δ) rest,
      forM_range_succ_shift left fun v => iteration cfg body line name (.int v), bind_assoc]

/-- An iteration that begins has taken one step, within the budget. -/
theorem beginIteration_ok {m m' : Machine} {u : Unit}
    (h : (beginIteration cfg line).run.run m = (.ok u, m')) :
    m'.steps = m.steps + 1 ∧ m.steps + 1 ≤ cfg.maxSteps.toNat := by
  unfold beginIteration at h
  rw [run_bind, tick_run] at h
  by_cases hs : cfg.maxSteps < ((m.steps + 1 : Nat) : Int)
  · rw [if_pos hs] at h
    cases h
  · rw [if_neg hs] at h
    cases h
    exact ⟨rfl, by omega⟩

/-- An iteration that returns has taken at least one step, and its first within the
budget. -/
theorem iteration_steps (hbody : Grows body) {v : Value} {m m' : Machine}
    (h : (iteration cfg body line name v).run.run m = (.ok (), m')) :
    m.steps + 1 ≤ m'.steps ∧ m.steps + 1 ≤ cfg.maxSteps.toNat := by
  rw [iteration, run_bind] at h
  rcases hb : (beginIteration cfg line).run.run m with ⟨_ | u, m₁⟩
  · rw [hb] at h
    cases h
  · rw [hb] at h
    obtain ⟨stepped, within⟩ := beginIteration_ok hb
    have rest := Grows.extends_of_run ((grows_setEnv _).bind fun _ =>
      (quiet_textOf v).grows.bind fun _ => (grows_record _ _).bind fun _ => hbody) h
    exact ⟨by have := rest.steps; omega, within⟩

/-- Iterations that all return have taken a step each, the last within the budget. -/
theorem iterations_steps {α : Type} (hbody : Grows body) (f : α → Value) :
    ∀ (ks : List α) {m m' : Machine},
      (ks.forM fun k => iteration cfg body line name (f k)).run.run m = (.ok (), m') →
        m.steps + ks.length ≤ m'.steps ∧ (ks ≠ [] → m.steps + ks.length ≤ cfg.maxSteps.toNat) := by
  intro ks
  induction ks with
  | nil =>
    intro m m' h
    cases h
    exact ⟨Nat.le_refl _, fun h => absurd rfl h⟩
  | cons k ks ih =>
    intro m m' h
    simp only [List.forM] at h
    rw [run_bind] at h
    rcases hk : (iteration cfg body line name (f k)).run.run m with ⟨_ | u, m₁⟩
    · rw [hk] at h
      cases h
    · rw [hk] at h
      obtain ⟨stepped, within⟩ := iteration_steps hbody hk
      obtain ⟨later, bounded⟩ := ih h
      simp only [List.length_cons]
      refine ⟨by omega, fun _ => ?_⟩
      cases ks with
      | nil => simpa using within
      | cons k' ks =>
        have := bounded (List.cons_ne_nil k' ks)
        simp only [List.length_cons] at this ⊢
        omega

/-- More iterations than the budget has steps never all return. -/
theorem iterations_stop {α : Type} (hbody : Grows body) (f : α → Value) (ks : List α)
    (hks : cfg.maxSteps.toNat < ks.length) (m : Machine) :
    ((ks.forM fun k => iteration cfg body line name (f k)).run.run m).1 ≠ .ok () := by
  intro finished
  rcases hr : (ks.forM fun k => iteration cfg body line name (f k)).run.run m with ⟨r, m'⟩
  rw [hr] at finished
  subst finished
  have := (iterations_steps hbody f ks hr).2 (List.ne_nil_of_length_pos (by omega))
  omega

theorem forM_range_split {L N : Nat} (hL : L ≤ N) (g : Nat → Run Unit) :
    (List.range N).forM g =
      (List.range L).forM g >>= fun _ => ((List.range (N - L)).map (L + ·)).forM g := by
  obtain ⟨d, rfl⟩ := Nat.exists_eq_add_of_le hL
  rw [List.range_add, List.forM_eq_forM, List.forM_append, Nat.add_sub_cancel_left]

/-- A loop capped past the budget runs as its count of iterations, or, when it never
ends, as any number of them beyond the budget. -/
theorem counted_runs (hbody : Grows body) {bound N : Nat} {s : Int}
    (hbound : cfg.maxSteps.toNat < bound)
    (hN : forCount s e δ = some N ∨ (forCount s e δ = none ∧ cfg.maxSteps.toNat < N))
    (m : Machine) :
    (counted cfg body bound line name (.int e) (.int δ) (.int s)).run.run m =
      ((List.range N).forM fun k => iteration cfg body line name (.int (s + k * δ))).run.run m := by
  by_cases fits : forCount s e δ = some N ∧ N < bound
  · rw [counted_finishes N bound s fits.1 fits.2]
  · have long : ∀ n, forCount s e δ = some n → bound ≤ n := by
      intro n hn
      rcases hN with h | ⟨h, _⟩
      · rw [h] at hn
        cases hn
        exact Nat.le_of_not_lt fun short => fits ⟨h, short⟩
      · rw [h] at hn
        cases hn
    have past : cfg.maxSteps.toNat < min N bound := by
      rcases hN with h | ⟨_, hN⟩
      · have := long N h
        omega
      · omega
    -- both runs stop within their first `min N bound` iterations, which they share
    rw [counted_exhausts bound s long, forM_range_split (Nat.min_le_right N bound),
      forM_range_split (Nat.min_le_left N bound), bind_assoc, run_bind, run_bind]
    rcases hr : ((List.range (min N bound)).forM fun k =>
      iteration cfg body line name (.int (s + k * δ))).run.run m with ⟨_ | u, m'⟩
    · rfl
    · exact absurd (congrArg Prod.fst hr)
        (iterations_stop hbody _ _ (by simpa using past) m)

/-- A for-loop statement whose start, end and step evaluate to integers `s`, `e` and `d`
takes its step, reports the diagnostics of the three evaluations, then runs exactly
`forCount s e δ` iterations, `δ` being `d` or, counting down, `-d`; the `k`-th sets the
counter to `s + k * δ`. A loop with no count runs as more iterations than the budget
allows, and never completes. -/
theorem forLoop_iterates {bound depth line : Nat} {text c : String} {a b d : SourceExpr}
    {desc : Bool} {body : List Stmt} {m : Machine} {s e dv δ : Int} {da db dd : List Diagnostic}
    (hbound : cfg.maxSteps.toNat < bound)
    (ha : a.evaluate (depth + 2) cfg.policy m.env line = .ok (.int s, da))
    (hb : b.evaluate (depth + 2) cfg.policy m.env line = .ok (.int e, db))
    (hd : d.evaluate (depth + 2) cfg.policy m.env line = .ok (.int dv, dd))
    (hδ : δ = if desc then -dv else dv) :
    (∀ N, (forCount s e δ = some N ∨ (forCount s e δ = none ∧ cfg.maxSteps.toNat < N)) →
      (stmt cfg bound depth (.loop ⟨line, text, .forLoop c a b d desc⟩ body)).run.run m =
        (do
          tick cfg line
          (da ++ db ++ dd).forM (note ·)
          (List.range N).forM fun k =>
            iteration cfg (block cfg bound (depth + 2) body) line c (.int (s + k * δ))).run.run m) ∧
    (forCount s e δ = none →
      ((stmt cfg bound depth (.loop ⟨line, text, .forLoop c a b d desc⟩ body)).run.run m).1 ≠
        .ok ()) := by
  have grows : Grows (block cfg bound (depth + 2) body) :=
    ((block_lockstep (Int.le_refl _) rfl bound bound hbound).1 (depth + 2) body 0).grows
  have step : (if desc then Value.applyUn .neg (.int dv) else .int dv) = .int δ := by
    cases desc <;> simp [hδ, Value.applyUn]
  have runs : ∀ N, (forCount s e δ = some N ∨ (forCount s e δ = none ∧ cfg.maxSteps.toNat < N)) →
      (stmt cfg bound depth (.loop ⟨line, text, .forLoop c a b d desc⟩ body)).run.run m =
        (do
          tick cfg line
          (da ++ db ++ dd).forM (note ·)
          (List.range N).forM fun k =>
            iteration cfg (block cfg bound (depth + 2) body) line c (.int (s + k * δ))).run.run m := by
    intro N hN
    rw [stmt.eq_def]
    dsimp only
    rw [if_pos (show Form.executes (.forLoop c a b d desc) = true from rfl)]
    refine tick_bind_run ?_
    -- the step leaves the environment the three expressions were evaluated in
    rw [evalAt_bind_run ha, evalAt_bind_run hb, evalAt_bind_run hd, step,
        counted_runs grows hbound hN, run_bind, run_forM_note]
    · simp only [← List.append_toArray, Array.append_assoc]
    all_goals rfl
  refine ⟨runs, fun never => ?_⟩
  rw [runs (cfg.maxSteps.toNat + 1) (Or.inr ⟨never, Nat.lt_succ_self _⟩), run_bind, tick_run]
  by_cases hs : cfg.maxSteps < ((m.steps + 1 : Nat) : Int)
  · rw [if_pos hs]
    intro stopped
    cases stopped
  · rw [if_neg hs]
    dsimp only
    rw [run_bind, run_forM_note]
    exact iterations_stop grows (fun k : Nat => Value.int (s + k * δ))
      (List.range (cfg.maxSteps.toNat + 1))
      (show cfg.maxSteps.toNat < (List.range (cfg.maxSteps.toNat + 1)).length by simp) _

/-- Counting down from 10 to 1 by 3 runs four iterations, at 10, 7, 4 and 1. -/
theorem forLoop_iterates_down_by_threes :
    let cfg : RunConfig := ⟨100, .lenient⟩
    let loop : Stmt := .loop ⟨1, "i を 10 から 1 まで 3 ずつ減らしながら，",
      .forLoop "i" ⟨"10", .ok (.num (.int 10))⟩ ⟨"1", .ok (.num (.int 1))⟩
        ⟨"3", .ok (.num (.int 3))⟩ true⟩ []
    forCount 10 1 (-3) = some 4 ∧
      (stmt cfg 101 0 loop).run.run {} =
        (do
          tick cfg 1
          ([] ++ [] ++ []).forM (note ·)
          (List.range 4).forM fun k =>
            iteration cfg (block cfg 101 2 []) 1 "i" (.int (10 + k * -3))).run.run {} := by
  intro cfg loop
  have four : forCount 10 1 (-3) = some 4 := by decide
  exact ⟨four, (forLoop_iterates (by decide) rfl rfl rfl rfl).1 4 (Or.inl four)⟩

end Run

end DnclTrace
