import DnclTrace.Proofs.Run.Logic
import DnclTrace.Proofs.Run.Acts
import DnclTrace.Program.Outline

/-!
# What a run keeps

Between two statements of a run over the statements `T`, the machine is `Sound`: its
snapshots are numbered from zero, each recorded by an action of a statement of `T` and
following the one before it by that action's effect alone (`Recorded`), the state is
the last snapshot's, no snapshot carries the completion text, the diagnostics are the
starting ones followed by entries that are no budget reports, and the steps taken stay
within the budget. Between an action's effect and its snapshot the machine is
`Pending`; when the budget runs out it is `Exhausted`: one step past the budget, stopped
by the tick of a statement that steps, taken when the budget was used up (`TickedPast`).

Each kind of statement keeps the machine sound (`assign_sound`, …); loops do so for
every number of iterations left, which is never exhausted before the budget
(`counted_sound`, `repeated_sound`); and so does every block (`block_sound`), by
induction along the run's own recursion.
-/

namespace DnclTrace.Run

variable (cfg : RunConfig) (T : List Stmt) (D : Array Diagnostic)

/-- What every machine of the run keeps, whether it goes on or stops on the budget. -/
structure Kept (m : Machine) : Prop where
  indexed : ∀ i (h : i < m.snapshots.size), m.snapshots[i].stepIndex = i
  recorded : ∃ acts : List Act, (∀ a ∈ acts, ∃ s ∈ T, a.IssuedBy s) ∧
    Recorded {} acts m.snapshots.toList
  synced : m.env = lastEnv {} m.snapshots.toList
  plain : ∀ s ∈ m.snapshots.toList, s.description ≠ completionText
  noted : ∃ ds : List Diagnostic, (∀ d ∈ ds, d.kind ≠ .stepBudgetExhausted) ∧
    m.diagnostics = D ++ ds.toArray

/-- The machine between two statements, after at least `k` steps. -/
structure Sound (k : Nat) (m : Machine) : Prop extends Kept T D m where
  floor : k ≤ m.steps
  live : m.steps ≤ cfg.maxSteps.toNat

/-- The machine between the effect of the action `a` and its snapshot. -/
structure Pending (a : Act) (k : Nat) (m : Machine) : Prop where
  sound : Sound cfg T D k { m with env := lastEnv {} m.snapshots.toList }
  issued : ∃ s ∈ T, a.IssuedBy s
  allowed : a.Allowed (lastEnv {} m.snapshots.toList)
  effect : m.env = a.effect (lastEnv {} m.snapshots.toList)

/-- The machine `m` is the tick of `s` that went past the budget: the machine before it had
taken exactly `maxSteps` steps, and the tick took one more, at the line of `s`. -/
def TickedPast (maxSteps : Int) (s : Stmt) (m : Machine) : Prop :=
  ∃ m₀ : Machine, m₀.steps = maxSteps.toNat ∧
    m = { m₀ with currentLine := s.head.line, steps := m₀.steps + 1 }

/-- The machine stopped on the budget: one step past it, by the tick of a statement of `T`
that steps. -/
structure Exhausted (m : Machine) : Prop extends Kept T D m where
  exceeded : m.steps = cfg.maxSteps.toNat + 1
  ticked : ∃ s ∈ T, Form.executes s.head.form ∧ TickedPast cfg.maxSteps s m

/-- What a stop leaves: an exhausted machine on the budget, and within the budget on a
strict failure or a fault. -/
def Stopped : Halt → Machine → Prop
  | .budget, m => Exhausted cfg T D m
  | _, m => m.steps ≤ cfg.maxSteps.toNat

/-- Running `x` keeps the machine sound, whatever the steps taken before it. -/
def Keeps {α : Type} (x : Run α) : Prop :=
  ∀ k, Triple (Sound cfg T D k) x (Exits (fun _ => Sound cfg T D k) (Stopped cfg T D))

variable {cfg T D}

theorem Kept.noted_of {m m' : Machine} (hm : Kept T D m) (h : Noted m m') : Kept T D m' := by
  obtain ⟨ds, hds, rfl⟩ := h
  obtain ⟨es, hes, heq⟩ := hm.noted
  refine ⟨hm.indexed, hm.recorded, hm.synced, hm.plain, ⟨es ++ ds, ?_, ?_⟩⟩
  · intro d hd
    rcases List.mem_append.1 hd with hd | hd
    · exact hes d hd
    · exact hds d hd
  · simp [heq, Array.append_assoc]

/-- The counters of a machine are no part of what it keeps. -/
theorem Kept.counters {m : Machine} (h : Kept T D m) (steps loops line : Nat) :
    Kept T D { m with steps := steps, loopIterations := loops, currentLine := line } :=
  ⟨h.indexed, h.recorded, h.synced, h.plain, h.noted⟩

theorem Sound.settled {k : Nat} : Settled (Sound cfg T D k) := by
  intro m m' h hm
  have kept := hm.toKept.noted_of h
  obtain ⟨ds, -, rfl⟩ := h
  exact ⟨kept, hm.floor, hm.live⟩

theorem Sound.mono {k k' : Nat} {m : Machine} (h : Sound cfg T D k m) (hk : k' ≤ k) :
    Sound cfg T D k' m :=
  ⟨h.toKept, Nat.le_trans hk h.floor, h.live⟩

theorem Pending.settled {a : Act} {k : Nat} : Settled (Pending cfg T D a k) := by
  intro m m' h hm
  obtain ⟨ds, hds, rfl⟩ := h
  exact ⟨Sound.settled _ _ ⟨ds, hds, rfl⟩ hm.sound, hm.issued, hm.allowed, hm.effect⟩

/-- A quiet computation keeps any settled property that bounds the steps by the budget. -/
theorem Quiet.keeps {α : Type} {x : Run α} {P : Machine → Prop} (hx : Quiet x) (hP : Settled P)
    (hlive : ∀ m, P m → m.steps ≤ cfg.maxSteps.toNat) :
    Triple P x (Exits (fun _ => P) (Stopped cfg T D)) := by
  refine (hx.triple hP).weaken (fun _ h => h) fun r m h => ?_
  cases r with
  | ok a => exact h
  | error e =>
    obtain ⟨he, hm⟩ := h
    cases e with
    | budget => exact absurd rfl he
    | failed d => exact hlive m hm
    | fault f => exact hlive m hm

theorem Sound.quiet {α : Type} {x : Run α} {k : Nat} (hx : Quiet x) :
    Triple (Sound cfg T D k) x (Exits (fun _ => Sound cfg T D k) (Stopped cfg T D)) :=
  hx.keeps Sound.settled fun _ h => h.live

theorem Pending.quiet {α : Type} {x : Run α} {a : Act} {k : Nat} (hx : Quiet x) :
    Triple (Pending cfg T D a k) x (Exits (fun _ => Pending cfg T D a k) (Stopped cfg T D)) :=
  hx.keeps Pending.settled fun _ h => h.sound.live

/-- A step at the line of a statement of `T` that steps: one more step, or a stop on the
budget exactly one step past it. -/
theorem sound_tick (s : Stmt) (hs : s ∈ T) (hx : Form.executes s.head.form) {k : Nat} :
    Triple (Sound cfg T D k) (tick cfg s.head.line)
      (Exits (fun _ => Sound cfg T D (k + 1)) (Stopped cfg T D)) := by
  refine Triple.tick fun m hm => ⟨fun exceeded => ?_, fun kept => ?_⟩
  · -- the tick went past the budget, so the machine before it had used up the budget
    have live := hm.live
    have used : m.steps = cfg.maxSteps.toNat := by simp only at exceeded; omega
    exact ⟨hm.toKept.counters _ _ _, by simp only; omega, ⟨s, hs, hx, m, used, rfl⟩⟩
  · have floor := hm.floor
    exact ⟨hm.toKept.counters _ _ _, by simp only; omega, by simp only at kept ⊢; omega⟩

theorem sound_beginIteration (s : Stmt) (hs : s ∈ T) (hx : Form.executes s.head.form) {k : Nat} :
    Triple (Sound cfg T D k) (beginIteration cfg s.head.line)
      (Exits (fun _ => Sound cfg T D (k + 1)) (Stopped cfg T D)) :=
  (sound_tick s hs hx).bind fun _ => Triple.update fun _ hm => ⟨hm.toKept.counters _ _ _, hm.floor, hm.live⟩

/-- The effect of an action of a statement of `T`, allowed in the current state. -/
theorem setEnv_pending {P : Machine → Prop} {f : Env → Env} (a : Act) {k : Nat}
    (hP : ∀ m, P m → Sound cfg T D k m ∧ (∃ s ∈ T, a.IssuedBy s) ∧ a.Allowed m.env ∧
      f m.env = a.effect m.env) :
    Triple P (setEnv f) (Exits (fun _ => Pending cfg T D a k) (Stopped cfg T D)) := by
  refine Triple.setEnv fun m hm => ?_
  obtain ⟨sound, issued, allowed, hf⟩ := hP m hm
  have back : ({ m with env := lastEnv {} m.snapshots.toList } : Machine) = m := by
    rw [← sound.synced]
  refine ⟨?_, issued, ?_, ?_⟩
  · show Sound cfg T D k { m with env := lastEnv {} m.snapshots.toList }
    rw [back]
    exact sound
  · show a.Allowed (lastEnv {} m.snapshots.toList)
    rw [← sound.synced]
    exact allowed
  · show f m.env = a.effect (lastEnv {} m.snapshots.toList)
    rw [← sound.synced]
    exact hf

/-- An action that changes nothing is pending as soon as it is taken. -/
theorem Sound.pending {a : Act} {k : Nat} {m : Machine} (hm : Sound cfg T D k m)
    (issued : ∃ s ∈ T, a.IssuedBy s) (allowed : a.Allowed m.env) (heff : a.effect m.env = m.env) :
    Pending cfg T D a k m := by
  have back : ({ m with env := lastEnv {} m.snapshots.toList } : Machine) = m := by
    rw [← hm.synced]
  refine ⟨by rw [back]; exact hm, issued, ?_, ?_⟩
  · rw [← hm.synced]; exact allowed
  · rw [← hm.synced, heff]

/-- A snapshot numbered by the count before it keeps the snapshots numbered from zero. -/
theorem indexed_push {ss : Array Snapshot} {s : Snapshot}
    (h : ∀ i (hi : i < ss.size), ss[i].stepIndex = i) (hs : s.stepIndex = ss.size) :
    ∀ i (hi : i < (ss.push s).size), (ss.push s)[i].stepIndex = i := by
  intro i hi
  rw [Array.getElem_push]
  split
  · exact h i ‹_›
  · simp only [Array.size_push] at hi
    rw [hs]
    omega

/-- The snapshot of a pending action, at its line, with a description other than the
completion text. -/
theorem record_pending {a : Act} {k line : Nat} {text : String} (hline : a.line = line)
    (htext : text ≠ completionText) :
    Triple (Pending cfg T D a k) (record line text)
      (Exits (fun _ => Sound cfg T D k) (Stopped cfg T D)) := by
  refine Triple.record fun m hm => ?_
  obtain ⟨⟨⟨indexed, ⟨acts, issued, recorded⟩, -, plain, noted⟩, floor, live⟩, issuedBy, allowed,
    effect⟩ := hm
  refine ⟨⟨?_, ⟨acts ++ [a], ?_, ?_⟩, ?_, ?_, noted⟩, floor, live⟩
  · exact indexed_push indexed rfl
  · intro b hb
    rcases List.mem_append.1 hb with hb | hb
    · exact issued b hb
    · rw [List.mem_singleton.1 hb]
      exact issuedBy
  · rw [Array.toList_push]
    exact recorded.snoc ⟨allowed, hline.symm, by rw [Env.snapshot_env]; exact effect⟩
  · simp [Array.toList_push]
  · intro s hs
    rw [Array.toList_push] at hs
    rcases List.mem_append.1 hs with hs | hs
    · exact plain s hs
    · rw [List.mem_singleton.1 hs]
      exact htext

/-- A text that starts with another character than the completion text is not it. -/
theorem ne_completionText {s : String} (c : Char) (h : s.toList.head? = some c) (hc : c ≠ 'プ') :
    s ≠ completionText := by
  rintro rfl
  have first : completionText.toList.head? = some 'プ' := by decide
  rw [first] at h
  exact hc (Option.some.inj h).symm

/-- A successful element write replaces one element inside a declared array. -/
theorem Env.writeIndex_some {env env' : Env} {name : String} {pos v : Value}
    (h : env.writeIndex name pos v = some env') :
    ∃ vs j, env.arrays.lookup name = some vs ∧ j < vs.length ∧
      env' = env.declareArray name (vs.set j v) := by
  unfold Env.writeIndex at h
  split at h
  · rename_i vs hlook
    split at h
    · rename_i j hslot
      cases h
      unfold Env.slot? at hslot
      split at hslot
      · split at hslot
        · cases hslot
          exact ⟨vs, _, hlook, by omega, rfl⟩
        · cases hslot
      · cases hslot
    · cases h
  · cases h

section Handlers

variable {depth line : Nat} {text target : String} {k : Nat}

theorem assign_sound {value : SourceExpr} (hs : Stmt.single ⟨line, text, .assign target value⟩ ∈ T) :
    Triple (Sound cfg T D k) (assign cfg depth line target value)
      (Exits (fun _ => Sound cfg T D k) (Stopped cfg T D)) := by
  unfold assign
  refine (Sound.quiet (quiet_arraysDeclared _ _ _ _)).bind fun _ =>
    Triple.cond (fun _ => Triple.ret fun _ h => h) fun _ => ?_
  refine (Sound.quiet (quiet_evalAt _ _ _ _)).bind fun v => ?_
  refine (setEnv_pending (.assign line target v) fun m hm =>
    ⟨hm, ⟨_, hs, rfl, rfl⟩, trivial, rfl⟩).bind fun _ => ?_
  refine (Pending.quiet (quiet_textOf v)).bind fun _ => ?_
  exact record_pending rfl (ne_completionText '『' (by simp [String.toList_append]) (by decide))

theorem declare_sound {elements : List SourceExpr}
    (hs : Stmt.single ⟨line, text, .arrayDeclare target elements⟩ ∈ T) :
    Triple (Sound cfg T D k) (declare cfg depth line target elements)
      (Exits (fun _ => Sound cfg T D k) (Stopped cfg T D)) := by
  unfold declare
  refine (Sound.quiet (quiet_arraysDeclared _ _ _ _)).bind fun _ =>
    Triple.cond (fun _ => Triple.ret fun _ h => h) fun _ => ?_
  refine (Triple.mapM (fun e => Sound.quiet (quiet_evalAt _ _ _ _)) elements).bind fun vs => ?_
  refine (setEnv_pending (.declare line target vs) fun m hm =>
    ⟨hm.2, ⟨_, hs, rfl, rfl, hm.1⟩, trivial, rfl⟩).bind fun _ => ?_
  refine (Pending.quiet (quiet_mapM quiet_textOf vs)).bind fun _ => ?_
  exact record_pending rfl (ne_completionText '配' (by simp [String.toList_append]) (by decide))

theorem store_sound {index value : SourceExpr}
    (hs : Stmt.single ⟨line, text, .indexAssign target index value⟩ ∈ T) :
    Triple (Sound cfg T D k) (store cfg depth line target index value)
      (Exits (fun _ => Sound cfg T D k) (Stopped cfg T D)) := by
  unfold store
  refine (Triple.read fun _ h => h).bind fun _ => Triple.cond (fun _ => ?_) fun _ => ?_
  · exact (Sound.quiet (quiet_absorb cfg line .undeclaredArray nofun _)).bind fun _ =>
      Triple.ret fun _ h => h
  refine (Sound.quiet (quiet_arraysDeclared _ _ _ _)).bind fun _ =>
    Triple.cond (fun _ => Triple.ret fun _ h => h) fun _ => ?_
  refine (Sound.quiet (quiet_evalAt _ _ _ _)).bind fun i => ?_
  refine (Sound.quiet (quiet_evalAt _ _ _ _)).bind fun v => ?_
  refine Triple.read_self.bind fun mg => ?_
  cases hw : mg.env.writeIndex target i v with
  | none =>
    refine ((Sound.quiet (quiet_textOf i)).bind fun _ =>
      Sound.quiet (quiet_absorb cfg line .indexOutOfRange nofun _)).weaken (fun _ h => h.1) ?_
    exact fun _ _ h => h
  | some env =>
    obtain ⟨vs, j, hlook, hj, rfl⟩ := Env.writeIndex_some hw
    have write : Triple (fun m => Sound cfg T D k m ∧ mg = m)
        (setEnv fun _ => mg.env.declareArray target (vs.set j v))
        (Exits (fun _ => Pending cfg T D (.store line target j v) k) (Stopped cfg T D)) := by
      refine setEnv_pending _ fun m hm => ?_
      obtain ⟨sound, rfl⟩ := hm
      exact ⟨sound, ⟨_, hs, rfl, rfl⟩, ⟨vs, hlook, hj⟩, by simp [Act.effect, hlook]⟩
    refine write.bind fun _ => ?_
    refine (Pending.quiet (quiet_textOf i)).bind fun _ => ?_
    refine (Pending.quiet (quiet_textOf v)).bind fun _ => ?_
    exact record_pending rfl (ne_completionText '『' (by simp [String.toList_append]) (by decide))

theorem output_sound {parts : List OutputPart} (hs : Stmt.single ⟨line, text, .output parts⟩ ∈ T) :
    Triple (Sound cfg T D k) (output cfg depth line parts)
      (Exits (fun _ => Sound cfg T D k) (Stopped cfg T D)) := by
  unfold output
  refine (Sound.quiet (quiet_arraysDeclared _ _ _ _)).bind fun _ =>
    Triple.cond (fun _ => Triple.ret fun _ h => h) fun _ => ?_
  refine (Sound.quiet (quiet_mapM (fun p => ?_) parts)).bind fun ps => ?_
  · -- a piece is a literal or the text of an expression's value
    cases p with
    | literal t => exact quiet_pure t
    | expr e => exact (quiet_evalAt _ _ _ _).bind quiet_textOf
  refine (setEnv_pending (.output line (String.join ps)) fun m hm =>
    ⟨hm, ⟨_, hs, rfl⟩, trivial, rfl⟩).bind fun _ => ?_
  exact record_pending rfl (ne_completionText '「' (by simp [String.toList_append]) (by decide))

theorem simple_sound {c : Classified} (hs : Stmt.single c ∈ T) :
    Triple (Sound cfg T D k) (simple cfg depth c) (Exits (fun _ => Sound cfg T D k) (Stopped cfg T D)) := by
  obtain ⟨line, text, form⟩ := c
  cases form with
  | assign t v => exact assign_sound hs
  | arrayDeclare t es => exact declare_sound hs
  | indexAssign t i v => exact store_sound hs
  | output ps => exact output_sound hs
  | _ => exact Triple.ret fun _ h => h

end Handlers

/-- A postcondition after more steps is one after fewer. -/
theorem Triple.lower {α : Type} {P : Machine → Prop} {x : Run α} {k k' : Nat}
    (h : Triple P x (Exits (fun _ => Sound cfg T D k') (Stopped cfg T D))) (hk : k ≤ k') :
    Triple P x (Exits (fun _ => Sound cfg T D k) (Stopped cfg T D)) :=
  h.weaken (fun _ h => h) fun r _ h => by
    cases r with
    | ok a => exact Sound.mono h hk
    | error e => exact h

/-- The snapshot of an action that changes nothing and is always allowed. -/
theorem record_sound {a : Act} {k line : Nat} {text : String} (hline : a.line = line)
    (htext : text ≠ completionText) (issued : ∃ s ∈ T, a.IssuedBy s) (hall : ∀ e, a.Allowed e)
    (heff : ∀ e, a.effect e = e) :
    Triple (Sound cfg T D k) (record line text) (Exits (fun _ => Sound cfg T D k) (Stopped cfg T D)) :=
  (record_pending hline htext).weaken (fun _ hm => hm.pending issued (hall _) (heff _)) fun _ _ h => h

section Loops

variable {body : Run Unit} {depth line : Nat} {text : String} {bd : List Stmt}

/-- The iterations of a counted loop keep the machine sound while the steps taken and the
iterations left together pass the budget, so the iterations never run out first. -/
theorem counted_sound {name : String} {a b d : SourceExpr} {desc : Bool}
    (hs : Stmt.loop ⟨line, text, .forLoop name a b d desc⟩ bd ∈ T) (hbody : Keeps cfg T D body)
    (stop step : Value) :
    ∀ left counter k, cfg.maxSteps.toNat < k + left →
      Triple (Sound cfg T D k) (counted cfg body left line name stop step counter)
        (Exits (fun _ => Sound cfg T D k) (Stopped cfg T D)) := by
  intro left counter
  fun_induction counted cfg body left line name stop step counter with
  | case1 counter =>
    intro k hk
    exact Triple.halt fun m hm => absurd (Nat.le_trans hm.floor hm.live) (by omega)
  | case2 counter left inside ih =>
    intro k hk
    refine (sound_beginIteration _ hs rfl).bind fun _ => ?_
    refine (setEnv_pending (.forStep line name counter) fun m hm =>
      ⟨hm, ⟨_, hs, rfl, rfl⟩, trivial, rfl⟩).bind fun _ => ?_
    refine (Pending.quiet (quiet_textOf counter)).bind fun _ => ?_
    refine (record_pending rfl (ne_completionText '繰' (by simp [String.toList_append])
      (by decide))).bind fun _ => ?_
    refine (hbody (k + 1)).bind fun _ => ?_
    split
    · exact (ih _ (k + 1) (by omega)).lower (by omega)
    · exact Triple.halt fun _ hm => hm.live
  | case3 counter left outside =>
    intro k hk
    exact Triple.ret fun _ h => h

/-- The iterations of a conditional loop, likewise. -/
theorem repeated_sound {cond : SourceExpr} (hs : Stmt.loop ⟨line, text, .whileLoop cond⟩ bd ∈ T)
    (hbody : Keeps cfg T D body) :
    ∀ left k, cfg.maxSteps.toNat < k + left →
      Triple (Sound cfg T D k) (repeated cfg body left depth line cond)
        (Exits (fun _ => Sound cfg T D k) (Stopped cfg T D)) := by
  intro left
  induction left with
  | zero =>
    intro k hk
    rw [repeated]
    exact Triple.halt fun m hm => absurd (Nat.le_trans hm.floor hm.live) (by omega)
  | succ left ih =>
    intro k hk
    rw [repeated]
    refine (Sound.quiet (quiet_evalAt _ _ _ _)).bind fun _ =>
      Triple.cond (fun _ => ?_) fun _ => Triple.ret fun _ h => h
    refine (sound_beginIteration _ hs rfl).bind fun _ => ?_
    refine (record_sound (a := .whileStep line) rfl (ne_completionText '条'
      (by simp [String.toList_append]) (by decide)) ⟨_, hs, rfl⟩ (fun _ => trivial)
      fun _ => rfl).bind fun _ => ?_
    refine (hbody (k + 1)).bind fun _ => ?_
    exact (ih (k + 1) (by omega)).lower (by omega)

end Loops

/-- Every block and every statement of a run over the statements `T`, with a cap on
iterations above the budget, keeps the machine sound. By induction along the run's own
recursion: a statement steps first, then runs its handler, its loop or its branches. -/
theorem block_sound (bound : Nat) (hb : cfg.maxSteps.toNat < bound) :
    (∀ depth ss, Stmt.walk ss ⊆ T → Keeps cfg T D (block cfg bound depth ss)) ∧
    (∀ depth s, Stmt.walkOne s ⊆ T → Keeps cfg T D (stmt cfg bound depth s)) := by
  refine block.mutual_induct cfg bound _ _ ?single ?inert ?loop ?inertLoop ?branch ?inertBranch
    ?nil ?cons
  case single =>
    intro depth c hx hw k
    have hs : Stmt.single c ∈ T := hw (by simp [Stmt.walkOne])
    rw [stmt, if_pos hx]
    exact (sound_tick _ hs hx).bind fun _ => (simple_sound hs).lower (by omega)
  case inert =>
    intro depth c hx _ k
    rw [stmt, if_neg hx]
    exact Triple.ret fun _ h => h
  case loop =>
    intro depth line text form body hx ih hw k
    have hs : Stmt.loop ⟨line, text, form⟩ body ∈ T := hw (by simp [Stmt.walkOne])
    have hbody : Stmt.walk body ⊆ T := fun x hx => hw (by simp [Stmt.walkOne, hx])
    rw [stmt.eq_def]
    dsimp only
    rw [if_pos hx]
    refine (sound_tick (.loop ⟨line, text, form⟩ body) hs hx).bind fun _ => ?_
    cases form with
    | forLoop name a b d desc =>
      refine (Sound.quiet (quiet_evalAt _ _ _ _)).bind fun _ => ?_
      refine (Sound.quiet (quiet_evalAt _ _ _ _)).bind fun _ => ?_
      refine (Sound.quiet (quiet_evalAt _ _ _ _)).bind fun _ => ?_
      exact (counted_sound hs (ih hbody) _ _ _ _ _ (by omega)).lower (by omega)
    | whileLoop cond => exact (repeated_sound hs (ih hbody) _ _ (by omega)).lower (by omega)
    | _ => exact Triple.ret fun _ h => h.mono (by omega)
  case inertLoop =>
    intro depth line text form body hx _ _ k
    cases form <;> first | exact absurd rfl hx | exact Triple.ret fun _ h => h
  case branch =>
    intro depth line text body orElse cond ihBody ihElse hw k
    have hs : Stmt.branch ⟨line, text, .conditional cond⟩ body orElse ∈ T :=
      hw (by simp [Stmt.walkOne])
    have hbody : Stmt.walk body ⊆ T := fun x hx => hw (by simp [Stmt.walkOne, hx])
    rw [stmt.eq_def]
    dsimp only
    refine (sound_tick (.branch ⟨line, text, .conditional cond⟩ body orElse) hs rfl).bind
      fun _ => ?_
    refine (Sound.quiet (quiet_evalAt _ _ _ _)).bind fun _ => ?_
    refine (record_sound (a := .decision line) rfl (ne_completionText '条'
      (by simp [String.toList_append]) (by decide)) ⟨_, hs, rfl⟩ (fun _ => trivial)
      fun _ => rfl).bind fun _ => ?_
    refine Triple.cond (fun _ => (ihBody hbody (k + 1)).lower (by omega)) fun _ => ?_
    cases orElse with
    | some b =>
      have helse : Stmt.walk b ⊆ T := fun x hx => hw (by simp [Stmt.walkOne, Stmt.walkElse, hx])
      exact (ihElse helse (k + 1)).lower (by omega)
    | none => exact Triple.ret fun _ h => h.mono (by omega)
  case inertBranch =>
    intro depth line text form body orElse hc _ k
    cases form <;> first | exact absurd rfl (hc _) | exact Triple.ret fun _ h => h
  case nil =>
    intro depth _ k
    exact Triple.ret fun _ h => h
  case cons =>
    intro depth s rest ihs ihr hw k
    have hws : Stmt.walkOne s ⊆ T := fun x hx => hw (by simp [Stmt.walk, hx])
    have hwr : Stmt.walk rest ⊆ T := fun x hx => hw (by simp [Stmt.walk, hx])
    rw [block]
    exact (ihs hws k).bind fun _ => ihr hwr k

end DnclTrace.Run
