import DnclTrace.Trace.Run

/-!
# What a snapshot records

Every snapshot of a run is recorded by one action and differs from the state before it
by that action's effect alone: an assignment, or the start of an iteration of a counted
loop, sets one variable; a declaration sets one array; an element assignment replaces
one element of a declared array, inside it; an output appends one console line; the
start of an iteration of a conditional loop, a decided conditional and the end of the
run change nothing.

`Recorded e acts ss` says that the snapshots `ss` follow one another from the state `e`,
each by the effect of its action in `acts`; `Act.IssuedBy` ties an action to the
statement that performs it. Setting a variable or an array replaces its entry where it
stands, or appends it last (`setEntry_keys`, `setEntry_of_not_mem`).
-/

namespace DnclTrace

theorem setEntry_keys {α : Type} (k : String) (v : α) (es : List (String × α))
    (h : k ∈ es.map Prod.fst) : (setEntry k v es).map Prod.fst = es.map Prod.fst := by
  induction es with
  | nil => simp at h
  | cons e rest ih =>
    obtain ⟨k', v'⟩ := e
    by_cases hk : k' = k
    · simp [setEntry, hk]
    · have hrest : k ∈ rest.map Prod.fst := by
        simp only [List.map_cons, List.mem_cons] at h
        exact h.resolve_left (Ne.symm hk)
      simp [setEntry, hk, ih hrest]

theorem setEntry_of_not_mem {α : Type} (k : String) (v : α) (es : List (String × α))
    (h : k ∉ es.map Prod.fst) : setEntry k v es = es ++ [(k, v)] := by
  induction es with
  | nil => rfl
  | cons e rest ih =>
    obtain ⟨k', v'⟩ := e
    simp only [List.map_cons, List.mem_cons, not_or] at h
    simp [setEntry, Ne.symm h.1, ih h.2]

/-- The state a snapshot shows. -/
def Snapshot.env (s : Snapshot) : Env := ⟨s.vars, s.arrays, s.console⟩

@[simp] theorem Env.snapshot_env (e : Env) (i : Int) (line : Nat) (text : String) :
    (e.snapshot i line text).env = e := rfl

/-- The state shown by the last of the snapshots, `e` when there is none. -/
def lastEnv (e : Env) (ss : List Snapshot) : Env := (ss.getLast?.map Snapshot.env).getD e

@[simp] theorem lastEnv_nil (e : Env) : lastEnv e [] = e := rfl

theorem lastEnv_cons (e : Env) (s : Snapshot) (ss : List Snapshot) :
    lastEnv e (s :: ss) = lastEnv s.env ss := by
  cases ss with
  | nil => rfl
  | cons t ts => simp [lastEnv, List.getLast?_cons]

@[simp] theorem lastEnv_append_singleton (e : Env) (ss : List Snapshot) (s : Snapshot) :
    lastEnv e (ss ++ [s]) = s.env := by
  simp [lastEnv]

/-- The action that records a snapshot, with the line it is recorded at. -/
inductive Act where
  /-- A variable assigned. -/
  | assign (line : Nat) (name : String) (v : Value)
  /-- An array declared with its elements. -/
  | declare (line : Nat) (name : String) (vs : List Value)
  /-- An element of an array written at a position. -/
  | store (line : Nat) (name : String) (i : Nat) (v : Value)
  /-- A console line printed. -/
  | output (line : Nat) (text : String)
  /-- An iteration of a counted loop begun with its counter. -/
  | forStep (line : Nat) (name : String) (v : Value)
  /-- An iteration of a conditional loop begun. -/
  | whileStep (line : Nat)
  /-- A conditional decided. -/
  | decision (line : Nat)
  /-- The run completed. -/
  | finish (line : Nat)

namespace Act

/-- The line an action is recorded at. -/
def line : Act → Nat
  | .assign l .. | .declare l .. | .store l .. | .output l _ | .forStep l .. => l
  | .whileStep l | .decision l | .finish l => l

/-- What an action does to the state. -/
def effect : Act → Env → Env
  | .assign _ x v, e | .forStep _ x v, e => e.setVar x v
  | .declare _ a vs, e => e.declareArray a vs
  | .store _ a i v, e => match e.arrays.lookup a with
    | some vs => e.declareArray a (vs.set i v)
    | none => e
  | .output _ t, e => e.print t
  | .whileStep _, e | .decision _, e | .finish _, e => e

/-- An element is only written inside a declared array. -/
def Allowed : Act → Env → Prop
  | .store _ a i _, e => ∃ vs, e.arrays.lookup a = some vs ∧ i < vs.length
  | _, _ => True

/-- The statement performs the action: same line, same kind, same target, and for a
declaration one element per element expression. -/
def IssuedBy : Act → Stmt → Prop
  | .assign l x _, .single ⟨l', _, .assign x' _⟩ => l = l' ∧ x = x'
  | .declare l x vs, .single ⟨l', _, .arrayDeclare x' es⟩ => l = l' ∧ x = x' ∧ vs.length = es.length
  | .store l x _ _, .single ⟨l', _, .indexAssign x' _ _⟩ => l = l' ∧ x = x'
  | .output l _, .single ⟨l', _, .output _⟩ => l = l'
  | .forStep l x _, .loop ⟨l', _, .forLoop x' ..⟩ _ => l = l' ∧ x = x'
  | .whileStep l, .loop ⟨l', _, .whileLoop _⟩ _ => l = l'
  | .decision l, .branch ⟨l', _, .conditional _⟩ _ _ => l = l'
  | _, _ => False

/-- The snapshot `s` follows the state `e` by the action: allowed there, at its line,
with its effect and nothing else. -/
structure Records (a : Act) (e : Env) (s : Snapshot) : Prop where
  allowed : a.Allowed e
  line : s.line = a.line
  effect : s.env = a.effect e

end Act

/-- The snapshots `ss` follow one another from the state `e`, each by the effect of its
action in `acts`. -/
inductive Recorded : Env → List Act → List Snapshot → Prop
  | nil (e : Env) : Recorded e [] []
  | cons {e : Env} {a : Act} {s : Snapshot} {acts : List Act} {ss : List Snapshot} :
      a.Records e s → Recorded s.env acts ss → Recorded e (a :: acts) (s :: ss)

theorem Recorded.snoc {e : Env} {acts : List Act} {ss : List Snapshot} {a : Act} {s : Snapshot}
    (h : Recorded e acts ss) (ha : a.Records (lastEnv e ss) s) :
    Recorded e (acts ++ [a]) (ss ++ [s]) := by
  induction h with
  | nil e => exact .cons ha (.nil _)
  | cons hs _ ih =>
    rw [lastEnv_cons] at ha
    exact .cons hs (ih ha)

end DnclTrace
