import DnclTrace.Trace.Run
import DnclTrace.Proofs.Env.Elements

/-!
# Evaluation reads only what an expression names

Of the environment, an expression reads the variables it names and the arrays it reads
through an index (`Expr.arrayNames`), nothing else. Two environments that agree on
those (`Env.AgreeOn`: an array counts as agreed when it is declared in both with the same
elements, or in neither) evaluate the expression alike, to the same value, the same
evaluation error or the same fault (`Expr.eval_congr`); this holds at every depth, since
even the calls an element read takes depend on the array's entry alone.

So when every array an expression reads is declared, its outcome never rests on what an
undeclared array reads as: declaring further arrays leaves it unchanged
(`SourceExpr.evalStrict_of_declared`). The run checks exactly that before it evaluates a
statement's expressions (`Run.declared_of_undeclaredIn`).

Main statement: `SourceExpr.evalStrict_reads_named`.
-/

namespace DnclTrace

/-- The variables an expression names, in reading order, repeats kept. -/
def Expr.varNames : Expr → List String
  | .num _ => []
  | .var n => [n]
  | .index _ p => varNames p
  | .unary _ e => varNames e
  | .binary _ l r => varNames l ++ varNames r

/-- The variables a written expression names; none when it has no tree. -/
def SourceExpr.varNames (e : SourceExpr) : List String :=
  match e.tree with
  | .ok t => t.varNames
  | .error _ => []

namespace Env

/-- Two environments agree on what `e` reads: each variable it names has the same value in
both, or is unset in both, and each array it reads through an index is declared in both
with the same elements, or in neither. -/
structure AgreeOn (e : Expr) (E₁ E₂ : Env) : Prop where
  vars : ∀ n ∈ e.varNames, E₁.var? n = E₂.var? n
  arrays : ∀ a ∈ e.arrayNames, E₁.arrays.lookup a = E₂.arrays.lookup a

namespace AgreeOn

variable {E₁ E₂ : Env}

theorem var {n : String} (h : AgreeOn (.var n) E₁ E₂) : E₁.var? n = E₂.var? n :=
  h.vars n (List.mem_singleton_self n)

theorem array {a : String} {p : Expr} (h : AgreeOn (.index a p) E₁ E₂) :
    E₁.arrays.lookup a = E₂.arrays.lookup a :=
  h.arrays a List.mem_cons_self

theorem position {a : String} {p : Expr} (h : AgreeOn (.index a p) E₁ E₂) : AgreeOn p E₁ E₂ :=
  ⟨h.vars, fun b hb => h.arrays b (List.mem_cons_of_mem a hb)⟩

theorem operand {op : UnOp} {e : Expr} (h : AgreeOn (.unary op e) E₁ E₂) : AgreeOn e E₁ E₂ :=
  ⟨h.vars, h.arrays⟩

theorem left {op : BinOp} {l r : Expr} (h : AgreeOn (.binary op l r) E₁ E₂) : AgreeOn l E₁ E₂ :=
  ⟨fun n hn => h.vars n (List.mem_append_left _ hn),
    fun a ha => h.arrays a (List.mem_append_left _ ha)⟩

theorem right {op : BinOp} {l r : Expr} (h : AgreeOn (.binary op l r) E₁ E₂) : AgreeOn r E₁ E₂ :=
  ⟨fun n hn => h.vars n (List.mem_append_right _ hn),
    fun a ha => h.arrays a (List.mem_append_right _ ha)⟩

end AgreeOn

/-- The calls an element read takes depend on the array's entry alone. -/
theorem readSteps_congr {E₁ E₂ : Env} {name : String}
    (h : E₁.arrays.lookup name = E₂.arrays.lookup name) (pos : Value) :
    E₁.readSteps name pos = E₂.readSteps name pos := by
  simp only [readSteps, h]

end Env

/-- Evaluation gives the same outcome, at every depth, in two environments that agree on
what the expression reads. -/
theorem Expr.eval_congr {E₁ E₂ : Env} (e : Expr) (room : Nat) (h : Env.AgreeOn e E₁ E₂) :
    e.eval E₁ room = e.eval E₂ room := by
  induction e generalizing room with
  | num v => rfl
  | var n => simp only [eval, h.var]
  | index a p ih =>
    simp only [eval, ih (room - 2) h.position, Env.readSteps_congr h.array,
      Env.readIndex_congr h.array]
  | unary op e ih => simp only [eval, ih (room - 2) h.operand]
  | binary op l r ihl ihr => simp only [eval, ihl (room - 2) h.left, ihr (room - 2) h.right]

namespace SourceExpr

variable {e : SourceExpr}

/-- Strict evaluation gives the same outcome in two environments that agree on the
variables and arrays the expression reads. -/
theorem evalStrict_congr {E₁ E₂ : Env} (depth : Nat)
    (hv : ∀ n ∈ e.varNames, E₁.var? n = E₂.var? n)
    (ha : ∀ a ∈ e.arrayNames, E₁.arrays.lookup a = E₂.arrays.lookup a) :
    e.evalStrict depth E₁ = e.evalStrict depth E₂ := by
  rcases ht : e.tree with err | t
  · simp only [evalStrict, ht]
  · simp only [varNames, ht] at hv
    simp only [arrayNames, ht] at ha
    simp only [evalStrict, ht]
    exact t.eval_congr _ ⟨hv, ha⟩

/-- When every array an expression reads is declared, declaring further arrays, with any
elements, leaves its evaluation unchanged: it never reads an undeclared array. -/
theorem evalStrict_of_declared {E E' : Env} (depth : Nat)
    (hd : ∀ a ∈ e.arrayNames, E.hasArray a)
    (hv : ∀ n ∈ e.varNames, E'.var? n = E.var? n)
    (hkeep : ∀ a vs, E.arrays.lookup a = some vs → E'.arrays.lookup a = some vs) :
    e.evalStrict depth E' = e.evalStrict depth E := by
  refine evalStrict_congr depth hv fun a ha => ?_
  obtain ⟨vs, hvs⟩ := Option.isSome_iff_exists.1 (hd a ha)
  rw [hvs, hkeep a vs hvs]

/-- Listing an expression's arrays gives `arrayNames` whenever it succeeds. -/
theorem arrayNamesAt_ok {depth : Nat} {names : List String}
    (h : e.arrayNamesAt depth = .ok names) : names = e.arrayNames := by
  unfold arrayNamesAt at h
  unfold arrayNames
  rcases ht : e.tree with err | t
  · simp only [ht] at h
    cases h
    rfl
  · simp only [ht] at h
    by_cases hc : callLimit < depth + t.height + 2
    · simp [hc] at h
    · simp only [hc, if_false] at h
      cases h
      rfl

end SourceExpr

/-- The run's check for undeclared arrays passes only when every array the checked
expressions read is declared. -/
theorem Run.declared_of_undeclaredIn {depth : Nat} {E : Env} :
    ∀ {es : List SourceExpr}, Run.undeclaredIn depth E es = .ok none →
      ∀ e ∈ es, ∀ a ∈ e.arrayNames, E.hasArray a
  | [], _ => by simp
  | e :: es, h => by
    rw [Run.undeclaredIn] at h
    rcases hn : e.arrayNamesAt depth with f | names
    · rw [hn] at h
      cases h
    · rw [hn] at h
      simp only [bind, Except.bind] at h
      have hnames := SourceExpr.arrayNamesAt_ok hn
      rcases hf : names.find? (fun n => !E.hasArray n) with _ | n
      · -- the first expression's arrays are all declared; the rest are checked after it
        have hrest : Run.undeclaredIn depth E es = .ok none := by
          simpa only [hf] using h
        have hall := List.find?_eq_none.1 hf
        intro e' he' a ha
        rcases List.mem_cons.1 he' with rfl | he'
        · rw [← hnames] at ha
          simpa using hall a ha
        · exact declared_of_undeclaredIn hrest e' he' a ha
      · simp only [hf] at h
        cases h

/-- Strict evaluation reads of the environment only the variables an expression names and
the arrays it reads through an index: two environments that agree on those give the same
value, error or fault. So when every array it reads is declared, declaring further arrays
leaves the outcome unchanged, and the run's check for undeclared arrays, which passes only
then, covers every array evaluation can read. -/
theorem SourceExpr.evalStrict_reads_named (e : SourceExpr) (depth : Nat) :
    (∀ E₁ E₂ : Env, (∀ n ∈ e.varNames, E₁.var? n = E₂.var? n) →
      (∀ a ∈ e.arrayNames, E₁.arrays.lookup a = E₂.arrays.lookup a) →
      e.evalStrict depth E₁ = e.evalStrict depth E₂) ∧
    (∀ E E' : Env, (∀ a ∈ e.arrayNames, E.hasArray a) →
      (∀ n ∈ e.varNames, E'.var? n = E.var? n) →
      (∀ a vs, E.arrays.lookup a = some vs → E'.arrays.lookup a = some vs) →
      e.evalStrict depth E' = e.evalStrict depth E) ∧
    (∀ d E es, Run.undeclaredIn d E es = .ok none → e ∈ es → ∀ a ∈ e.arrayNames, E.hasArray a) :=
  ⟨fun _ _ => evalStrict_congr depth, fun _ _ => evalStrict_of_declared depth,
    fun _ _ _ h he => Run.declared_of_undeclaredIn h e he⟩

/-- `A[i] + x` evaluates alike in two environments that differ only in a variable and an
array it does not read. -/
theorem SourceExpr.evalStrict_reads_named_sum :
    let e : SourceExpr := ⟨"A[i] + x", .ok (.binary .add (.index "A" (.var "i")) (.var "x"))⟩
    let E₁ : Env := ⟨[("i", .int 0), ("x", .int 5)], [("A", [.int 3])], []⟩
    let E₂ : Env := ⟨[("y", .int 1), ("i", .int 0), ("x", .int 5)], [("B", []), ("A", [.int 3])], []⟩
    (∀ n ∈ e.varNames, E₁.var? n = E₂.var? n) ∧
      (∀ a ∈ e.arrayNames, E₁.arrays.lookup a = E₂.arrays.lookup a) ∧
      e.evalStrict 0 E₁ = e.evalStrict 0 E₂ := by
  intro e E₁ E₂
  have hv : ∀ n ∈ e.varNames, E₁.var? n = E₂.var? n := by
    intro n hn
    simp only [e, SourceExpr.varNames, Expr.varNames, List.mem_append, List.mem_singleton] at hn
    rcases hn with rfl | rfl <;> rfl
  have ha : ∀ a ∈ e.arrayNames, E₁.arrays.lookup a = E₂.arrays.lookup a := by
    intro a ha
    simp only [e, SourceExpr.arrayNames, Expr.arrayNames, List.append_nil, List.mem_singleton] at ha
    subst ha
    rfl
  exact ⟨hv, ha, (SourceExpr.evalStrict_reads_named e 0).1 E₁ E₂ hv ha⟩

end DnclTrace
