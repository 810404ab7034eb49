import DnclTrace.Env
import DnclTrace.Value.Arith

/-!
# Reading and writing array elements

An index names an element through the integer it equals: an integer names itself, a
real the integer it equals exactly, and a real with a fraction, an infinity or a NaN
names no element at all (`Value.position?_eq_some_iff`). A write succeeds exactly when
the array is declared and the position lies inside it (`Env.writeIndex_isSome_iff`). It
then replaces that one element and leaves every other element, every length, the
variables and the console as they were (`Env.writeIndex_overwrites`). A read gives the
stored element at exactly the positions a write would take, and `0` everywhere else: a
negative position never counts from the end of the array.

Main statement: `Env.readIndex_writeIndex_agree`.
-/

namespace DnclTrace

namespace Binary64

theorem intPow_two (k : Nat) : Int.pow 2 k = ((Nat.pow 2 k : Nat) : Int) := by
  show (2 : Int) ^ k = ((2 ^ k : Nat) : Int)
  simp

/-- An integer times a positive `p` is the natural number `a` exactly when `p` divides
`a` and the integer is the quotient. -/
theorem mul_eq_natCast_iff (a : Nat) {p : Nat} (hp : 0 < p) (n : Int) :
    n * p = a ↔ a % p = 0 ∧ ((a / p : Nat) : Int) = n := by
  constructor
  · intro h
    have hdvd : p ∣ a := Int.natCast_dvd_natCast.1 ⟨n, by rw [← h, Int.mul_comm]⟩
    refine ⟨Nat.mod_eq_zero_of_dvd hdvd, ?_⟩
    have hp' : (p : Int) ≠ 0 := by omega
    apply Int.eq_of_mul_eq_mul_right hp'
    rw [h]
    exact_mod_cast Nat.div_mul_cancel hdvd
  · rintro ⟨hmod, rfl⟩
    exact_mod_cast Nat.div_mul_cancel (Nat.dvd_of_mod_eq_zero hmod)

/-- A binary64 number is integral with integer part `n` exactly when it equals `n`. -/
theorem integral_iff_compareInt (x : Float) (n : Int) :
    (isIntegral x = true ∧ trunc? x = some n) ↔ compareInt n x = some .eq := by
  unfold isIntegral trunc? compareInt
  cases shape x with
  | finite neg man exp =>
    simp only [truncFinite, finiteRatio]
    by_cases he : 0 ≤ exp
    · -- `man · 2^exp` is an integer, and it is the integer part
      simp only [he, decide_true, Bool.true_or, if_true, true_and, Option.some.injEq, Nat.div_one,
        Int.compare_eq_eq, intPow_two]
      cases neg <;> simp [eq_comm, Int.neg_mul]
    · -- `man / 2^(-exp)` is an integer exactly when the power divides `man`
      have hp : 0 < Nat.pow 2 (-exp).toNat := Nat.two_pow_pos _
      simp only [he, decide_false, Bool.false_or, if_false, Option.some.injEq, beq_iff_eq,
        Int.compare_eq_eq, intPow_two]
      generalize Nat.pow 2 (-exp).toNat = p at *
      cases neg
      · simp only [Bool.false_eq_true, ↓reduceIte]
        exact (mul_eq_natCast_iff man hp n).symm
      · have h := mul_eq_natCast_iff man hp (-n)
        simp only [↓reduceIte, Int.neg_mul] at h ⊢
        constructor
        · rintro ⟨hm, hq⟩
          have := h.2 ⟨hm, by omega⟩
          omega
        · intro hn
          have := h.1 (by omega)
          exact ⟨this.1, by omega⟩
  | infinite neg => cases neg <;> simp
  | nan => simp

end Binary64

namespace Value

/-- A value names position `n` exactly when it equals the integer `n`. -/
theorem position?_eq_some_iff (v : Value) (n : Int) :
    v.position? = some n ↔ v.compareExact (.int n) = some .eq := by
  cases v with
  | int m => simp [position?, compareExact]
  | real x =>
    have hswap : (Binary64.compareInt n x).map Ordering.swap = some .eq ↔
        Binary64.compareInt n x = some .eq := by
      cases Binary64.compareInt n x with
      | none => simp
      | some o => cases o <;> decide
    rw [compareExact, hswap, ← Binary64.integral_iff_compareInt]
    unfold position?
    cases hi : Binary64.isIntegral x <;> simp [hi]

end Value

theorem lookup_setEntry_ne {α : Type} {k k' : String} (v : α) (es : List (String × α))
    (h : k' ≠ k) : (setEntry k v es).lookup k' = es.lookup k' := by
  induction es with
  | nil => simp [setEntry, List.lookup_cons, beq_false_of_ne h]
  | cons e rest ih =>
    obtain ⟨k'', v''⟩ := e
    by_cases hk : k'' = k
    · subst hk
      simp [setEntry, List.lookup_cons, beq_false_of_ne h]
    · simp only [setEntry, hk, if_false, List.lookup_cons, ih]

namespace Env

variable {env env' : Env} {A : String} {i v : Value}

/-- A position value names list index `k` of an array of length `len` exactly when it
equals `k` and `k` lies inside the array. -/
theorem slot?_eq_some_iff {len k : Nat} {pos : Value} :
    slot? len pos = some k ↔ pos.position? = some (k : Int) ∧ k < len := by
  unfold slot?
  cases pos.position? with
  | none => simp
  | some n =>
    by_cases h : 0 ≤ n ∧ n < len
    · simp only [h, and_self, if_true, Option.some.injEq]
      omega
    · simp only [h, if_false, reduceCtorEq, Option.some.injEq, false_iff]
      omega

/-- A write succeeds with exactly one environment: the array with the named element
replaced. -/
theorem writeIndex_eq_some_iff :
    env.writeIndex A i v = some env' ↔
      ∃ vs k, env.arrays.lookup A = some vs ∧ slot? vs.length i = some k ∧
        env' = env.declareArray A (vs.set k v) := by
  cases hl : env.arrays.lookup A with
  | none => simp [writeIndex, hl]
  | some vs =>
    cases hs : slot? vs.length i with
    | none => simp [writeIndex, hl, hs]
    | some k => simp [writeIndex, hl, hs, eq_comm]

theorem writeIndex_eq_none_iff :
    env.writeIndex A i v = none ↔ ∀ vs, env.arrays.lookup A = some vs → slot? vs.length i = none := by
  cases hl : env.arrays.lookup A with
  | none => simp [writeIndex, hl]
  | some vs => cases hs : slot? vs.length i <;> simp [writeIndex, hl, hs]

/-- A write succeeds exactly when the array is declared and the index names a position
inside it. -/
theorem writeIndex_isSome_iff :
    (env.writeIndex A i v).isSome ↔
      ∃ vs n, env.arrays.lookup A = some vs ∧ i.position? = some n ∧ 0 ≤ n ∧ n < vs.length := by
  rw [Option.isSome_iff_exists]
  constructor
  · rintro ⟨env', h⟩
    obtain ⟨vs, k, hl, hs, -⟩ := writeIndex_eq_some_iff.1 h
    obtain ⟨hp, hk⟩ := slot?_eq_some_iff.1 hs
    exact ⟨vs, k, hl, hp, by omega, by omega⟩
  · rintro ⟨vs, n, hl, hp, h0, hn⟩
    have hs : slot? vs.length i = some n.toNat :=
      slot?_eq_some_iff.2 ⟨by rw [hp, Int.toNat_of_nonneg h0], by omega⟩
    exact ⟨_, writeIndex_eq_some_iff.2 ⟨vs, n.toNat, hl, hs, rfl⟩⟩

/-- A read depends on the array's entry alone. -/
theorem readIndex_congr {E₁ E₂ : Env} {name : String}
    (h : E₁.arrays.lookup name = E₂.arrays.lookup name) (pos : Value) :
    E₁.readIndex name pos = E₂.readIndex name pos := by
  simp only [readIndex, h]

/-- At a position inside a declared array, a read gives the element stored there. -/
theorem readIndex_of_slot {vs : List Value} {k : Nat} (hl : env.arrays.lookup A = some vs)
    (hs : slot? vs.length i = some k) : vs[k]? = some (env.readIndex A i) := by
  have hk := (slot?_eq_some_iff.1 hs).2
  simp [readIndex, hl, hs, List.getD_eq_getElem?_getD, hk]

/-- Where a write would fail, a read gives `0`. -/
theorem readIndex_of_writeIndex_none (h : env.writeIndex A i v = none) :
    env.readIndex A i = .int 0 := by
  unfold readIndex
  cases hl : env.arrays.lookup A with
  | none => rfl
  | some vs => simp [writeIndex_eq_none_iff.1 h vs hl]

/-- What writing `v` at `A[i]` into `env` leaves in `env'`: every index naming that
position reads `v`; every other element, every array's length (and whether it is
declared), the variables and the console are as they were. -/
structure Overwrites (env' env : Env) (A : String) (i v : Value) : Prop where
  written : ∀ j, j.position? = i.position? → env'.readIndex A j = v
  others : ∀ B j, (B = A → j.position? ≠ i.position?) → env'.readIndex B j = env.readIndex B j
  lengths : ∀ B, (env'.arrays.lookup B).map List.length = (env.arrays.lookup B).map List.length
  vars : env'.vars = env.vars
  console : env'.console = env.console

theorem lookup_declareArray_ne {B : String} {vs : List Value} (h : B ≠ A) :
    (env.declareArray A vs).arrays.lookup B = env.arrays.lookup B :=
  lookup_setEntry_ne vs env.arrays h

/-- Replacing the element at `k` of the array changes the reads at position `k` only. -/
theorem declareArray_set_overwrites {vs : List Value} {k : Nat}
    (hl : env.arrays.lookup A = some vs) (hs : slot? vs.length i = some k) :
    (env.declareArray A (vs.set k v)).Overwrites env A i v := by
  obtain ⟨hp, hk⟩ := slot?_eq_some_iff.1 hs
  have hself : (env.declareArray A (vs.set k v)).arrays.lookup A = some (vs.set k v) :=
    lookup_setEntry A _ _
  refine ⟨fun j hj => ?_, fun B j hj => ?_, fun B => ?_, rfl, rfl⟩
  · -- the written position reads the new element
    have hjs : slot? (vs.set k v).length j = some k := by
      rw [List.length_set]
      exact slot?_eq_some_iff.2 ⟨hj.trans hp, hk⟩
    have := readIndex_of_slot hself hjs
    rw [List.getElem?_set_self hk] at this
    exact (Option.some.inj this).symm
  · by_cases hB : B = A
    · -- another position of the same array
      subst hB
      have hne : j.position? ≠ some (k : Int) := hp ▸ hj rfl
      simp only [readIndex, hself, hl, List.length_set]
      cases hjs : slot? vs.length j with
      | none => rfl
      | some k' =>
        have hk' : k ≠ k' := by
          rintro rfl
          exact hne (slot?_eq_some_iff.1 hjs).1
        simp only [List.getD_eq_getElem?_getD, List.getElem?_set_ne hk']
    · exact readIndex_congr (lookup_declareArray_ne hB) j
  · by_cases hB : B = A
    · subst hB
      simp [hself, hl]
    · rw [lookup_declareArray_ne hB]

/-- A successful write overwrites the one element it names. -/
theorem writeIndex_overwrites (h : env.writeIndex A i v = some env') : env'.Overwrites env A i v := by
  obtain ⟨vs, k, hl, hs, rfl⟩ := writeIndex_eq_some_iff.1 h
  exact declareArray_set_overwrites hl hs

/-- Element reads and writes agree on which positions exist. An index names the integer it
equals; a write succeeds exactly when the array is declared and that integer lies inside
it, and then replaces that one element and nothing else; a failed write leaves the
environment as it was; a read gives the stored element at exactly the positions a write
would take, and `0` at every other, negative positions included. -/
theorem readIndex_writeIndex_agree (env : Env) (A : String) (i v : Value) :
    (∀ n, i.position? = some n ↔ i.compareExact (.int n) = some .eq) ∧
    ((env.writeIndex A i v).isSome ↔
      ∃ vs n, env.arrays.lookup A = some vs ∧ i.position? = some n ∧ 0 ≤ n ∧ n < vs.length) ∧
    (∀ env', env.writeIndex A i v = some env' → env'.Overwrites env A i v) ∧
    (env.writeIndex A i v = none → (env.writeIndex A i v).getD env = env) ∧
    (∀ vs n, env.arrays.lookup A = some vs → i.position? = some n → 0 ≤ n → n < vs.length →
      vs[n.toNat]? = some (env.readIndex A i)) ∧
    (env.writeIndex A i v = none → env.readIndex A i = .int 0) := by
  refine ⟨i.position?_eq_some_iff, writeIndex_isSome_iff, fun _ => writeIndex_overwrites,
    fun h => by rw [h]; rfl, fun vs n hl hp h0 hn => ?_, readIndex_of_writeIndex_none⟩
  have hs : slot? vs.length i = some n.toNat :=
    slot?_eq_some_iff.2 ⟨by rw [hp, Int.toNat_of_nonneg h0], by omega⟩
  exact readIndex_of_slot hl hs

/-- Writing `9` at `A[1]` of `A = [7, 8]` overwrites the second element. -/
theorem readIndex_writeIndex_agree_second :
    (⟨[], [("A", [.int 7, .int 8])], []⟩ : Env).writeIndex "A" (.int 1) (.int 9) =
        some ⟨[], [("A", [.int 7, .int 9])], []⟩ ∧
      Overwrites ⟨[], [("A", [.int 7, .int 9])], []⟩ ⟨[], [("A", [.int 7, .int 8])], []⟩ "A"
        (.int 1) (.int 9) :=
  ⟨rfl, (readIndex_writeIndex_agree _ "A" (.int 1) (.int 9)).2.2.1 _ rfl⟩

end Env

end DnclTrace
