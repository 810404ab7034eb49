import DnclTrace.Proofs.Tree.Block
import DnclTrace.Program.Outline
import Mathlib.Data.List.Nodup

/-!
# Which lines a list of statements shows

Reading a stretch of lines shows some of them as statements, hides others (an else
marker that continues a conditional, the body of a stray marker) and skips the rest.
`Covers lines ts H S a b` says this of the statements `ts` (a walk, in reading order)
over the line indices from `a` up to `b`: their line numbers increase, lie in the
stretch, and show exactly the non-blank lines outside `H` and the blank lines in `S`,
where `H` holds only non-blank lines and `S` only blank ones.

Covers are built from one statement (`Covers.single`), a hidden marker
(`Covers.marker`), the body of a stray marker (`Covers.region`) and a blank stretch
(`Covers.blank`), and joined end to end (`Covers.append`). The walk of a tree is
taken apart with `Stmt.walkOne_eq` and `Stmt.walk_append`, and a statement of a walk
brings its own walk along (`Stmt.walkOne_subset_walk`).
-/

namespace DnclTrace

namespace Stmt

/-- The statements strictly below a statement, in reading order. -/
def descendants : Stmt → List Stmt
  | .single _ => []
  | .loop _ body => walk body
  | .branch _ body orElse => walk body ++ walkElse orElse

theorem walkOne_eq (s : Stmt) : walkOne s = s :: s.descendants := by
  cases s <;> simp [walkOne, descendants]

@[simp] theorem walkElse_none : walkElse none = [] := by
  simp [walkElse]

@[simp] theorem walkElse_some (b : List Stmt) : walkElse (some b) = walk b := by
  simp [walkElse]

@[simp] theorem descendants_single (c : Classified) : (single c).descendants = [] := rfl

@[simp] theorem descendants_loop (c : Classified) (body : List Stmt) :
    (loop c body).descendants = walk body := rfl

@[simp] theorem descendants_branch (c : Classified) (body : List Stmt) (orElse : Option (List Stmt)) :
    (branch c body orElse).descendants = walk body ++ walkElse orElse := rfl

@[simp] theorem walk_cons (s : Stmt) (rest : List Stmt) :
    walk (s :: rest) = walkOne s ++ walk rest := by
  simp [walk]

theorem walk_append (xs ys : List Stmt) : walk (xs ++ ys) = walk xs ++ walk ys := by
  induction xs with
  | nil => simp [walk]
  | cons s rest ih => simp [ih]

theorem mem_walk {t : Stmt} {ts : List Stmt} : t ∈ walk ts ↔ ∃ u ∈ ts, t ∈ walkOne u := by
  induction ts with
  | nil => simp [walk]
  | cons s rest ih => simp [ih]

theorem mem_walkOne_self (s : Stmt) : s ∈ walkOne s := by
  rw [walkOne_eq]
  exact List.mem_cons_self

/-- A statement met in a walk brings its own walk along. -/
theorem walkOne_subset_walkOne {t u : Stmt} (h : t ∈ walkOne u) : walkOne t ⊆ walkOne u := by
  -- the walk of a statement of a subtree lies inside the walk of the subtree, at every
  -- level of the mutual recursion
  have key := walk.mutual_induct
    (fun ts => ∀ t ∈ walk ts, walkOne t ⊆ walk ts)
    (fun u => ∀ t ∈ walkOne u, walkOne t ⊆ walkOne u)
    (fun e => ∀ t ∈ walkElse e, walkOne t ⊆ walkElse e)
    (fun c t ht => by simp [walkOne] at ht; simp [ht])
    (fun c body ih t ht => by
      rw [walkOne, List.mem_cons] at ht
      rcases ht with rfl | ht
      · exact List.Subset.refl _
      · rw [walkOne]
        exact List.subset_cons_of_subset _ (ih t ht))
    (fun c body orElse ihb ihe t ht => by
      rw [walkOne, List.mem_cons, List.mem_append] at ht
      rcases ht with rfl | ht | ht
      · exact List.Subset.refl _
      · rw [walkOne]
        exact List.subset_cons_of_subset _ (List.subset_append_of_subset_left _ (ihb t ht))
      · rw [walkOne]
        exact List.subset_cons_of_subset _ (List.subset_append_of_subset_right _ (ihe t ht)))
    (fun t ht => by simp [walk] at ht)
    (fun s rest ihs ihr t ht => by
      rw [walk_cons, List.mem_append] at ht
      rw [walk_cons]
      rcases ht with ht | ht
      · exact List.subset_append_of_subset_left _ (ihs t ht)
      · exact List.subset_append_of_subset_right _ (ihr t ht))
    (fun t ht => by simp [walkElse] at ht)
    (fun b ih t ht => by
      rw [walkElse] at ht ⊢
      exact ih t ht)
  exact key.2.1 u t h

theorem walkOne_subset_walk {t : Stmt} {ts : List Stmt} (h : t ∈ walk ts) :
    walkOne t ⊆ walk ts := by
  obtain ⟨u, hu, ht⟩ := mem_walk.1 h
  intro x hx
  exact mem_walk.2 ⟨u, hu, walkOne_subset_walkOne ht hx⟩

theorem walk_subset_walkOne_loop (c : Classified) (body : List Stmt) :
    walk body ⊆ walkOne (.loop c body) := by
  rw [walkOne_eq]
  exact List.subset_cons_of_subset _ (List.Subset.refl _)

theorem walk_subset_walkOne_branch (c : Classified) (body : List Stmt) (orElse : Option (List Stmt)) :
    walk body ⊆ walkOne (.branch c body orElse) := by
  rw [walkOne_eq]
  exact List.subset_cons_of_subset _ (List.subset_append_left _ _)

theorem walkElse_subset_walkOne_branch (c : Classified) (body : List Stmt)
    (orElse : Option (List Stmt)) : walkElse orElse ⊆ walkOne (.branch c body orElse) := by
  rw [walkOne_eq]
  exact List.subset_cons_of_subset _ (List.subset_append_right _ _)

end Stmt

/-- Two statements of a list whose line numbers increase, at the same line, are one. -/
theorem eq_of_line_eq {ts : List Stmt} (hs : (ts.map (·.head.line)).Pairwise (· < ·))
    {t t' : Stmt} (ht : t ∈ ts) (ht' : t' ∈ ts) (hl : t.head.line = t'.head.line) : t = t' :=
  List.inj_on_of_nodup_map (hs.imp Nat.ne_of_lt) ht ht' hl

variable (lines : Array SourceLine)

/-- Over the line indices from `a` up to `b`, the statements `ts` show, in increasing
order, exactly the non-blank lines outside `H` and the blank lines in `S`. -/
structure Covers (ts : List Stmt) (H S : Nat → Prop) (a b : Nat) : Prop where
  sorted : (ts.map (·.head.line)).Pairwise (· < ·)
  range : ∀ t ∈ ts, a < t.head.line ∧ t.head.line ≤ b
  shown : ∀ j, a ≤ j → j < b → (j + 1 ∈ ts.map (·.head.line) ↔
    (Block.blankAt lines j = false ∧ ¬H j) ∨ (Block.blankAt lines j = true ∧ S j))
  hidden : ∀ j, H j → a ≤ j ∧ j < b ∧ Block.blankAt lines j = false
  blanks : ∀ j, S j → a ≤ j ∧ j < b ∧ Block.blankAt lines j = true

namespace Covers

variable {lines}
variable {ts ts₁ ts₂ : List Stmt} {H H₁ H₂ S S₁ S₂ : Nat → Prop} {a b m : Nat}

theorem lt_of_mem_lines (h : Covers lines ts H S a b) {ℓ : Nat}
    (hl : ℓ ∈ ts.map (·.head.line)) : a < ℓ ∧ ℓ ≤ b := by
  obtain ⟨t, ht, rfl⟩ := List.mem_map.1 hl
  exact h.range t ht

/-- The line of a statement of the cover is shown: a non-blank line it does not hide, or a
blank line it shows. -/
theorem shown_of_mem (h : Covers lines ts H S a b) {t : Stmt} (ht : t ∈ ts) :
    (Block.blankAt lines (t.head.line - 1) = false ∧ ¬H (t.head.line - 1)) ∨
      (Block.blankAt lines (t.head.line - 1) = true ∧ S (t.head.line - 1)) := by
  have := h.range t ht
  refine (h.shown (t.head.line - 1) (by omega) (by omega)).1 ?_
  rw [Nat.sub_add_cancel (by omega)]
  exact List.mem_map_of_mem ht

/-- A stretch of blank lines shows nothing. -/
theorem blank (hb : ∀ j, a ≤ j → j < b → Block.blankAt lines j = true) :
    Covers lines [] (fun _ => False) (fun _ => False) a b where
  sorted := List.Pairwise.nil
  range := nofun
  shown j h₁ h₂ := by simp [hb j h₁ h₂]
  hidden := nofun
  blanks := nofun

/-- One statement at its own line. -/
theorem single (s : Stmt) {i : Nat} (hs : s.head.line = i + 1) :
    Covers lines [s] (fun _ => False) (fun j => j = i ∧ Block.blankAt lines i = true) i (i + 1) where
  sorted := List.pairwise_singleton _ _
  range t ht := by
    rw [List.mem_singleton.1 ht, hs]
    omega
  shown j h₁ h₂ := by
    have hj : j = i := by omega
    subst hj
    cases hb : Block.blankAt lines j <;> simp [hs]
  hidden := nofun
  blanks j hj := by
    obtain ⟨rfl, hb⟩ := hj
    exact ⟨Nat.le_refl _, Nat.lt_succ_self _, hb⟩

/-- A non-blank line taken without being shown. -/
theorem marker {k : Nat} (hk : Block.blankAt lines k = false) :
    Covers lines [] (fun j => j = k) (fun _ => False) k (k + 1) where
  sorted := List.Pairwise.nil
  range := nofun
  shown j h₁ h₂ := by
    have hj : j = k := by omega
    subst hj
    simp [hk]
  hidden j hj := by
    subst hj
    exact ⟨Nat.le_refl _, Nat.lt_succ_self _, hk⟩
  blanks := nofun

/-- The body of a line, taken without being shown, up to where reading resumes. -/
theorem region {i d : Nat} :
    Covers lines [] (fun j => j ∈ Block.bodyAfter lines i d) (fun _ => False) (i + 1)
      (Block.after i (Block.bodyAfter lines i d)) where
  sorted := List.Pairwise.nil
  range := nofun
  shown j h₁ h₂ := by
    cases hb : Block.blankAt lines j with
    | true => simp
    | false =>
      have hmem := Block.mem_bodyAfter_of_lt_after (Nat.lt_of_succ_le h₁) h₂ hb
      simp [hmem]
  hidden j hj := by
    obtain ⟨h₁, -, hb⟩ := Block.mem_bodyAfter.1 hj
    exact ⟨h₁, Block.lt_after_of_mem hj, hb⟩
  blanks := nofun

/-- Covers of adjacent stretches join. -/
theorem append (h₁ : Covers lines ts₁ H₁ S₁ a m) (h₂ : Covers lines ts₂ H₂ S₂ m b)
    (ham : a ≤ m) (hmb : m ≤ b) :
    Covers lines (ts₁ ++ ts₂) (fun j => H₁ j ∨ H₂ j) (fun j => S₁ j ∨ S₂ j) a b where
  sorted := by
    rw [List.map_append, List.pairwise_append]
    refine ⟨h₁.sorted, h₂.sorted, fun x hx y hy => ?_⟩
    have := h₁.lt_of_mem_lines hx
    have := h₂.lt_of_mem_lines hy
    omega
  range t ht := by
    rcases List.mem_append.1 ht with ht | ht
    · have := h₁.range t ht
      omega
    · have := h₂.range t ht
      omega
  shown j hj₁ hj₂ := by
    rw [List.map_append, List.mem_append]
    by_cases hj : j < m
    · -- below `m` only the first part shows or hides anything
      have hn₂ : j + 1 ∉ ts₂.map (·.head.line) := fun hl => by
        have := h₂.lt_of_mem_lines hl
        omega
      have hH₂ : ¬H₂ j := fun hh => by
        have := (h₂.hidden j hh).1
        omega
      have hS₂ : ¬S₂ j := fun hs => by
        have := (h₂.blanks j hs).1
        omega
      rw [h₁.shown j hj₁ hj]
      simp [hn₂, hH₂, hS₂]
    · have hn₁ : j + 1 ∉ ts₁.map (·.head.line) := fun hl => by
        have := h₁.lt_of_mem_lines hl
        omega
      have hH₁ : ¬H₁ j := fun hh => by
        have := (h₁.hidden j hh).2.1
        omega
      have hS₁ : ¬S₁ j := fun hs => by
        have := (h₁.blanks j hs).2.1
        omega
      rw [h₂.shown j (Nat.le_of_not_lt hj) hj₂]
      simp [hn₁, hH₁, hS₁]
  hidden j hj := by
    rcases hj with hj | hj
    · obtain ⟨h₁', h₂', h₃'⟩ := h₁.hidden j hj
      exact ⟨h₁', by omega, h₃'⟩
    · obtain ⟨h₁', h₂', h₃'⟩ := h₂.hidden j hj
      exact ⟨by omega, h₂', h₃'⟩
  blanks j hj := by
    rcases hj with hj | hj
    · obtain ⟨h₁', h₂', h₃'⟩ := h₁.blanks j hj
      exact ⟨h₁', by omega, h₃'⟩
    · obtain ⟨h₁', h₂', h₃'⟩ := h₂.blanks j hj
      exact ⟨by omega, h₂', h₃'⟩

/-- The same lines shown, with the hidden and shown blank lines described by equivalent
predicates. -/
theorem of_iff {H' S' : Nat → Prop} (h : Covers lines ts H S a b) (hH : ∀ j, H j ↔ H' j)
    (hS : ∀ j, S j ↔ S' j) : Covers lines ts H' S' a b := by
  obtain rfl : H = H' := funext fun j => propext (hH j)
  obtain rfl : S = S' := funext fun j => propext (hS j)
  exact h

/-- A cover ends early when the rest of its stretch is blank and shows no blank line. -/
theorem shrink {c : Nat} (h : Covers lines ts H S a b) (hac : a ≤ c) (hcb : c ≤ b)
    (hblank : ∀ j, c ≤ j → j < b → Block.blankAt lines j = true)
    (hS : ∀ j, c ≤ j → j < b → ¬S j) : Covers lines ts H S a c where
  sorted := h.sorted
  range t ht := by
    refine ⟨(h.range t ht).1, Nat.le_of_not_lt fun hc => ?_⟩
    have hb := (h.range t ht).2
    have hshown := h.shown_of_mem ht
    have hblk := hblank (t.head.line - 1) (by omega) (by omega)
    rcases hshown with ⟨hf, -⟩ | ⟨-, hs⟩
    · simp [hblk] at hf
    · exact hS _ (by omega) (by omega) hs
  shown j h₁ h₂ := h.shown j h₁ (Nat.lt_of_lt_of_le h₂ hcb)
  hidden j hj := by
    obtain ⟨h₁, h₂, h₃⟩ := h.hidden j hj
    refine ⟨h₁, Nat.lt_of_not_le fun hc => ?_, h₃⟩
    simp [hblank j hc h₂] at h₃
  blanks j hj := by
    obtain ⟨h₁, h₂, h₃⟩ := h.blanks j hj
    exact ⟨h₁, Nat.lt_of_not_le fun hc => hS j hc h₂ hj, h₃⟩

end Covers

end DnclTrace
