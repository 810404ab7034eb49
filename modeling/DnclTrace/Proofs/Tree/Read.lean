import DnclTrace.Proofs.Tree.Cover

/-!
# Reading a statement and its block

The reader takes a line index, reads the statement there with its block and says where
reading resumes. For a source whose lines are numbered and classified one to one
(`TreeSource.Numbered`) this file follows one reading to its end and records what it
gives (`TreeSource.ReadAt`): the statement stands at its own line and shows its line's
classification (`Presents`); its walk shows, in increasing order, every non-blank line
from its own up to where reading resumes except those it hides, the else marker a
conditional takes and the body of a stray marker (`Conceals`); every line it takes is
indented at least as deep as its own; and every loop and conditional of it has the body
of its block, a conditional the else body its block continues with (`Governs`).

Reading the lines of a window (`TreeSource.Window`: the indices of a body, or all lines)
gives the same for a list of statements (`TreeSource.ReadRange`); a blank line of the
window is shown exactly when no earlier statement took it (`Consumed`). The two are
proved together by the reader's own mutual induction, with a lemma for each shape of
statement, in `Proofs/Tree/Shapes`; this file gives the facts about blocks and windows
they rest on.

It also gives the reader's steps one by one, each under the room it needs
(`TreeSource.readAt_eq_loop` and its siblings), and the room that never runs short
(`TreeSource.Spare`): two calls for each line from the one read on, and two more, which
every line read below it keeps.
-/

namespace DnclTrace

/-- The reading succeeded from some diagnostics with `a`. -/
def Reading.Returns {α : Type} (x : Reading α) (a : α) : Prop :=
  ∃ ds ds', x.run ds = .ok (a, ds')

namespace Reading.Returns

variable {α β : Type}

theorem bind {x : Reading α} {f : α → Reading β} {b : β} (h : Returns (x >>= f) b) :
    ∃ a, Returns x a ∧ Returns (f a) b := by
  obtain ⟨ds, ds', h⟩ := h
  rw [StateT.run_bind] at h
  cases hx : x.run ds with
  | error e =>
    rw [hx] at h
    cases h
  | ok p =>
    rw [hx] at h
    exact ⟨p.1, ⟨ds, p.2, hx⟩, ⟨p.2, ds', h⟩⟩

theorem pure_eq {a b : α} (h : Returns (pure a : Reading α) b) : a = b := by
  obtain ⟨ds, ds', h⟩ := h
  cases h
  rfl

theorem not_throw {e : ReadStop} {a : α} : ¬Returns (throw e : Reading α) a := by
  rintro ⟨ds, ds', h⟩
  cases h

end Reading.Returns

open Reading

/-- The elements of a sorted list from `c` on. -/
theorem mem_dropWhile_lt {l : List Nat} (hs : l.Pairwise (· < ·)) {c j : Nat} :
    j ∈ l.dropWhile (· < c) ↔ j ∈ l ∧ c ≤ j := by
  induction l with
  | nil => simp
  | cons x rest ih =>
    rw [List.pairwise_cons] at hs
    rw [List.dropWhile_cons]
    by_cases hx : x < c
    · simp only [hx, decide_true, ↓reduceIte, ih hs.2, List.mem_cons]
      constructor
      · rintro ⟨h₁, h₂⟩
        exact ⟨.inr h₁, h₂⟩
      · rintro ⟨rfl | h₁, h₂⟩
        · omega
        · exact ⟨h₁, h₂⟩
    · simp only [hx, decide_false, Bool.false_eq_true, ↓reduceIte, List.mem_cons]
      constructor
      · rintro (rfl | h₁)
        · exact ⟨.inl rfl, by omega⟩
        · exact ⟨.inr h₁, by have := hs.1 j h₁; omega⟩
      · rintro ⟨h₁, -⟩
        exact h₁

namespace TreeSource

variable (r : TreeSource)

/-- The lines are numbered from one and classified one to one: each classified line
keeps the number of its line, and a blank line is classified blank. -/
structure Numbered : Prop where
  size : r.classified.size = r.lines.size
  line : ∀ i, i < r.lines.size → (r.lineAt i).line = i + 1
  blank : ∀ i, i < r.lines.size → Block.blankAt r.lines i = true → (r.lineAt i).form = .blank

variable {r}

theorem condBlock_elseIndex {i k : Nat} (h : (r.condBlock i).elseIndex = some k) :
    i < k ∧ k < r.lines.size := by
  unfold condBlock at h
  cases hb : Block.resolve r.lines i (some r.kinds) with
  | none => simp [hb] at h
  | some b =>
    rw [hb, Option.getD_some] at h
    exact Block.resolve_elseIndex hb h

variable (r)

/-- Where reading resumes after the conditional at line `i`: past its block, or past the
rest of its else-if chain. -/
def chainEnd (i : Nat) : Nat :=
  match h : (r.condBlock i).elseIndex with
  | some k =>
    match (r.lineAt k).form with
    | .elseIf _ => chainEnd k
    | _ => (r.condBlock i).next
  | none => (r.condBlock i).next
termination_by r.lines.size - i
decreasing_by
  have := condBlock_elseIndex h
  omega

/-- The line continues a conditional, or stands for nothing without one. -/
def isMarkerAt (i : Nat) : Prop :=
  (r.lineAt i).form.kind = .elseIf ∨ (r.lineAt i).form.kind = .elseMarker

instance (i : Nat) : Decidable (r.isMarkerAt i) := inferInstanceAs (Decidable (_ ∨ _))

/-- Where reading resumes after a statement of the tree. -/
def extent : Stmt → Nat
  | .loop c _ => (r.plainBlock (c.line - 1)).next
  | .branch c _ _ => r.chainEnd (c.line - 1)
  | .single c => if r.isMarkerAt (c.line - 1) then (r.plainBlock (c.line - 1)).next else c.line

/-- The lines a statement takes without showing them: the else marker that continues a
conditional, and the body of a stray marker. -/
def Conceals : Stmt → Nat → Prop
  | .branch c _ _, j => (r.condBlock (c.line - 1)).elseIndex = some j ∧ (r.lineAt j).form = .elseMarker
  | .single c, j => r.isMarkerAt (c.line - 1) ∧ j ∈ (r.plainBlock (c.line - 1)).body
  | .loop .., _ => False

/-- Some statement of `ts` hides the line. -/
def Hidden (ts : List Stmt) (j : Nat) : Prop := ∃ t ∈ ts, r.Conceals t j

/-- Some statement of `ts` took the line after its own, before reading resumed. -/
def Consumed (ts : List Stmt) (j : Nat) : Prop := ∃ u ∈ ts, u.head.line ≤ j ∧ j < r.extent u

/-- The head of a conditional standing at its line: the line's own conditional, or for an
else-if marker the conditional of a chain, with the marker's line, text and
condition. -/
def BranchHead (c : Classified) : Prop :=
  let l := r.lineAt (c.line - 1)
  (c = l ∧ l.form.kind = .conditional) ∨
    ∃ cond, l.form = .elseIf cond ∧ c = ⟨l.line, l.text, .conditional cond⟩

/-- A statement shows its line's classification: the classified line itself with the
body its form takes; for an else-if marker, the conditional of a chain (`BranchHead`);
for a marker that continues nothing, an unrecognized line with the marker's line and
text. -/
def Presents : Stmt → Prop
  | .single c =>
    let l := r.lineAt (c.line - 1)
    (c = l ∧ l.form.kind ∉ [.forLoop, .whileLoop, .conditional, .elseIf, .elseMarker]) ∨
      (r.isMarkerAt (c.line - 1) ∧ c = ⟨l.line, l.text, .unrecognized⟩)
  | .loop c _ =>
    let l := r.lineAt (c.line - 1)
    c = l ∧ (l.form.kind = .forLoop ∨ l.form.kind = .whileLoop)
  | .branch c _ _ => r.BranchHead c

/-- Where the block of the line at `i` ends: the stop of its body, at its own indentation. -/
abbrev stopOf (i : Nat) : Nat :=
  Block.stopAfter r.lines i (Block.indentAt r.lines i)

/-- The statements of `body`, each indented deeper than line `i`, show the lines from
just after line `i` to the end of its block: exactly the non-blank lines they do not
hide. -/
structure Spans (i : Nat) (body : List Stmt) : Prop where
  deeper : ∀ u ∈ body, Block.indentAt r.lines i < Block.indentAt r.lines (u.head.line - 1)
  cover : Covers r.lines (Stmt.walk body) (r.Hidden (Stmt.walk body)) (fun _ => False) (i + 1)
    (r.stopOf i)

/-- What follows the body of a conditional at line `i`, an else body judged by `P`: where
its block ends at an else marker of its indentation, an else body that `P` holds of at
the marker; at an else-if marker, the one conditional of the chain, with the marker's
line, text and condition; else nothing. -/
def Continues (P : Nat → List Stmt → Prop) (i : Nat) (orElse : Option (List Stmt)) : Prop :=
  if r.stopOf i < r.lines.size ∧
      Block.indentAt r.lines (r.stopOf i) = Block.indentAt r.lines i then
    let l := r.lineAt (r.stopOf i)
    match l.form with
    | .elseMarker => ∃ eb, orElse = some eb ∧ P (r.stopOf i) eb
    | .elseIf cond => ∃ body e, orElse = some [.branch ⟨l.line, l.text, .conditional cond⟩ body e]
    | _ => orElse = none
  else orElse = none

/-- Every loop and conditional has the body of its block, and a conditional what its
block continues with. -/
def Governs : Stmt → Prop
  | .single _ => True
  | .loop c body => r.Spans (c.line - 1) body
  | .branch c body orElse => r.Spans (c.line - 1) body ∧ r.Continues r.Spans (c.line - 1) orElse

/-- A conditional of a chain, standing for an else-if marker. -/
def IsLink (t : Stmt) : Prop :=
  ∃ c body e cond, t = .branch c body e ∧ (r.lineAt (c.line - 1)).form = .elseIf cond

/-- The conditional `u` continues with the marker at line `k`. -/
def Attaches (u : Stmt) (k : Nat) : Prop :=
  ∃ c body e, u = .branch c body e ∧ (r.condBlock (c.line - 1)).elseIndex = some k

/-- What reading the statement at line `i` gave: the statement `s` and `res`, where
reading resumes. -/
structure ReadAt (i : Nat) (s : Stmt) (res : Nat) : Prop where
  line : s.head.line = i + 1
  resume : r.extent s = res
  lt : i < res
  le : res ≤ r.lines.size
  last : res = i + 1 ∨ Block.blankAt r.lines (res - 1) = false
  within : ∀ j, i < j → j < res → Block.blankAt r.lines j = false →
    Block.indentAt r.lines i ≤ Block.indentAt r.lines j
  cover : Covers r.lines (Stmt.walkOne s) (r.Hidden (Stmt.walkOne s))
    (fun j => j = i ∧ Block.blankAt r.lines i = true) i res
  nested : ∀ t ∈ Stmt.walkOne s, t.head.line ≤ r.extent t ∧ r.extent t ≤ res
  lawful : ∀ t ∈ Stmt.walkOne s, r.Presents t ∧ r.Governs t
  linked : ∀ t ∈ Stmt.walkOne s, r.IsLink t → t ≠ s →
    ∃ u ∈ Stmt.walkOne s, r.Attaches u (t.head.line - 1)

/-- The line indices `idx` are, in increasing order, those from `lo` up to `hi` that
`keep` keeps, non-blank lines always; the line at `hi`, if any, is non-blank and
indented less than every line of `idx`. -/
structure Window (lo hi : Nat) (keep : Nat → Bool) (idx : List Nat) : Prop where
  sorted : idx.Pairwise (· < ·)
  mem : ∀ j, j ∈ idx ↔ lo ≤ j ∧ j < hi ∧ keep j = true
  keeps : ∀ j, Block.blankAt r.lines j = false → keep j = true
  le : hi ≤ r.lines.size
  stop : hi < r.lines.size → Block.blankAt r.lines hi = false ∧
    ∀ j ∈ idx, Block.indentAt r.lines hi < Block.indentAt r.lines j

/-- What reading the statements at the indices `idx`, over the lines from `lo` up to
`hi`, gave: a blank line of `idx` is shown exactly when no statement took it. -/
structure ReadRange (lo hi : Nat) (idx : List Nat) (stmts : List Stmt) : Prop where
  cover : Covers r.lines (Stmt.walk stmts) (r.Hidden (Stmt.walk stmts))
    (fun j => j ∈ idx ∧ Block.blankAt r.lines j = true ∧ ¬r.Consumed stmts j) lo hi
  tops : ∀ u ∈ stmts, u.head.line - 1 ∈ idx ∧ ∃ j ∈ idx, r.extent u ≤ j + 1
  nested : ∀ t ∈ Stmt.walk stmts, t.head.line ≤ r.extent t ∧
    ∃ u ∈ stmts, u.head.line ≤ t.head.line ∧ r.extent t ≤ r.extent u
  lawful : ∀ t ∈ Stmt.walk stmts, r.Presents t ∧ r.Governs t
  linked : ∀ t ∈ Stmt.walk stmts, r.IsLink t →
    ∃ u ∈ Stmt.walk stmts, r.Attaches u (t.head.line - 1)

section Source

variable {r}

theorem Numbered.kinds (hr : r.Numbered) {k : Nat} (hk : k < r.lines.size) :
    r.kinds[k]? = some (r.lineAt k).form.kind := by
  have hk' : k < r.classified.size := by rw [hr.size]; exact hk
  simp [TreeSource.kinds, lineAt, hk']

theorem plainBlock_eq {i : Nat} (hi : i < r.lines.size) :
    r.plainBlock i =
      { body := Block.bodyAfter r.lines i (Block.indentAt r.lines i),
        next := Block.after i (Block.bodyAfter r.lines i (Block.indentAt r.lines i)) } := by
  simp [plainBlock, Block.resolve_none hi]

section Cond

variable {i : Nat}

theorem condBlock_of_else (hr : r.Numbered) (hi : i < r.lines.size)
    (hs : r.stopOf i < r.lines.size)
    (hd : Block.indentAt r.lines (r.stopOf i) = Block.indentAt r.lines i)
    (hk : (r.lineAt (r.stopOf i)).form = .elseMarker) :
    r.condBlock i =
      { body := Block.bodyAfter r.lines i (Block.indentAt r.lines i),
        elseIndex := some (r.stopOf i),
        elseBody := Block.bodyAfter r.lines (r.stopOf i) (Block.indentAt r.lines i),
        next := Block.after (r.stopOf i)
          (Block.bodyAfter r.lines (r.stopOf i) (Block.indentAt r.lines i)) } := by
  have hkind : r.kinds[r.stopOf i]? = some .elseMarker := by rw [hr.kinds hs, hk]; rfl
  simp [condBlock, Block.resolve_else hi hs hd hkind]

theorem condBlock_of_elseIf (hr : r.Numbered) (hi : i < r.lines.size)
    (hs : r.stopOf i < r.lines.size)
    (hd : Block.indentAt r.lines (r.stopOf i) = Block.indentAt r.lines i)
    {cond : SourceExpr} (hk : (r.lineAt (r.stopOf i)).form = .elseIf cond) :
    r.condBlock i =
      { body := Block.bodyAfter r.lines i (Block.indentAt r.lines i),
        elseIndex := some (r.stopOf i), next := r.stopOf i } := by
  have hkind : r.kinds[r.stopOf i]? = some .elseIf := by rw [hr.kinds hs, hk]; rfl
  simp [condBlock, Block.resolve_elseIf hi hs hd hkind]

theorem condBlock_of_plain (hr : r.Numbered) (hi : i < r.lines.size)
    (hno : ¬(r.stopOf i < r.lines.size ∧
      Block.indentAt r.lines (r.stopOf i) = Block.indentAt r.lines i ∧ r.isMarkerAt (r.stopOf i))) :
    r.condBlock i = r.plainBlock i := by
  have hno' : ¬(r.stopOf i < r.lines.size ∧
      Block.indentAt r.lines (r.stopOf i) = Block.indentAt r.lines i ∧
      (r.kinds[r.stopOf i]? = some .elseMarker ∨ r.kinds[r.stopOf i]? = some .elseIf)) := by
    rintro ⟨hs, hd, hk⟩
    rw [hr.kinds hs] at hk
    refine hno ⟨hs, hd, ?_⟩
    unfold isMarkerAt
    simp only [Option.some.injEq] at hk
    exact hk.symm
  simp [condBlock, plainBlock, Block.resolve_plain_of hi hno']

/-- A line that continues a conditional is an else-if marker with its condition, or an
else marker. -/
theorem form_of_isMarkerAt {k : Nat} (h : r.isMarkerAt k) :
    (∃ cond, (r.lineAt k).form = .elseIf cond) ∨ (r.lineAt k).form = .elseMarker := by
  rcases h with h | h
  · cases hf : (r.lineAt k).form <;> simp [hf, Form.kind] at h
    exact .inl ⟨_, rfl⟩
  · cases hf : (r.lineAt k).form <;> simp [hf, Form.kind] at h
    exact .inr rfl

/-- The else index of a conditional's block is the stop of its body, a marker at its
indentation. -/
theorem condBlock_elseIndex_eq (hr : r.Numbered) {k : Nat}
    (hk : (r.condBlock i).elseIndex = some k) :
    k = r.stopOf i ∧ r.stopOf i < r.lines.size ∧
      Block.indentAt r.lines (r.stopOf i) = Block.indentAt r.lines i ∧ r.isMarkerAt (r.stopOf i) := by
  have hi : i < r.lines.size := Nat.lt_trans (condBlock_elseIndex hk).1 (condBlock_elseIndex hk).2
  by_cases hc : r.stopOf i < r.lines.size ∧
      Block.indentAt r.lines (r.stopOf i) = Block.indentAt r.lines i ∧ r.isMarkerAt (r.stopOf i)
  · refine ⟨?_, hc⟩
    obtain ⟨hs, hd, hm⟩ := hc
    rcases form_of_isMarkerAt hm with ⟨cond, hf⟩ | hf
    · rw [condBlock_of_elseIf hr hi hs hd hf] at hk
      cases hk
      rfl
    · rw [condBlock_of_else hr hi hs hd hf] at hk
      cases hk
      rfl
  · rw [condBlock_of_plain hr hi hc, plainBlock_eq hi] at hk
    cases hk

/-- The body of a conditional's block is the body of its line, whatever follows it. -/
theorem condBlock_body (hr : r.Numbered) (hi : i < r.lines.size) :
    (r.condBlock i).body = Block.bodyAfter r.lines i (Block.indentAt r.lines i) := by
  by_cases hc : r.stopOf i < r.lines.size ∧
      Block.indentAt r.lines (r.stopOf i) = Block.indentAt r.lines i ∧ r.isMarkerAt (r.stopOf i)
  · obtain ⟨hs, hd, hm⟩ := hc
    rcases form_of_isMarkerAt hm with ⟨cond, hf⟩ | hf
    · rw [condBlock_of_elseIf hr hi hs hd hf]
    · rw [condBlock_of_else hr hi hs hd hf]
  · rw [condBlock_of_plain hr hi hc, plainBlock_eq hi]

/-- A conditional's block that no marker continues is the plain block. -/
theorem condBlock_of_none (hr : r.Numbered) (hi : i < r.lines.size)
    (hn : (r.condBlock i).elseIndex = none) : r.condBlock i = r.plainBlock i := by
  by_cases hc : r.stopOf i < r.lines.size ∧
      Block.indentAt r.lines (r.stopOf i) = Block.indentAt r.lines i ∧ r.isMarkerAt (r.stopOf i)
  · obtain ⟨hs, hd, hm⟩ := hc
    rcases form_of_isMarkerAt hm with ⟨cond, hf⟩ | hf
    · rw [condBlock_of_elseIf hr hi hs hd hf] at hn
      cases hn
    · rw [condBlock_of_else hr hi hs hd hf] at hn
      cases hn
  · exact condBlock_of_plain hr hi hc

/-- A conditional's block that no marker continues has nothing to continue with. -/
theorem continues_none (hr : r.Numbered) (hi : i < r.lines.size)
    (hn : (r.condBlock i).elseIndex = none) (P : Nat → List Stmt → Prop) :
    r.Continues P i none := by
  unfold Continues
  split
  · rename_i hc
    dsimp only
    split
    · rename_i hf
      rw [condBlock_of_else hr hi hc.1 hc.2 hf] at hn
      cases hn
    · rename_i cond hf
      rw [condBlock_of_elseIf hr hi hc.1 hc.2 hf] at hn
      cases hn
    · rfl
  · rfl

theorem chainEnd_of_none {i : Nat} (h : (r.condBlock i).elseIndex = none) :
    r.chainEnd i = (r.condBlock i).next := by
  rw [chainEnd]
  split
  · rename_i k hk
    rw [h] at hk
    cases hk
  · rfl

theorem chainEnd_of_elseMarker {i k : Nat} (h : (r.condBlock i).elseIndex = some k)
    (hk : (r.lineAt k).form = .elseMarker) : r.chainEnd i = (r.condBlock i).next := by
  rw [chainEnd]
  split
  · rename_i k' hk'
    rw [h, Option.some.injEq] at hk'
    subst hk'
    simp only [hk]
  · rename_i hk'
    simp [h] at hk'

theorem chainEnd_of_elseIf {i k : Nat} (h : (r.condBlock i).elseIndex = some k)
    {cond : SourceExpr} (hk : (r.lineAt k).form = .elseIf cond) : r.chainEnd i = r.chainEnd k := by
  rw [chainEnd]
  split
  · rename_i k' hk'
    rw [h] at hk'
    cases hk'
    simp only [hk]
  · rename_i hk'
    simp [h] at hk'

end Cond

section Window

variable {i : Nat}

/-- The indices of a body: the non-blank lines after line `i` up to its stop at
indentation `d`. -/
theorem window_body (hi : i < r.lines.size) (d : Nat) :
    r.Window (i + 1) (Block.stopAfter r.lines i d) (fun j => !Block.blankAt r.lines j)
      (Block.bodyAfter r.lines i d) where
  sorted := Block.bodyAfter_sorted i d
  mem j := by
    rw [Block.mem_bodyAfter, Bool.not_eq_true']
    exact Iff.rfl
  keeps j hj := by simp [hj]
  le := Block.stopAfter_le d hi
  stop hs := by
    obtain ⟨hb, hd⟩ := Block.closes_at_stopAfter hs
    exact ⟨hb, fun j hj => Nat.lt_of_le_of_lt hd (Block.indent_lt_of_mem_bodyAfter hj)⟩

/-- All lines of the source. -/
theorem window_all : r.Window 0 r.lines.size (fun _ => true) (List.range r.lines.size) where
  sorted := List.pairwise_lt_range
  mem j := by simp
  keeps _ _ := rfl
  le := Nat.le_refl _
  stop h := absurd h (Nat.lt_irrefl _)

/-- The rest of a window from where reading resumes, past its first index. -/
theorem Window.tail {lo hi res : Nat} {keep : Nat → Bool} {rest : List Nat}
    (hw : r.Window lo hi keep (i :: rest)) (hlt : i < res) :
    r.Window res hi keep (rest.dropWhile (· < res)) where
  sorted := (List.pairwise_cons.1 hw.sorted).2.sublist (List.dropWhile_sublist _)
  mem j := by
    have hs := List.pairwise_cons.1 hw.sorted
    rw [mem_dropWhile_lt hs.2]
    constructor
    · rintro ⟨hj, hres⟩
      obtain ⟨-, h₂, h₃⟩ := (hw.mem j).1 (List.mem_cons_of_mem i hj)
      exact ⟨hres, h₂, h₃⟩
    · rintro ⟨hres, h₂, h₃⟩
      have hlo : lo ≤ j := Nat.le_trans ((hw.mem i).1 List.mem_cons_self).1 (by omega)
      rcases List.mem_cons.1 ((hw.mem j).2 ⟨hlo, h₂, h₃⟩) with rfl | hj
      · omega
      · exact ⟨hj, hres⟩
  keeps := hw.keeps
  le := hw.le
  stop h := by
    obtain ⟨hb, hd⟩ := hw.stop h
    exact ⟨hb, fun j hj => hd j (List.mem_cons_of_mem i ((List.dropWhile_sublist _).subset hj))⟩

end Window

@[simp] theorem hidden_nil (j : Nat) : ¬r.Hidden [] j := by
  simp [Hidden]

theorem hidden_cons {t : Stmt} {ts : List Stmt} {j : Nat} :
    r.Hidden (t :: ts) j ↔ r.Conceals t j ∨ r.Hidden ts j := by
  simp [Hidden]

theorem hidden_append {xs ys : List Stmt} {j : Nat} :
    r.Hidden (xs ++ ys) j ↔ r.Hidden xs j ∨ r.Hidden ys j := by
  simp only [Hidden, List.mem_append]
  constructor
  · rintro ⟨t, ht | ht, hc⟩
    · exact .inl ⟨t, ht, hc⟩
    · exact .inr ⟨t, ht, hc⟩
  · rintro (⟨t, ht, hc⟩ | ⟨t, ht, hc⟩)
    · exact ⟨t, .inl ht, hc⟩
    · exact ⟨t, .inr ht, hc⟩

theorem Hidden.mono {xs ys : List Stmt} (h : xs ⊆ ys) {j : Nat} (hx : r.Hidden xs j) :
    r.Hidden ys j := by
  obtain ⟨t, ht, hc⟩ := hx
  exact ⟨t, h ht, hc⟩

theorem consumed_cons {u : Stmt} {us : List Stmt} {j : Nat} :
    r.Consumed (u :: us) j ↔ (u.head.line ≤ j ∧ j < r.extent u) ∨ r.Consumed us j := by
  simp [Consumed]

end Source

section Ahead

/-- The block of a loop or a stray marker lies after its line, inside the program. -/
theorem plainBlock_ahead (i : Nat) :
    BlockAhead i (r.plainBlock i).body (r.plainBlock i).elseBody (r.plainBlock i).elseIndex
        (r.plainBlock i).next ∧
      ∀ j ∈ (r.plainBlock i).body ++ (r.plainBlock i).elseBody, j < r.lines.size := by
  unfold plainBlock
  rcases hb : Block.resolve r.lines i none with _ | b
  · exact ⟨⟨by simp, by simp, by simp, Nat.lt_succ_self i⟩, by simp⟩
  · exact Block.resolve_ahead hb

/-- The block of a conditional lies after its line, inside the program. -/
theorem condBlock_ahead (i : Nat) :
    BlockAhead i (r.condBlock i).body (r.condBlock i).elseBody (r.condBlock i).elseIndex
        (r.condBlock i).next ∧
      ∀ j ∈ (r.condBlock i).body ++ (r.condBlock i).elseBody, j < r.lines.size := by
  unfold condBlock
  rcases hb : Block.resolve r.lines i (some r.kinds) with _ | b
  · exact ⟨⟨by simp, by simp, by simp, Nat.lt_succ_self i⟩, by simp⟩
  · exact Block.resolve_ahead hb

end Ahead

section Steps

/-! The reader's steps, each under the room it needs: a line whose kind needs more calls
than are left stops the reading, and any other is read by the step its kind names. -/

variable {r} {room i : Nat}

theorem readAt_eq_short (h : room < (r.lineAt i).form.kind.readCalls) :
    r.readAt room i = throw (.fault (.tooDeep .enter)) := by
  rw [readAt.eq_1, dif_pos h]

theorem readAt_eq_loop (h : ¬room < (r.lineAt i).form.kind.readCalls)
    (hk : (r.lineAt i).form.kind = .forLoop ∨ (r.lineAt i).form.kind = .whileLoop) :
    r.readAt room i = (r.readRange (room - 1) (r.plainBlock i).body >>= fun body =>
      pure (.loop (r.lineAt i) body, (r.plainBlock i).next)) := by
  rcases hk with hk | hk <;> rw [readAt.eq_1, dif_neg h, hk]

theorem readAt_eq_conditional (h : ¬room < (r.lineAt i).form.kind.readCalls)
    (hk : (r.lineAt i).form.kind = .conditional) :
    r.readAt room i = r.readConditional (room - 1) (r.lineAt i) i := by
  rw [readAt.eq_1, dif_neg h, hk]

theorem readAt_eq_stray (h : ¬room < (r.lineAt i).form.kind.readCalls) (hm : r.isMarkerAt i) :
    r.readAt room i =
      (r.report ⟨(r.lineAt i).line, .strayElse, "対応する「もし」がありません: " ++ (r.lineAt i).text⟩ >>=
        fun _ => pure (.single ⟨(r.lineAt i).line, (r.lineAt i).text, .unrecognized⟩,
          (r.plainBlock i).next)) := by
  rcases hm with hk | hk <;> rw [readAt.eq_1, dif_neg h, hk]

theorem readAt_eq_unrecognized (h : ¬room < (r.lineAt i).form.kind.readCalls)
    (hk : (r.lineAt i).form.kind = .unrecognized) :
    r.readAt room i =
      (r.report ⟨(r.lineAt i).line, .unrecognizedLine, "解釈できない行です: " ++ (r.lineAt i).text⟩ >>=
        fun _ => pure (.single (r.lineAt i), i + 1)) := by
  rw [readAt.eq_1, dif_neg h, hk]

/-- A line of no control form that is understood is read as itself, one call deep, and
reports nothing. -/
theorem readAt_eq_plain (h : 0 < room)
    (hk : (r.lineAt i).form.kind ∉
      [.forLoop, .whileLoop, .conditional, .elseIf, .elseMarker, .unrecognized]) :
    r.readAt room i = pure (.single (r.lineAt i), i + 1) := by
  rw [readAt.eq_1, dif_neg (by rw [StmtKind.readCalls_eq_one hk]; omega)]
  split <;> simp_all

/-- A line read at all has room for one call. -/
theorem pos_of_not_short {k : StmtKind} (h : ¬room < k.readCalls) : 0 < room := by
  have := k.one_le_readCalls
  omega

/-- The reader's last step, as its recursion states it: a line of none of the kinds the
other steps name is read as itself. -/
theorem readAt_eq_other (h : ¬room < (r.lineAt i).form.kind.readCalls)
    (h₁ : (r.lineAt i).form.kind ≠ .forLoop) (h₂ : (r.lineAt i).form.kind ≠ .whileLoop)
    (h₃ : (r.lineAt i).form.kind ≠ .conditional) (h₄ : (r.lineAt i).form.kind ≠ .elseIf)
    (h₅ : (r.lineAt i).form.kind ≠ .elseMarker) (h₆ : (r.lineAt i).form.kind ≠ .unrecognized) :
    r.readAt room i = pure (.single (r.lineAt i), i + 1) :=
  readAt_eq_plain (pos_of_not_short h) (by simp [h₁, h₂, h₃, h₄, h₅, h₆])

theorem readConditional_eq_short {c : Classified} (h : room < blockCalls) :
    r.readConditional room c i = throw (.fault (.tooDeep .enter)) := by
  rw [readConditional.eq_1, dif_pos h]

variable (r) in
/-- Reading at line `i` with `room` calls left never runs short: the line is one of the
source, and the room holds two calls for each line from it on, and two more. -/
def Spare (room i : Nat) : Prop := i < r.lines.size ∧ 2 * r.lines.size + 2 ≤ 2 * i + room

namespace Spare

variable {j room' : Nat}

/-- With room to spare, no line is too deep to read. -/
theorem not_short (h : r.Spare room i) (k : StmtKind) : ¬room < k.readCalls := by
  have hk := k.readCalls_le
  have := h.1
  have := h.2
  simp only [reportCalls] at hk
  omega

/-- A conditional's own frame taken, there is room to resolve its block. -/
theorem not_short_block (h : r.Spare (room + 1) i) : ¬room < blockCalls := by
  have := h.1
  have := h.2
  simp only [blockCalls]
  omega

/-- A line with room to spare still has it when a conditional there takes its own frame. -/
theorem frame (h : r.Spare room i) : r.Spare (room - 1 + 1) i :=
  ⟨h.1, by have := h.1; have := h.2; omega⟩

/-- A later line of the source, read at most two calls deeper, still has room to spare. -/
theorem later (h : r.Spare room i) (hij : i < j) (hj : j < r.lines.size)
    (hroom : room ≤ room' + 2) : r.Spare room' j :=
  ⟨hj, by have := h.2; omega⟩

/-- The body of a loop with room to spare, read one call deeper, has room to spare. -/
theorem plainBody (h : r.Spare room i) : ∀ j ∈ (r.plainBlock i).body, r.Spare (room - 1) j :=
  fun j hj => h.later ((plainBlock_ahead r i).1.inBody j hj)
    ((plainBlock_ahead r i).2 j (List.mem_append_left _ hj)) (by omega)

/-- The body of a conditional whose frame has room to spare, read one call deeper, has
room to spare. -/
theorem condBody (h : r.Spare (room + 1) i) : ∀ j ∈ (r.condBlock i).body, r.Spare (room - 1) j :=
  fun j hj => h.later ((condBlock_ahead r i).1.inBody j hj)
    ((condBlock_ahead r i).2 j (List.mem_append_left _ hj)) (by omega)

/-- So has its else body. -/
theorem condElse (h : r.Spare (room + 1) i) :
    ∀ j ∈ (r.condBlock i).elseBody, r.Spare (room - 1) j :=
  fun j hj => h.later ((condBlock_ahead r i).1.inElse j hj)
    ((condBlock_ahead r i).2 j (List.mem_append_right _ hj)) (by omega)

/-- And so has the next conditional of its chain, at the marker. -/
theorem chain (h : r.Spare (room + 1) i) {k : Nat} (hk : (r.condBlock i).elseIndex = some k) :
    r.Spare (room - 1 + 1) k :=
  h.later (condBlock_elseIndex hk).1 (condBlock_elseIndex hk).2 (by omega)

end Spare

end Steps

end TreeSource

end DnclTrace
