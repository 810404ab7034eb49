import DnclTrace.Proofs.Tree.Chain
import DnclTrace.Proofs.Tree.Policy

/-!
# The diagnostics of a program

A lenient reading notes a diagnostic each time it shows a line unrecognized: a line that
fits no form (`UNRECOGNIZED_LINE`), or an else or else-if marker that continues no
conditional (`STRAY_ELSE`), whose block it then skips. The note is made while the line is
read, before the statements after it, so the diagnostics are the reports of the
unrecognized statements of the tree in reading order (`TreeSource.notes`). This is proved
by the reader's own mutual induction (`read_notes`), one lemma per kind of line read.

Main statement: `read_reports_unrecognized`. The diagnostics of a program read leniently
meet the law of diagnostics (`TreeSource.Diagnoses`): one for each statement shown
unrecognized, by increasing line, as many as the statements `kindCounts` counts as
unrecognized; a line that fits no form is reported exactly when no statement hides it, a
marker exactly when no statement hides it and no conditional takes it, and no hidden
line, such as a line in the block of a stray marker, is reported. The strict reading
stops at the first diagnostic, and reads the same program when there is none.
-/

namespace DnclTrace

namespace Reading

variable {α β : Type} {ds ds' : List Diagnostic}

theorem run_bind_ok {x : Reading α} {f : α → Reading β} {b : β}
    (h : (x >>= f).run ds = .ok (b, ds')) :
    ∃ a ds₁, x.run ds = .ok (a, ds₁) ∧ (f a).run ds₁ = .ok (b, ds') := by
  rw [StateT.run_bind] at h
  cases hx : x.run ds with
  | error e =>
    rw [hx] at h
    cases h
  | ok p =>
    rw [hx] at h
    exact ⟨p.1, p.2, rfl, h⟩

theorem run_pure_ok {a b : α} (h : (pure a : Reading α).run ds = .ok (b, ds')) :
    a = b ∧ ds = ds' := by
  cases h
  exact ⟨rfl, rfl⟩

end Reading

namespace Stmt

/-- Counting a kind adds one to its count and leaves the others. -/
theorem lookup_bump (k k' : String) (acc : List (String × Nat)) :
    (bump k acc).lookup k' = if k' = k then some ((acc.lookup k).getD 0 + 1) else acc.lookup k' := by
  induction acc with
  | nil =>
    by_cases h : k' = k
    · simp [bump, h]
    · simp [bump, List.lookup_cons, beq_eq_false_iff_ne.2 h, h]
  | cons e rest ih =>
    obtain ⟨k'', n⟩ := e
    by_cases h₁ : k'' = k
    · -- the kind is counted here
      subst h₁
      by_cases h₂ : k' = k''
      · simp [bump, h₂]
      · simp [bump, List.lookup_cons, beq_eq_false_iff_ne.2 h₂, h₂]
    · by_cases h₂ : k' = k''
      · subst h₂
        simp [bump, h₁]
      · simp only [bump, h₁, if_false, List.lookup_cons, beq_eq_false_iff_ne.2 h₂, ih]
        by_cases h₃ : k' = k
        · subst h₃
          simp [beq_eq_false_iff_ne.2 (Ne.symm h₁)]
        · simp [h₃]

theorem getD_lookup_foldl_bump (k : String) (L : List Stmt) (acc : List (String × Nat)) :
    ((L.foldl (fun acc s => bump s.head.form.kind.name acc) acc).lookup k).getD 0 =
      (acc.lookup k).getD 0 + L.countP (fun s => s.head.form.kind.name == k) := by
  induction L generalizing acc with
  | nil => simp
  | cons s L ih =>
    rw [List.foldl_cons, ih, lookup_bump, List.countP_cons]
    by_cases h : k = s.head.form.kind.name
    · simp [h]
      omega
    · simp [h, Ne.symm h]

/-- The count of a kind's name is the number of statements of the walk of that kind, none
when there are none. -/
theorem kindCounts_lookup (ts : List Stmt) (k : String) :
    ((kindCounts ts).lookup k).getD 0 = (walk ts).countP (fun s => s.head.form.kind.name == k) := by
  simp [kindCounts, getD_lookup_foldl_bump]

end Stmt

theorem StmtKind.name_eq_unrecognized {k : StmtKind} : k.name = "UNRECOGNIZED" ↔ k = .unrecognized := by
  cases k <;> simp [StmtKind.name]

namespace TreeSource

open Reading

variable (r : TreeSource)

/-- The diagnostic the lenient reading notes for a line shown unrecognized: a marker that
continues no conditional, or a line that fits no form. -/
def reportFor (c : Classified) : Diagnostic :=
  if r.isMarkerAt (c.line - 1) then ⟨c.line, .strayElse, "対応する「もし」がありません: " ++ c.text⟩
  else ⟨c.line, .unrecognizedLine, "解釈できない行です: " ++ c.text⟩

/-- The diagnostics noted for statements in reading order: one for each statement shown
unrecognized. -/
def notes (ts : List Stmt) : List Diagnostic :=
  (ts.filter fun t => t.head.form.kind == .unrecognized).map fun t => r.reportFor t.head

/-- The law of diagnostics of a tree with root list `stmts`, read leniently: the
diagnostics `ds` report the statements shown unrecognized, one each in reading order, so
by increasing line and as many as `kindCounts` counts as unrecognized; a line that fits no
form is reported, as such, exactly when no statement hides it; a marker is reported, as
stray, exactly when no statement hides it and no conditional takes it; and no hidden
line, in the block of a stray marker or the else marker a conditional takes, is
reported. -/
structure Diagnoses (stmts : List Stmt) (ds : List Diagnostic) : Prop where
  notes : ds = r.notes (Stmt.walk stmts)
  sorted : (ds.map (·.line)).Pairwise (· < ·)
  counted : ((Stmt.kindCounts stmts).lookup "UNRECOGNIZED").getD 0 = ds.length
  unrecognized : ∀ j < r.lines.size, (r.lineAt j).form.kind = .unrecognized →
    ((∃ d ∈ ds, d.line = j + 1 ∧ d.kind = .unrecognizedLine) ↔ ¬r.Hidden (Stmt.walk stmts) j)
  stray : ∀ j < r.lines.size, r.isMarkerAt j →
    ((∃ d ∈ ds, d.line = j + 1 ∧ d.kind = .strayElse) ↔
      ¬r.Hidden (Stmt.walk stmts) j ∧ ¬∃ u ∈ Stmt.walk stmts, r.Attaches u j)
  shown : ∀ d ∈ ds, ¬r.Hidden (Stmt.walk stmts) (d.line - 1)

variable {r}

@[simp] theorem reportFor_line (c : Classified) : (r.reportFor c).line = c.line := by
  unfold reportFor
  split <;> rfl

@[simp] theorem notes_nil : r.notes [] = [] := rfl

@[simp] theorem notes_append (xs ys : List Stmt) : r.notes (xs ++ ys) = r.notes xs ++ r.notes ys := by
  simp [notes]

theorem notes_cons_of_ne (t : Stmt) (ts : List Stmt) (h : t.head.form.kind ≠ .unrecognized) :
    r.notes (t :: ts) = r.notes ts := by
  simp [notes, h]

theorem notes_cons_of_eq (t : Stmt) (ts : List Stmt) (h : t.head.form.kind = .unrecognized) :
    r.notes (t :: ts) = r.reportFor t.head :: r.notes ts := by
  simp [notes, h]

/-- A conditional's own line is no unrecognized line: its notes are those of its bodies. -/
theorem notes_walkOne_branch {c : Classified} (body : List Stmt) (e : Option (List Stmt))
    (hc : c.form.kind = .conditional) :
    r.notes (Stmt.walkOne (.branch c body e)) = r.notes (Stmt.walk body) ++ r.notes (Stmt.walkElse e) := by
  rw [Stmt.walkOne, notes_cons_of_ne (.branch c body e) _ (by simp [Stmt.head, hc]), notes_append]

theorem mem_notes {ts : List Stmt} {d : Diagnostic} :
    d ∈ r.notes ts ↔ ∃ t ∈ ts, t.head.form.kind = .unrecognized ∧ d = r.reportFor t.head := by
  simp only [notes, List.mem_map, List.mem_filter, beq_iff_eq]
  constructor
  · rintro ⟨t, ⟨ht, hk⟩, rfl⟩
    exact ⟨t, ht, hk, rfl⟩
  · rintro ⟨t, ht, hk, rfl⟩
    exact ⟨t, ⟨ht, hk⟩, rfl⟩

/-- A lenient report notes the diagnostic after the others. -/
theorem report_run (hpol : r.policy = .lenient) (d : Diagnostic) (ds : List Diagnostic) :
    (r.report d).run ds = .ok ((), ds ++ [d]) := by
  unfold report
  rw [hpol]
  rfl

/-- A lenient reading that reports `d` and shows one line `c` notes `d` after the others. -/
theorem run_report_single (hpol : r.policy = .lenient) {d : Diagnostic} {c : Classified}
    {next : Nat} {ds ds' : List Diagnostic} {s : Stmt} {res : Nat}
    (h : (r.report d >>= fun _ => (pure (.single c, next) : Reading (Stmt × Nat))).run ds =
      .ok ((s, res), ds')) :
    s = .single c ∧ ds' = ds ++ [d] := by
  obtain ⟨_, ds₁, hrep, h⟩ := run_bind_ok h
  obtain ⟨hsr, rfl⟩ := run_pure_ok h
  cases hsr
  rw [report_run hpol] at hrep
  cases hrep
  exact ⟨rfl, rfl⟩

/-- A line that fits no form is no marker. -/
theorem not_isMarkerAt_of_unrecognized {j : Nat} (hk : (r.lineAt j).form.kind = .unrecognized) :
    ¬r.isMarkerAt j := by
  rintro (h | h) <;> rw [h] at hk <;> cases hk

section Induction

variable (r)

/-- Reading the indices `idx` with `room` calls left notes the reports of the
unrecognized statements it reads. -/
def RangeNotes (room : Nat) (idx : List Nat) : Prop :=
  ∀ ds stmts ds', (∀ j ∈ idx, j < r.lines.size) →
    (r.readRange room idx).run ds = .ok (stmts, ds') → ds' = ds ++ r.notes (Stmt.walk stmts)

/-- Reading the line `i` with `room` calls left notes the reports of the unrecognized
statements it reads. -/
def AtNotes (room i : Nat) : Prop :=
  ∀ ds s res ds', i < r.lines.size →
    (r.readAt room i).run ds = .ok ((s, res), ds') → ds' = ds ++ r.notes (Stmt.walkOne s)

/-- Reading a conditional at line `i` with `room` calls left notes the reports of the
unrecognized statements it reads. -/
def CondNotes (room : Nat) (c : Classified) (i : Nat) : Prop :=
  ∀ ds s res ds', i < r.lines.size → c.form.kind = .conditional →
    (r.readConditional room c i).run ds = .ok ((s, res), ds') → ds' = ds ++ r.notes (Stmt.walkOne s)

variable {r} {room : Nat}

theorem rangeNotes_nil (room : Nat) : r.RangeNotes room [] := by
  intro ds stmts ds' _ h
  rw [readRange.eq_1] at h
  obtain ⟨rfl, rfl⟩ := run_pure_ok h
  simp [Stmt.walk_nil]

theorem rangeNotes_cons {i : Nat} {rest : List Nat} (hat : r.AtNotes room i)
    (hrest : ∀ res, r.RangeNotes room (rest.dropWhile (· < res))) :
    r.RangeNotes room (i :: rest) := by
  intro ds stmts ds' hin h
  rw [readRange.eq_2] at h
  obtain ⟨⟨s, res⟩, ds₁, hs, h⟩ := run_bind_ok h
  obtain ⟨more, ds₂, hm, h⟩ := run_bind_ok h
  obtain ⟨rfl, rfl⟩ := run_pure_ok h
  have hs := hat ds s res ds₁ (hin i List.mem_cons_self) hs
  have hm := hrest res ds₁ more ds₂
    (fun j hj => hin j (List.mem_cons_of_mem i ((List.dropWhile_sublist _).subset hj))) hm
  rw [hm, hs, Stmt.walk_cons, notes_append, List.append_assoc]

/-- A reading too deep for its line returns nothing. -/
theorem atNotes_short {i : Nat} (h : room < (r.lineAt i).form.kind.readCalls) :
    r.AtNotes room i := by
  intro ds s res ds' _ hs
  rw [readAt_eq_short h] at hs
  cases hs

theorem atNotes_loop {i : Nat}
    (hk : (r.lineAt i).form.kind = .forLoop ∨ (r.lineAt i).form.kind = .whileLoop)
    (hread : r.readAt room i = (r.readRange (room - 1) (r.plainBlock i).body >>= fun body =>
      pure (.loop (r.lineAt i) body, (r.plainBlock i).next)))
    (ih : r.RangeNotes (room - 1) (r.plainBlock i).body) : r.AtNotes room i := by
  intro ds s res ds' _ h
  rw [hread] at h
  obtain ⟨body, ds₁, hb, h⟩ := run_bind_ok h
  obtain ⟨hsr, rfl⟩ := run_pure_ok h
  cases hsr
  have hbody : ∀ j ∈ (r.plainBlock i).body, j < r.lines.size := fun j hj =>
    (plainBlock_ahead r i).2 j (List.mem_append_left _ hj)
  -- the loop's own line is no unrecognized line
  have hne : (r.lineAt i).form.kind ≠ .unrecognized := by
    rcases hk with hk | hk <;> rw [hk] <;> decide
  rw [ih ds body ds₁ hbody hb, Stmt.walkOne, notes_cons_of_ne (.loop (r.lineAt i) body) _ hne]

theorem atNotes_conditional {i : Nat} (hk : (r.lineAt i).form.kind = .conditional)
    (hread : r.readAt room i = r.readConditional (room - 1) (r.lineAt i) i)
    (ih : r.CondNotes (room - 1) (r.lineAt i) i) : r.AtNotes room i := by
  intro ds s res ds' hin h
  rw [hread] at h
  exact ih ds s res ds' hin hk h

/-- A stray marker is reported as such and shown unrecognized. -/
theorem atNotes_stray (hpol : r.policy = .lenient) (hr : r.Numbered) {i : Nat}
    (hm : r.isMarkerAt i)
    (hread : r.readAt room i =
      (r.report ⟨(r.lineAt i).line, .strayElse, "対応する「もし」がありません: " ++ (r.lineAt i).text⟩ >>=
        fun _ => pure (.single ⟨(r.lineAt i).line, (r.lineAt i).text, .unrecognized⟩,
          (r.plainBlock i).next))) :
    r.AtNotes room i := by
  intro ds s res ds' hin h
  rw [hread] at h
  obtain ⟨rfl, rfl⟩ := run_report_single hpol h
  have hline : (r.lineAt i).line - 1 = i := by
    have := hr.line i hin
    omega
  rw [Stmt.walkOne, notes_cons_of_eq (.single _) _ rfl, notes_nil]
  simp only [Stmt.head, reportFor, hline, if_pos hm]

/-- A line that fits no form is reported as such and shown as it is. -/
theorem atNotes_unrecognized (hpol : r.policy = .lenient) (hr : r.Numbered) {i : Nat}
    (hk : (r.lineAt i).form.kind = .unrecognized)
    (hread : r.readAt room i =
      (r.report ⟨(r.lineAt i).line, .unrecognizedLine, "解釈できない行です: " ++ (r.lineAt i).text⟩ >>=
        fun _ => pure (.single (r.lineAt i), i + 1))) :
    r.AtNotes room i := by
  intro ds s res ds' hin h
  rw [hread] at h
  obtain ⟨rfl, rfl⟩ := run_report_single hpol h
  have hline : (r.lineAt i).line - 1 = i := by
    have := hr.line i hin
    omega
  rw [Stmt.walkOne, notes_cons_of_eq (.single (r.lineAt i)) _ hk, notes_nil]
  simp only [Stmt.head, reportFor, hline, if_neg (not_isMarkerAt_of_unrecognized hk)]

theorem atNotes_plain {i : Nat} (hne : (r.lineAt i).form.kind ≠ .unrecognized)
    (hread : r.readAt room i = pure (.single (r.lineAt i), i + 1)) : r.AtNotes room i := by
  intro ds s res ds' _ h
  rw [hread] at h
  obtain ⟨hsr, rfl⟩ := run_pure_ok h
  cases hsr
  rw [Stmt.walkOne, notes_cons_of_ne (.single (r.lineAt i)) _ hne, notes_nil, List.append_nil]

/-- A conditional too deep to resolve its block returns nothing. -/
theorem condNotes_short (c : Classified) {i : Nat} (h : room < blockCalls) : r.CondNotes room c i := by
  intro ds s res ds' _ _ hs
  rw [readConditional_eq_short h] at hs
  cases hs

theorem condNotes_room (hr : r.Numbered) {i : Nat} {c : Classified} (hroom : ¬room < blockCalls)
    (ihb : r.RangeNotes (room - 1) (r.condBlock i).body)
    (ihk : ∀ k cond, r.CondNotes (room - 1) ⟨(r.lineAt k).line, (r.lineAt k).text, .conditional cond⟩ k)
    (ihe : r.RangeNotes (room - 1) (r.condBlock i).elseBody) : r.CondNotes room c i := by
  intro ds s res ds' hin hc h
  rw [readConditional.eq_1, dif_neg hroom] at h
  obtain ⟨body, ds₁, hb, h⟩ := run_bind_ok h
  have hlines := (condBlock_ahead r i).2
  have hb := ihb ds body ds₁ (fun j hj => hlines j (List.mem_append_left _ hj)) hb
  split at h
  · -- no marker continues the block
    obtain ⟨hsr, rfl⟩ := run_pure_ok h
    cases hsr
    simp [notes_walkOne_branch body none hc, hb]
  · rename_i k hk
    obtain ⟨rfl, hs, hd, hm⟩ := condBlock_elseIndex_eq hr hk
    dsimp only at h
    split at h
    · -- an else-if marker: the next conditional of the chain, read at the marker
      rename_i cond _
      obtain ⟨⟨s', res'⟩, ds₂, hs', h⟩ := run_bind_ok h
      obtain ⟨hsr, rfl⟩ := run_pure_ok h
      cases hsr
      have hs' := ihk _ cond ds₁ s' res' ds₂ hs rfl hs'
      simp [notes_walkOne_branch body (some [s']) hc, hb, hs', Stmt.walk_nil]
    · -- an else marker: the else body is the marker's body
      obtain ⟨eb, ds₂, he, h⟩ := run_bind_ok h
      obtain ⟨hsr, rfl⟩ := run_pure_ok h
      cases hsr
      have he := ihe ds₁ eb ds₂ (fun j hj => hlines j (List.mem_append_right _ hj)) he
      simp [notes_walkOne_branch body (some eb) hc, hb, he]

/-- Every lenient reading of a numbered source notes the reports of the unrecognized
statements it reads, in reading order. -/
theorem read_notes (hpol : r.policy = .lenient) (hr : r.Numbered) :
    (∀ room idx, r.RangeNotes room idx) ∧ (∀ room i, r.AtNotes room i) ∧
      ∀ room c i, r.CondNotes room c i := by
  apply TreeSource.readRange.mutual_induct r (RangeNotes r) (AtNotes r) (CondNotes r)
  case _ => exact rangeNotes_nil
  case _ =>
    intro room i rest hat hrest
    exact rangeNotes_cons hat hrest
  case _ => -- a line too deep to read
    intro room i
    exact atNotes_short
  case _ => -- a counted loop
    intro room i
    dsimp only
    intro hroom hk ih
    exact atNotes_loop (.inl hk) (readAt_eq_loop hroom (.inl hk)) ih
  case _ => -- a conditional loop
    intro room i
    dsimp only
    intro hroom hk ih
    exact atNotes_loop (.inr hk) (readAt_eq_loop hroom (.inr hk)) ih
  case _ => -- a conditional
    intro room i
    dsimp only
    intro hroom hk ih
    exact atNotes_conditional hk (readAt_eq_conditional hroom hk) ih
  case _ => -- a stray else-if marker
    intro room i
    dsimp only
    intro hroom hk
    exact atNotes_stray hpol hr (.inl hk) (readAt_eq_stray hroom (.inl hk))
  case _ => -- a stray else marker
    intro room i
    dsimp only
    intro hroom hk
    exact atNotes_stray hpol hr (.inr hk) (readAt_eq_stray hroom (.inr hk))
  case _ => -- an unrecognized line
    intro room i
    dsimp only
    intro hroom hk
    exact atNotes_unrecognized hpol hr hk (readAt_eq_unrecognized hroom hk)
  case _ => -- any other line
    intro room i
    dsimp only
    intro hroom h₁ h₂ h₃ h₄ h₅ h₆
    exact atNotes_plain h₆ (readAt_eq_other hroom h₁ h₂ h₃ h₄ h₅ h₆)
  case _ => -- a conditional too deep to resolve its block
    intro room c i
    exact condNotes_short c
  case _ =>
    intro room c i hroom
    dsimp only
    intro ihb ihk ihe
    exact condNotes_room hr hroom ihb ihk ihe

/-- The diagnostics of a tree read leniently from a numbered source are the reports of its
unrecognized statements, in reading order. -/
theorem tree_notes (hpol : r.policy = .lenient) (hr : r.Numbered) {p : ParsedProgram}
    {depth : Nat} (ht : r.tree depth = .ok p) : p.diagnostics = r.notes (Stmt.walk p.stmts) := by
  unfold tree at ht
  split at ht
  · rename_i stmts ds hrun
    cases ht
    have := (read_notes hpol hr).1 _ _ [] stmts ds (fun j hj => List.mem_range.1 hj) hrun
    simpa using this
  · cases ht

end Induction

section Presents

/-- A statement at a line that is no marker shows the line itself. -/
theorem Presents.head_eq {t : Stmt} (h : r.Presents t) (hm : ¬r.isMarkerAt (t.head.line - 1)) :
    t.head = r.lineAt (t.head.line - 1) := by
  cases t with
  | single c =>
    rcases h with ⟨hc, -⟩ | ⟨hm', -⟩
    · exact hc
    · exact absurd hm' hm
  | loop c body => exact h.1
  | branch c body e =>
    rcases h with ⟨hc, -⟩ | ⟨cond, hf, -⟩
    · exact hc
    · change ¬r.isMarkerAt (c.line - 1) at hm
      exact absurd (.inl (by rw [hf]; rfl)) hm

/-- A statement at a marker line is the marker shown unrecognized, or a conditional. -/
theorem Presents.of_marker {t : Stmt} (h : r.Presents t) (hm : r.isMarkerAt (t.head.line - 1)) :
    (∃ c, t = .single c ∧ c.form.kind = .unrecognized) ∨ ∃ c body e, t = .branch c body e := by
  cases t with
  | single c =>
    change r.isMarkerAt (c.line - 1) at hm
    rcases h with ⟨-, hk⟩ | ⟨-, hc⟩
    · -- a line shown as itself is no marker
      rcases hm with h | h <;> simp [h] at hk
    · exact .inl ⟨c, rfl, by rw [hc]; rfl⟩
  | loop c body =>
    obtain ⟨-, hk⟩ := h
    change r.isMarkerAt (c.line - 1) at hm
    rcases hm with h | h <;> rcases hk with hk | hk <;> rw [h] at hk <;> cases hk
  | branch c body e => exact .inr ⟨c, body, e, rfl⟩

/-- A statement shown unrecognized is a single line. -/
theorem Presents.single_of_unrecognized {t : Stmt} (h : r.Presents t)
    (hk : t.head.form.kind = .unrecognized) : ∃ c, t = .single c := by
  cases t with
  | single c => exact ⟨c, rfl⟩
  | loop c body =>
    obtain ⟨hc, hk'⟩ := h
    change c.form.kind = _ at hk
    rw [hc] at hk
    rcases hk' with h | h <;> rw [h] at hk <;> cases hk
  | branch c body e =>
    obtain ⟨cond, hc⟩ := BranchHead.conditional h
    change c.form.kind = _ at hk
    rw [hc] at hk
    cases hk

end Presents

section Tree

variable {depth : Nat} {p : ParsedProgram} (hr : r.Numbered) (ht : r.tree depth = .ok p)
include hr ht

/-- An unrecognized statement of the tree stands at a non-blank line that no statement
hides. -/
theorem tree_unrecognized_shown {t : Stmt} (htw : t ∈ Stmt.walk p.stmts)
    (hk : t.head.form.kind = .unrecognized) : ¬r.Hidden (Stmt.walk p.stmts) (t.head.line - 1) := by
  have hrange := (tree_spec hr ht).2.cover.range t htw
  have hb : Block.blankAt r.lines (t.head.line - 1) = false := by
    cases hb : Block.blankAt r.lines (t.head.line - 1)
    · rfl
    · rw [tree_form_of_blank hr ht htw hb] at hk
      cases hk
  exact (tree_shown_of_nonblank hr ht (by omega) hb).1 ⟨t, htw, by omega⟩

variable (hpol : r.policy = .lenient)
include hpol

theorem mem_tree_diagnostics {d : Diagnostic} :
    d ∈ p.diagnostics ↔
      ∃ t ∈ Stmt.walk p.stmts, t.head.form.kind = .unrecognized ∧ d = r.reportFor t.head := by
  rw [tree_notes hpol hr ht, mem_notes]

/-- The diagnostics are by increasing line: the walk's lines increase. -/
theorem tree_diagnostics_sorted : (p.diagnostics.map (·.line)).Pairwise (· < ·) := by
  have hlines : (p.diagnostics.map (·.line)) =
      ((Stmt.walk p.stmts).filter fun t => t.head.form.kind == .unrecognized).map (·.head.line) := by
    rw [tree_notes hpol hr ht, notes, List.map_map]
    exact List.map_congr_left fun t _ => reportFor_line t.head
  rw [hlines]
  exact (tree_sorted hr ht).sublist ((List.filter_sublist).map _)

/-- There are as many diagnostics as statements `kindCounts` counts as unrecognized. -/
theorem tree_diagnostics_counted :
    ((Stmt.kindCounts p.stmts).lookup "UNRECOGNIZED").getD 0 = p.diagnostics.length := by
  rw [Stmt.kindCounts_lookup, tree_notes hpol hr ht, notes, List.length_map,
    ← List.countP_eq_length_filter]
  refine List.countP_congr fun t _ => ?_
  simp [StmtKind.name_eq_unrecognized]

/-- A line that fits no form is reported, as such, exactly when no statement hides it. -/
theorem tree_unrecognized_reported {j : Nat} (hj : j < r.lines.size)
    (hk : (r.lineAt j).form.kind = .unrecognized) :
    (∃ d ∈ p.diagnostics, d.line = j + 1 ∧ d.kind = .unrecognizedLine) ↔
      ¬r.Hidden (Stmt.walk p.stmts) j := by
  have hb : Block.blankAt r.lines j = false := by
    cases hb : Block.blankAt r.lines j
    · rfl
    · rw [hr.blank j hj hb] at hk
      cases hk
  have hm := not_isMarkerAt_of_unrecognized hk
  rw [← tree_shown_of_nonblank hr ht hj hb]
  constructor
  · rintro ⟨d, hd, hl, -⟩
    obtain ⟨t, htw, -, rfl⟩ := (mem_tree_diagnostics hr ht hpol).1 hd
    exact ⟨t, htw, by simpa using hl⟩
  · rintro ⟨t, htw, hl⟩
    have hj' : t.head.line - 1 = j := by omega
    -- the statement at the line shows the line itself
    have hhead : t.head = r.lineAt j := by
      rw [← hj']
      exact Presents.head_eq ((tree_shows_lines hr ht).presents t htw) (by rw [hj']; exact hm)
    refine ⟨r.reportFor t.head,
      (mem_tree_diagnostics hr ht hpol).2 ⟨t, htw, by rw [hhead]; exact hk, rfl⟩, by simp [hl], ?_⟩
    simp [reportFor, hj', hm]

/-- A marker is reported, as stray, exactly when no statement hides it and no conditional
takes it. -/
theorem tree_stray_reported {j : Nat} (hj : j < r.lines.size) (hm : r.isMarkerAt j) :
    (∃ d ∈ p.diagnostics, d.line = j + 1 ∧ d.kind = .strayElse) ↔
      ¬r.Hidden (Stmt.walk p.stmts) j ∧ ¬∃ u ∈ Stmt.walk p.stmts, r.Attaches u j := by
  have hshown := tree_shown_of_nonblank hr ht hj (blankAt_of_isMarkerAt hr hj hm)
  constructor
  · rintro ⟨d, hd, hl, -⟩
    obtain ⟨t, htw, hk, rfl⟩ := (mem_tree_diagnostics hr ht hpol).1 hd
    have hl : t.head.line = j + 1 := by simpa using hl
    have hj' : t.head.line - 1 = j := by omega
    refine ⟨hshown.1 ⟨t, htw, hl⟩, fun hatt => ?_⟩
    -- a conditional takes the marker only where the tree shows a conditional at it
    obtain ⟨c, rfl⟩ := Presents.single_of_unrecognized ((tree_shows_lines hr ht).presents t htw) hk
    obtain ⟨c', body, e, heq⟩ :=
      (tree_attached_iff hr ht htw (by rw [hj']; exact hm)).1 (by rw [hj']; exact hatt)
    cases heq
  · rintro ⟨hnh, hna⟩
    obtain ⟨t, htw, hl⟩ := hshown.2 hnh
    have hj' : t.head.line - 1 = j := by omega
    rcases Presents.of_marker ((tree_shows_lines hr ht).presents t htw) (by rw [hj']; exact hm) with
      ⟨c, rfl, hk⟩ | ⟨c, body, e, rfl⟩
    · change c.line - 1 = j at hj'
      refine ⟨r.reportFor c, (mem_tree_diagnostics hr ht hpol).2 ⟨_, htw, hk, rfl⟩,
        by rw [reportFor_line]; exact hl, ?_⟩
      simp [reportFor, hj', hm]
    · -- a conditional at the marker's line is the link a conditional takes
      refine absurd ?_ hna
      rw [← hj']
      exact (tree_attached_iff hr ht htw (by rw [hj']; exact hm)).2 ⟨c, body, e, rfl⟩

/-- No diagnostic reports a hidden line. -/
theorem tree_diagnostic_shown {d : Diagnostic} (hd : d ∈ p.diagnostics) :
    ¬r.Hidden (Stmt.walk p.stmts) (d.line - 1) := by
  obtain ⟨t, htw, hk, rfl⟩ := (mem_tree_diagnostics hr ht hpol).1 hd
  rw [reportFor_line]
  exact tree_unrecognized_shown hr ht htw hk

/-- A tree read leniently from a numbered source meets the law of diagnostics. -/
theorem tree_diagnoses : r.Diagnoses p.stmts p.diagnostics where
  notes := tree_notes hpol hr ht
  sorted := tree_diagnostics_sorted hr ht hpol
  counted := tree_diagnostics_counted hr ht hpol
  unrecognized _ hj hk := tree_unrecognized_reported hr ht hpol hj hk
  stray _ hj hm := tree_stray_reported hr ht hpol hj hm
  shown _ hd := tree_diagnostic_shown hr ht hpol hd

end Tree

end TreeSource

/-- The diagnostics of every program read leniently meet the law of diagnostics, and the
strict reading stops at the first of them, or reads the same program when there is
none. -/
theorem read_reports_unrecognized {depth : Nat} {source : String} {p : ParsedProgram}
    (hp : ParsedProgram.read depth source .lenient = .ok p) :
    ∃ r : TreeSource, TreeSource.ofSource depth source .lenient = .ok r ∧
      r.Diagnoses p.stmts p.diagnostics ∧
      (p.diagnostics = [] → ParsedProgram.read depth source .strict = .ok p) ∧
      ∀ d rest, p.diagnostics = d :: rest →
        ParsedProgram.read depth source .strict = .error (.rejected d) := by
  obtain ⟨r, hr, ht⟩ := ParsedProgram.read_eq_ok.1 hp
  refine ⟨r, hr, TreeSource.tree_diagnoses (TreeSource.numbered_of_ofSource hr) ht
    (TreeSource.ofSource_spec hr).2.1, ?_⟩
  rcases ParsedProgram.read_policies depth source with
    ⟨hsame, hquiet⟩ | ⟨d, -, hs, ⟨p', rest, hl, hd⟩ | ⟨f, hl⟩⟩
  · -- the strict reading is the lenient one, with no diagnostic
    have hs : ParsedProgram.read depth source .strict = .ok p := hsame.symm.trans hp
    refine ⟨fun _ => hs, fun d rest hd => ?_⟩
    rw [hquiet p hs] at hd
    cases hd
  · -- the strict reading stopped at the lenient reading's first diagnostic
    rw [hp] at hl
    cases hl
    refine ⟨fun h => ?_, fun d' rest' h => ?_⟩
    · rw [hd] at h
      cases h
    · rw [hd] at h
      cases h
      exact hs
  · -- the lenient reading read the program, so it did not fault
    rw [hp] at hl
    cases hl

section StrayElse

/-! An else marker that continues no conditional, with a conditional in its block:

    そうでなければ:
      もし x ならば:
-/

/-- The lines of the program, classified. -/
theorem ofSource_stray_else :
    TreeSource.ofSource 0 "そうでなければ:\n  もし x ならば:" .lenient =
      .ok ⟨SourceLine.ofSource "そうでなければ:\n  もし x ならば:",
        #[⟨1, "そうでなければ:", .elseMarker⟩,
          ⟨2, "もし x ならば:", .conditional ⟨"x", .ok (.var "x")⟩⟩], .lenient⟩ := by
  have hl : (SourceLine.ofSource "そうでなければ:\n  もし x ならば:").toList =
      [⟨1, 0, "そうでなければ:"⟩, ⟨2, 2, "もし x ならば:"⟩] := by decide
  simp only [TreeSource.ofSource, Nat.zero_add, hl, List.mapM_cons, List.mapM_nil,
    classify_else_marker, classify_if_x]
  rfl

/-- The law of diagnostics at the stray marker: its diagnostic, and none for the
conditional in its block. -/
theorem read_reports_unrecognized_stray_else :
    ∃ p, ParsedProgram.read 0 "そうでなければ:\n  もし x ならば:" .lenient = .ok p ∧
      ∃ r : TreeSource, TreeSource.ofSource 0 "そうでなければ:\n  もし x ならば:" .lenient = .ok r ∧
        r.Diagnoses p.stmts p.diagnostics ∧
        (p.diagnostics = [] →
          ParsedProgram.read 0 "そうでなければ:\n  もし x ならば:" .strict = .ok p) ∧
        ∀ d rest, p.diagnostics = d :: rest →
          ParsedProgram.read 0 "そうでなければ:\n  もし x ならば:" .strict = .error (.rejected d) := by
  obtain ⟨p, hp⟩ := ParsedProgram.read_of_lenient ofSource_stray_else (by decide)
  exact ⟨p, hp, read_reports_unrecognized hp⟩

end StrayElse

end DnclTrace
