import DnclTrace.Proofs.Tree.Shapes

/-!
# Reading a whole program

`ParsedProgram.read` classifies every line of a text (`TreeSource.ofSource`) and reads the
tree from the classified lines (`ParsedProgram.read_eq_ok`). The classified lines keep
the text's numbered lines, each classified as its own line (`TreeSource.ofSource_spec`),
so the source is numbered (`TreeSource.numbered_of_ofSource`) and `tree_spec` holds of
every program read. Under the lenient policy reading stops only where the statements
nest too deep for the calls left, never when there are two calls for each line
(`TreeSource.tree_of_lenient`), so a program is then read whenever its lines are
classified (`ParsedProgram.read_of_lenient`).

Over a tree read from a numbered source, the lines of its walk increase, so a statement
is known by its line (`TreeSource.tree_eq_of_line_eq`); a line is shown when it is
non-blank and no statement hides it, or blank and no statement took it
(`TreeSource.tree_shown_iff`); and only a statement of the root list shows a blank line
(`TreeSource.tree_root_of_blank`).
-/

namespace DnclTrace

/-- A traversal that succeeds relates each element to its image. -/
theorem mapM_ok_forall₂ {α β ε : Type} {f : α → Except ε β} :
    ∀ {xs : List α} {ys : List β}, xs.mapM f = .ok ys →
      List.Forall₂ (fun x y => f x = .ok y) xs ys
  | [], ys, h => by
    cases h
    exact .nil
  | x :: xs, ys, h => by
    rw [List.mapM_cons] at h
    cases hx : f x with
    | error e =>
      rw [hx] at h
      cases h
    | ok y =>
      cases hxs : xs.mapM f with
      | error e =>
        rw [hx, hxs] at h
        cases h
      | ok ys' =>
        rw [hx, hxs] at h
        cases h
        exact .cons hx (mapM_ok_forall₂ hxs)

namespace Line

variable {depth : Nat} {text : String} {line : Nat} {c : Classified}

/-- A classified line keeps the number it was given. -/
theorem classify_line (h : classify depth text line = .ok c) : c.line = line := by
  unfold classify at h
  split at h
  · cases h
    rfl
  split at h
  · cases h
    rfl
  dsimp only at h
  split at h
  · cases h
    rfl
  cases hf : firstForm (depth + 1) recognizers (stripComment text) with
  | error e =>
    rw [hf] at h
    cases h
  | ok o =>
    rw [hf] at h
    cases o with
    | none =>
      cases h
      rfl
    | some f =>
      cases h
      rfl

/-- A line with no text is blank. -/
theorem classify_empty (h : classify depth "" line = .ok c) : c = ⟨line, "", .blank⟩ := by
  have he : "".isEmpty = true := rfl
  unfold classify at h
  rw [if_pos he] at h
  cases h
  rfl

end Line

/-- The lines of a text are numbered from one. -/
theorem SourceLine.number_ofSource (source : String) {k : Nat}
    (hk : k < (SourceLine.ofSource source).size) :
    (SourceLine.ofSource source)[k].number = k + 1 := by
  simp [SourceLine.ofSource]

namespace TreeSource

variable {depth : Nat} {source : String} {policy : Policy} {r : TreeSource}

/-- The classified lines of a text: the text's numbered lines, each classified as its own
line two calls deeper, under the policy. -/
theorem ofSource_spec (h : ofSource depth source policy = .ok r) :
    r.lines = SourceLine.ofSource source ∧ r.policy = policy ∧
      r.classified.size = r.lines.size ∧
      ∀ k (hk : k < r.lines.size),
        Line.classify (depth + 2) r.lines[k].text (k + 1) = .ok (r.lineAt k) := by
  unfold ofSource at h
  dsimp only at h
  cases hc : (SourceLine.ofSource source).toList.mapM
      (fun l => Line.classify (depth + 2) l.text l.number) with
  | error e =>
    rw [hc] at h
    cases h
  | ok cs =>
    rw [hc] at h
    cases h
    obtain ⟨hlen, hall⟩ := List.forall₂_iff_get.1 (mapM_ok_forall₂ hc)
    refine ⟨rfl, rfl, by simpa using hlen.symm, fun k hk => ?_⟩
    have hk' : k < (SourceLine.ofSource source).toList.length := by simpa using hk
    have hcs : k < cs.length := hlen ▸ hk'
    have := hall k hk' hcs
    simp only [List.get_eq_getElem, Array.getElem_toList] at this
    rw [SourceLine.number_ofSource source hk] at this
    simpa [lineAt, hcs] using this

/-- The lines classified from a text are numbered and classified one to one. -/
theorem numbered_of_ofSource (h : ofSource depth source policy = .ok r) : r.Numbered := by
  obtain ⟨-, -, hsize, hclass⟩ := ofSource_spec h
  refine ⟨hsize, fun k hk => Line.classify_line (hclass k hk), fun k hk hb => ?_⟩
  have htext : r.lines[k].text = "" := by
    simp only [Block.blankAt, Array.getElem?_eq_getElem hk, Option.map_some,
      Option.getD_some, SourceLine.isBlank] at hb
    exact String.isEmpty_iff.1 hb
  have hk' := hclass k hk
  rw [htext] at hk'
  rw [Line.classify_empty hk']

end TreeSource

/-- A program is read when its lines are classified and its tree read from them. -/
theorem ParsedProgram.read_eq_ok {depth : Nat} {source : String} {policy : Policy}
    {p : ParsedProgram} :
    ParsedProgram.read depth source policy = .ok p ↔
      ∃ r, TreeSource.ofSource depth source policy = .ok r ∧ r.tree depth = .ok p := by
  unfold ParsedProgram.read
  cases h : TreeSource.ofSource depth source policy with
  | error e => simp [Except.mapError, bind, Except.bind]
  | ok r => cases ht : r.tree depth <;> simp [Except.mapError, bind, Except.bind, ht]

namespace Reading

/-- The reading returns, from any diagnostics. -/
def Total {α : Type} (x : Reading α) : Prop := ∀ ds, ∃ a ds', x.run ds = .ok (a, ds')

variable {α β : Type}

theorem Total.pure (a : α) : Total (pure a : Reading α) := fun ds => ⟨a, ds, rfl⟩

theorem Total.bind {x : Reading α} {f : α → Reading β} (hx : Total x) (hf : ∀ a, Total (f a)) :
    Total (x >>= f) := by
  intro ds
  obtain ⟨a, ds₁, h₁⟩ := hx ds
  obtain ⟨b, ds₂, h₂⟩ := hf a ds₁
  exact ⟨b, ds₂, by rw [StateT.run_bind, h₁]; exact h₂⟩

end Reading

namespace TreeSource

open Reading

variable {r : TreeSource}

/-- A lenient report only notes the diagnostic. -/
theorem report_total (hpol : r.policy = .lenient) (d : Diagnostic) : Total (r.report d) := by
  intro ds
  unfold report
  rw [hpol]
  exact ⟨(), ds ++ [d], rfl⟩

/-- Under the lenient policy every reading with room to spare returns: the lines below
a line with room to spare have room to spare (`Spare.plainBody`, `Spare.condBody`, ...),
so the reading never comes to a line too deep for it. -/
theorem read_total (hpol : r.policy = .lenient) :
    (∀ room idx, (∀ j ∈ idx, r.Spare room j) → Total (r.readRange room idx)) ∧
      (∀ room i, r.Spare room i → Total (r.readAt room i)) ∧
      ∀ room c i, r.Spare (room + 1) i → Total (r.readConditional room c i) := by
  apply TreeSource.readRange.mutual_induct r
    (fun room idx => (∀ j ∈ idx, r.Spare room j) → Total (r.readRange room idx))
    (fun room i => r.Spare room i → Total (r.readAt room i))
    (fun room c i => r.Spare (room + 1) i → Total (r.readConditional room c i))
  case _ =>
    intro room _
    rw [readRange.eq_1]
    exact Total.pure _
  case _ =>
    intro room i rest hat hrest hspare
    rw [readRange.eq_2]
    refine (hat (hspare i List.mem_cons_self)).bind fun q => ?_
    obtain ⟨_, res⟩ := q
    exact (hrest res fun j hj =>
      hspare j (List.mem_cons_of_mem i ((List.dropWhile_sublist _).subset hj))).bind
        fun _ => Total.pure _
  case _ => -- a line too deep to read: never with room to spare
    intro room i
    dsimp only
    intro hshort hspare
    exact absurd hshort (hspare.not_short _)
  case _ => -- a counted loop
    intro room i
    dsimp only
    intro hroom hk ih hspare
    rw [readAt_eq_loop hroom (.inl hk)]
    exact (ih hspare.plainBody).bind fun _ => Total.pure _
  case _ => -- a conditional loop
    intro room i
    dsimp only
    intro hroom hk ih hspare
    rw [readAt_eq_loop hroom (.inr hk)]
    exact (ih hspare.plainBody).bind fun _ => Total.pure _
  case _ => -- a conditional
    intro room i
    dsimp only
    intro hroom hk ih hspare
    rw [readAt_eq_conditional hroom hk]
    exact ih hspare.frame
  case _ => -- a stray else-if marker
    intro room i
    dsimp only
    intro hroom hk _
    rw [readAt_eq_stray hroom (.inl hk)]
    exact (report_total hpol _).bind fun _ => Total.pure _
  case _ => -- a stray else marker
    intro room i
    dsimp only
    intro hroom hk _
    rw [readAt_eq_stray hroom (.inr hk)]
    exact (report_total hpol _).bind fun _ => Total.pure _
  case _ => -- an unrecognized line
    intro room i
    dsimp only
    intro hroom hk _
    rw [readAt_eq_unrecognized hroom hk]
    exact (report_total hpol _).bind fun _ => Total.pure _
  case _ => -- any other line
    intro room i
    dsimp only
    intro hroom h₁ h₂ h₃ h₄ h₅ h₆ _
    rw [readAt_eq_other hroom h₁ h₂ h₃ h₄ h₅ h₆]
    exact Total.pure _
  case _ => -- a conditional too deep to resolve its block: never with room to spare
    intro room c i hshort hspare
    exact absurd hshort hspare.not_short_block
  case _ =>
    intro room c i hroom
    dsimp only
    intro ihb ihk ihe hspare
    rw [readConditional.eq_1, dif_neg hroom]
    refine (ihb hspare.condBody).bind fun body => ?_
    split
    · exact Total.pure _
    · rename_i k hk
      dsimp only
      split
      · rename_i cond _
        exact (ihk k cond (hspare.chain hk)).bind fun _ => Total.pure _
      · exact (ihe hspare.condElse).bind fun _ => Total.pure _

/-- Under the lenient policy the tree is read whenever the reader has room for two calls
per line, and two more. -/
theorem tree_of_lenient (hpol : r.policy = .lenient) {depth : Nat}
    (hroom : 2 * r.lines.size + 2 ≤ callLimit - (depth + 1)) : ∃ p, r.tree depth = .ok p := by
  obtain ⟨stmts, ds, h⟩ := (read_total hpol).1 (callLimit - (depth + 1)) (List.range r.lines.size)
    (fun j hj => ⟨List.mem_range.1 hj, by omega⟩) []
  unfold tree
  rw [h]
  exact ⟨_, rfl⟩

section Tree

variable {depth : Nat} {p : ParsedProgram} (hr : r.Numbered) (ht : r.tree depth = .ok p)
include hr ht

/-- The lines of the walk increase. -/
theorem tree_sorted : ((Stmt.walk p.stmts).map (·.head.line)).Pairwise (· < ·) :=
  (tree_spec hr ht).2.cover.sorted

/-- Two statements of the tree at one line are one. -/
theorem tree_eq_of_line_eq {t t' : Stmt} (h : t ∈ Stmt.walk p.stmts) (h' : t' ∈ Stmt.walk p.stmts)
    (hl : t.head.line = t'.head.line) : t = t' :=
  eq_of_line_eq (tree_sorted hr ht) h h' hl

/-- A line of the source is shown when it is non-blank and no statement hides it, or blank
and no statement of the root list took it. -/
theorem tree_shown_iff {j : Nat} (hj : j < r.lines.size) :
    (∃ t ∈ Stmt.walk p.stmts, t.head.line = j + 1) ↔
      (Block.blankAt r.lines j = false ∧ ¬r.Hidden (Stmt.walk p.stmts) j) ∨
        (Block.blankAt r.lines j = true ∧ ¬r.Consumed p.stmts j) := by
  have hshown := (tree_spec hr ht).2.cover.shown j (Nat.zero_le j) hj
  rw [List.mem_map] at hshown
  rw [hshown]
  simp [hj]

/-- A non-blank line is shown exactly when no statement hides it. -/
theorem tree_shown_of_nonblank {j : Nat} (hj : j < r.lines.size)
    (hb : Block.blankAt r.lines j = false) :
    (∃ t ∈ Stmt.walk p.stmts, t.head.line = j + 1) ↔ ¬r.Hidden (Stmt.walk p.stmts) j := by
  rw [tree_shown_iff hr ht hj, hb]
  simp

/-- A blank line is shown exactly when no statement of the root list took it. -/
theorem tree_shown_of_blank {j : Nat} (hj : j < r.lines.size)
    (hb : Block.blankAt r.lines j = true) :
    (∃ t ∈ Stmt.walk p.stmts, t.head.line = j + 1) ↔ ¬r.Consumed p.stmts j := by
  rw [tree_shown_iff hr ht hj, hb]
  simp

/-- A statement of the walk took the line exactly when a statement of the root list did. -/
theorem tree_consumed_iff {j : Nat} :
    r.Consumed p.stmts j ↔ ∃ t ∈ Stmt.walk p.stmts, t.head.line ≤ j ∧ j < r.extent t := by
  constructor
  · rintro ⟨u, hu, h₁, h₂⟩
    exact ⟨u, Stmt.mem_walk.2 ⟨u, hu, Stmt.mem_walkOne_self u⟩, h₁, h₂⟩
  · rintro ⟨t, ht', h₁, h₂⟩
    obtain ⟨-, u, hu, hl, he⟩ := (tree_spec hr ht).2.nested t ht'
    exact ⟨u, hu, by omega, by omega⟩

/-- A statement at a blank line is a statement of the root list. -/
theorem tree_root_of_blank {t : Stmt} (htw : t ∈ Stmt.walk p.stmts)
    (hb : Block.blankAt r.lines (t.head.line - 1) = true) : t ∈ p.stmts := by
  have hR := (tree_spec hr ht).2
  have hpos := hR.cover.range t htw
  have hc := (tree_shown_of_blank hr ht (by omega) hb).1 ⟨t, htw, by omega⟩
  -- the root statement that reaches over `t` starts at `t`'s line, or it took the line
  obtain ⟨hle, u, hu, hl, he⟩ := hR.nested t htw
  have hut : u.head.line = t.head.line := by
    refine Nat.le_antisymm hl (Nat.le_of_not_lt fun hlt => hc ⟨u, hu, by omega, by omega⟩)
  have := tree_eq_of_line_eq hr ht htw (Stmt.mem_walk.2 ⟨u, hu, Stmt.mem_walkOne_self u⟩) hut.symm
  rw [this]
  exact hu

end Tree

end TreeSource

/-- Under the lenient policy a program is read whenever its lines are classified and the
reader has room for two calls per line, and two more. -/
theorem ParsedProgram.read_of_lenient {depth : Nat} {source : String} {r : TreeSource}
    (hr : TreeSource.ofSource depth source .lenient = .ok r)
    (hroom : 2 * r.lines.size + 2 ≤ callLimit - (depth + 1)) :
    ∃ p, ParsedProgram.read depth source .lenient = .ok p := by
  obtain ⟨p, hp⟩ := TreeSource.tree_of_lenient (TreeSource.ofSource_spec hr).2.1 hroom
  exact ⟨p, ParsedProgram.read_eq_ok.2 ⟨r, hr, hp⟩⟩

end DnclTrace
