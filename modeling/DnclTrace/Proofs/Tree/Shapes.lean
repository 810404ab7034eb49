import DnclTrace.Proofs.Tree.Read

/-!
# Every reading gives what its shape promises

For a numbered source (`TreeSource.Numbered`), each shape of statement the reader builds
meets `ReadAt`: a line of no control form (`readAt_single`), a stray marker
(`readAt_stray`), a loop (`readAt_loop`), and a conditional with no else
(`readAt_branch_none`), with an else body (`readAt_branch_else`) or with the next
conditional of a chain (`readAt_branch_chain`). A reading that resumes after the block of
its line comes from `ReadAt.of_block`, a conditional continued at a marker from
`ReadAt.of_continued`. The statements read at the indices of a window meet `ReadRange`
(`ReadRange.nil`, `ReadRange.cons`).

`read_spec` puts them together by the reader's own mutual induction: each case of the
reader is one step lemma (`atSpec_loop`, `condSpec_room`, ...) that hands the readings
below it to the shape lemma; a reading too deep for its line returns nothing, so the
promise holds at every depth. `tree_spec` reads the whole tree from all lines.
-/

namespace DnclTrace

open Reading

namespace TreeSource

variable {r : TreeSource} {i : Nat}

section Parts

/-- A reading at line `i` from the statement's own facts and those of the statements
below it. -/
theorem ReadAt.of_parts {s : Stmt} {res : Nat} (hline : s.head.line = i + 1)
    (hres : r.extent s = res) (hlt : i < res) (hle : res ≤ r.lines.size)
    (hlast : res = i + 1 ∨ Block.blankAt r.lines (res - 1) = false)
    (hwithin : ∀ j, i < j → j < res → Block.blankAt r.lines j = false →
      Block.indentAt r.lines i ≤ Block.indentAt r.lines j)
    (hcover : Covers r.lines s.descendants (fun j => r.Conceals s j ∨ r.Hidden s.descendants j)
      (fun _ => False) (i + 1) res)
    (hnested : ∀ t ∈ s.descendants, t.head.line ≤ r.extent t ∧ r.extent t ≤ res)
    (hself : r.Presents s ∧ r.Governs s)
    (hlawful : ∀ t ∈ s.descendants, r.Presents t ∧ r.Governs t)
    (hlinked : ∀ t ∈ s.descendants, r.IsLink t →
      ∃ u ∈ Stmt.walkOne s, r.Attaches u (t.head.line - 1)) :
    r.ReadAt i s res where
  line := hline
  resume := hres
  lt := hlt
  le := hle
  last := hlast
  within := hwithin
  cover := by
    rw [Stmt.walkOne_eq]
    have h := (Covers.single s hline).append hcover (Nat.le_succ i) hlt
    refine h.of_iff (fun j => ?_) (fun j => ?_)
    · simp only [hidden_cons, false_or]
    · simp only [or_false]
  nested t ht := by
    rw [Stmt.walkOne_eq, List.mem_cons] at ht
    rcases ht with rfl | ht
    · rw [hline, hres]
      exact ⟨hlt, Nat.le_refl _⟩
    · exact hnested t ht
  lawful t ht := by
    rw [Stmt.walkOne_eq, List.mem_cons] at ht
    rcases ht with rfl | ht
    · exact hself
    · exact hlawful t ht
  linked t ht hl hne := by
    rw [Stmt.walkOne_eq, List.mem_cons] at ht
    rcases ht with rfl | ht
    · exact absurd rfl hne
    · exact hlinked t ht hl

/-- A reading that resumes right after the block of its line: it stays inside the block,
whose lines are all deeper than line `i`. -/
theorem ReadAt.of_block (hi : i < r.lines.size) {s : Stmt} (hline : s.head.line = i + 1)
    (hres : r.extent s = Block.after i (Block.bodyAfter r.lines i (Block.indentAt r.lines i)))
    (hcover : Covers r.lines s.descendants (fun j => r.Conceals s j ∨ r.Hidden s.descendants j)
      (fun _ => False) (i + 1) (Block.after i (Block.bodyAfter r.lines i (Block.indentAt r.lines i))))
    (hnested : ∀ t ∈ s.descendants, t.head.line ≤ r.extent t ∧
      r.extent t ≤ Block.after i (Block.bodyAfter r.lines i (Block.indentAt r.lines i)))
    (hself : r.Presents s ∧ r.Governs s)
    (hlawful : ∀ t ∈ s.descendants, r.Presents t ∧ r.Governs t)
    (hlinked : ∀ t ∈ s.descendants, r.IsLink t →
      ∃ u ∈ Stmt.walkOne s, r.Attaches u (t.head.line - 1)) :
    r.ReadAt i s (Block.after i (Block.bodyAfter r.lines i (Block.indentAt r.lines i))) :=
  ReadAt.of_parts hline hres Block.lt_after
    (Nat.le_trans Block.after_le_stopAfter (Block.stopAfter_le _ hi)) Block.after_last
    (fun _ h₁ h₂ hb => Nat.le_of_lt (Block.indent_lt_of_lt_after h₁ h₂ hb)) hcover hnested hself
    hlawful hlinked

/-- The statements of a body reach no further than a bound past all its indices. -/
theorem ReadRange.nested_le {lo hi m : Nat} {idx : List Nat} {stmts : List Stmt}
    (h : r.ReadRange lo hi idx stmts) (hm : ∀ j ∈ idx, j < m) :
    ∀ t ∈ Stmt.walk stmts, t.head.line ≤ r.extent t ∧ r.extent t ≤ m := by
  intro t ht
  obtain ⟨hle, u, hu, -, hext⟩ := h.nested t ht
  obtain ⟨-, j, hj, hu'⟩ := h.tops u hu
  have := hm j hj
  exact ⟨hle, by omega⟩

/-- A link of a chain read in a body hangs from a conditional of the body. -/
theorem ReadRange.linked_in {lo hi : Nat} {idx : List Nat} {stmts : List Stmt} {s : Stmt}
    (h : r.ReadRange lo hi idx stmts) (hsub : Stmt.walk stmts ⊆ Stmt.walkOne s) :
    ∀ t ∈ Stmt.walk stmts, r.IsLink t → ∃ u ∈ Stmt.walkOne s, r.Attaches u (t.head.line - 1) := by
  intro t ht hl
  obtain ⟨u, hu, ha⟩ := h.linked t ht hl
  exact ⟨u, hsub hu, ha⟩

/-- The statements read at the indices of a body, each deeper than its header, show its
lines. -/
theorem ReadRange.spans {d : Nat} {body : List Stmt} (hd : Block.indentAt r.lines i = d)
    (hb : r.ReadRange (i + 1) (Block.stopAfter r.lines i d) (Block.bodyAfter r.lines i d) body) :
    r.Spans i body := by
  subst hd
  constructor
  · intro u hu
    exact Block.indent_lt_of_mem_bodyAfter (hb.tops u hu).1
  · refine hb.cover.of_iff (fun _ => Iff.rfl) (fun j => ?_)
    -- a body holds no blank line
    simp only [iff_false, not_and]
    intro hj hblank
    simp [(Block.mem_bodyAfter.1 hj).2.2] at hblank

/-- The body's cover ends where reading resumes after it: the rest of the block is
blank. -/
theorem Spans.cover_after {body : List Stmt} (h : r.Spans i body) :
    Covers r.lines (Stmt.walk body) (r.Hidden (Stmt.walk body)) (fun _ => False) (i + 1)
      (Block.after i (Block.bodyAfter r.lines i (Block.indentAt r.lines i))) :=
  h.cover.shrink Block.lt_after Block.after_le_stopAfter
    (fun _ h₁ h₂ => Block.blank_of_after_le h₁ h₂) fun _ _ _ h => h

end Parts

section Range

/-- Reading no indices gives no statements: every line of the window is blank and
left out. -/
theorem ReadRange.nil {lo hi : Nat} {keep : Nat → Bool} (hw : r.Window lo hi keep []) :
    r.ReadRange lo hi [] [] := by
  have hblank : ∀ j, lo ≤ j → j < hi → Block.blankAt r.lines j = true := by
    intro j h₁ h₂
    cases hb : Block.blankAt r.lines j with
    | true => rfl
    | false =>
      have := (hw.mem j).2 ⟨h₁, h₂, hw.keeps j hb⟩
      simp at this
  constructor
  · rw [Stmt.walk_nil]
    refine (Covers.blank hblank).of_iff (fun j => ?_) (fun j => ?_)
    · simp
    · simp
  · simp
  · simp [Stmt.walk_nil]
  · simp [Stmt.walk_nil]
  · simp [Stmt.walk_nil]

/-- Reading a window: the statement at its first index, then the rest of the window from
where reading resumes. -/
theorem ReadRange.cons {lo hi res : Nat} {keep : Nat → Bool} {rest : List Nat} {s : Stmt}
    {more : List Stmt} (hw : r.Window lo hi keep (i :: rest)) (hs : r.ReadAt i s res)
    (hlink : ¬r.IsLink s) (hm : r.ReadRange res hi (rest.dropWhile (· < res)) more) :
    r.ReadRange lo hi (i :: rest) (s :: more) := by
  have hsorted := List.pairwise_cons.1 hw.sorted
  have hdrop : ∀ {j}, j ∈ rest.dropWhile (· < res) ↔ j ∈ rest ∧ res ≤ j :=
    mem_dropWhile_lt hsorted.2
  obtain ⟨hlo, hihi, -⟩ := (hw.mem i).1 List.mem_cons_self
  -- reading resumes inside the window: a line at `hi` before `res` would be at least as
  -- deep as line `i` by `within`, and shallower by the window's stop
  have hres : res ≤ hi := by
    refine Nat.le_of_not_lt fun hlt => ?_
    obtain ⟨hb, hd⟩ := hw.stop (Nat.lt_of_lt_of_le hlt hs.le)
    have := hs.within hi hihi hlt hb
    have := hd i List.mem_cons_self
    omega
  have hbelow : ∀ j, lo ≤ j → j < i → Block.blankAt r.lines j = true := by
    intro j h₁ h₂
    cases hb : Block.blankAt r.lines j with
    | true => rfl
    | false =>
      rcases List.mem_cons.1 ((hw.mem j).2 ⟨h₁, by omega, hw.keeps j hb⟩) with rfl | hj
      · omega
      · have := hsorted.1 j hj
        omega
  have hlt := hs.lt
  have hmore : ∀ u ∈ more, res < u.head.line := fun u hu =>
    (hm.cover.range u (Stmt.mem_walk.2 ⟨u, hu, Stmt.mem_walkOne_self u⟩)).1
  constructor
  · have h := ((Covers.blank hbelow).append hs.cover hlo (Nat.le_of_lt hs.lt)).append hm.cover
      (Nat.le_trans hlo (Nat.le_of_lt hs.lt)) hres
    rw [List.nil_append] at h
    rw [Stmt.walk_cons]
    refine h.of_iff (fun j => ?_) (fun j => ?_)
    · simp only [hidden_append, false_or]
    · -- a blank line of the window shows exactly when it is the first index, or comes at
      -- or after `res` and the rest of the window left it
      simp only [consumed_cons, hs.line, hs.resume, false_or, hdrop, List.mem_cons]
      constructor
      · rintro (⟨rfl, hb⟩ | ⟨⟨hj, hrj⟩, hb, hc⟩)
        · refine ⟨.inl rfl, hb, ?_⟩
          rintro (⟨h₁, -⟩ | ⟨u, hu, h₁, -⟩)
          · omega
          · have := hmore u hu
            omega
        · refine ⟨.inr hj, hb, ?_⟩
          rintro (⟨-, h₂⟩ | hc')
          · omega
          · exact hc hc'
      · rintro ⟨rfl | hj, hb, hc⟩
        · exact .inl ⟨rfl, hb⟩
        · have hij := hsorted.1 j hj
          refine .inr ⟨⟨hj, Nat.le_of_not_lt fun hjr => hc (.inl ⟨hij, hjr⟩)⟩, hb,
            fun hc' => hc (.inr hc')⟩
  · intro u hu
    rcases List.mem_cons.1 hu with rfl | hu
    · refine ⟨by rw [hs.line, Nat.add_sub_cancel]; exact List.mem_cons_self, ?_⟩
      rw [hs.resume]
      -- the statement ends at its own line or at a non-blank line of the window
      rcases hs.last with heq | hb
      · exact ⟨i, List.mem_cons_self, by omega⟩
      · have hlt := hs.lt
        exact ⟨res - 1, (hw.mem _).2 ⟨by omega, by omega, hw.keeps _ hb⟩, by omega⟩
    · obtain ⟨h₁, j, hj, h₂⟩ := hm.tops u hu
      exact ⟨List.mem_cons_of_mem i (hdrop.1 h₁).1, j, List.mem_cons_of_mem i (hdrop.1 hj).1, h₂⟩
  · intro t ht
    rw [Stmt.walk_cons, List.mem_append] at ht
    rcases ht with ht | ht
    · obtain ⟨h₁, h₂⟩ := hs.nested t ht
      have := (hs.cover.range t ht).1
      refine ⟨h₁, s, List.mem_cons_self, by rw [hs.line]; omega, by rw [hs.resume]; exact h₂⟩
    · obtain ⟨h₁, u, hu, h₂, h₃⟩ := hm.nested t ht
      exact ⟨h₁, u, List.mem_cons_of_mem s hu, h₂, h₃⟩
  · intro t ht
    rw [Stmt.walk_cons, List.mem_append] at ht
    rcases ht with ht | ht
    · exact hs.lawful t ht
    · exact hm.lawful t ht
  · intro t ht hl
    rw [Stmt.walk_cons, List.mem_append] at ht
    rw [Stmt.walk_cons]
    rcases ht with ht | ht
    · by_cases hts : t = s
      · subst hts
        exact absurd hl hlink
      · obtain ⟨u, hu, ha⟩ := hs.linked t ht hl hts
        exact ⟨u, List.mem_append_left _ hu, ha⟩
    · obtain ⟨u, hu, ha⟩ := hm.linked t ht hl
      exact ⟨u, List.mem_append_right _ hu, ha⟩

end Range

section Shapes

/-- A line of no control form is read as itself. -/
theorem readAt_single (hr : r.Numbered) (hi : i < r.lines.size)
    (hk : (r.lineAt i).form.kind ∉ [.forLoop, .whileLoop, .conditional, .elseIf, .elseMarker]) :
    r.ReadAt i (.single (r.lineAt i)) (i + 1) := by
  have hline : (r.lineAt i).line = i + 1 := hr.line i hi
  have hidx : (r.lineAt i).line - 1 = i := by omega
  have hm : ¬r.isMarkerAt i := by
    rintro (h | h) <;> simp [h] at hk
  refine ReadAt.of_parts hline ?_ (Nat.lt_succ_self i) hi (.inl rfl) (fun j h₁ h₂ _ => by omega)
    ?_ (by simp) ⟨?_, trivial⟩ (by simp) (by simp)
  · simp only [extent, hidx, if_neg hm]
    exact hline
  · constructor
    · exact List.Pairwise.nil
    · simp
    · intro j h₁ h₂
      omega
    · rintro j (⟨hm', -⟩ | hj)
      · rw [hidx] at hm'
        exact absurd hm' hm
      · simp at hj
    · intro j hj
      exact hj.elim
  · left
    constructor
    · simp only [hidx]
    · simp only [hidx]
      exact hk

/-- A marker that continues no conditional is read as an unrecognized line that skips
its own block. -/
theorem readAt_stray (hr : r.Numbered) (hi : i < r.lines.size) (hm : r.isMarkerAt i) :
    r.ReadAt i (.single ⟨(r.lineAt i).line, (r.lineAt i).text, .unrecognized⟩)
      (r.plainBlock i).next := by
  have hline : (r.lineAt i).line = i + 1 := hr.line i hi
  have hidx : (r.lineAt i).line - 1 = i := by omega
  have hext : r.extent (.single ⟨(r.lineAt i).line, (r.lineAt i).text, .unrecognized⟩) =
      (r.plainBlock i).next := by
    simp only [extent, hidx, if_pos hm]
  simp only [plainBlock_eq hi] at hext ⊢
  refine ReadAt.of_block hi hline hext ?_ (by simp) ⟨?_, trivial⟩ (by simp) (by simp)
  · -- the marker's own block is taken and hidden
    refine Covers.region.of_iff (fun j => ?_) (fun _ => Iff.rfl)
    simp [Conceals, hidx, hm, plainBlock_eq hi]
  · right
    constructor
    · simp only [hidx]
      exact hm
    · simp only [hidx]

/-- A loop header is read with the statements of its block as body. -/
theorem readAt_loop (hr : r.Numbered) (hi : i < r.lines.size)
    (hk : (r.lineAt i).form.kind = .forLoop ∨ (r.lineAt i).form.kind = .whileLoop)
    {body : List Stmt}
    (hb : r.ReadRange (i + 1) (r.stopOf i)
      (Block.bodyAfter r.lines i (Block.indentAt r.lines i)) body) :
    r.ReadAt i (.loop (r.lineAt i) body) (r.plainBlock i).next := by
  have hline : (r.lineAt i).line = i + 1 := hr.line i hi
  have hidx : (r.lineAt i).line - 1 = i := by omega
  have hspans : r.Spans i body := hb.spans rfl
  have hext : r.extent (.loop (r.lineAt i) body) = (r.plainBlock i).next := by
    simp only [extent, hidx]
  simp only [plainBlock_eq hi] at hext ⊢
  refine ReadAt.of_block hi hline hext ?_ (hb.nested_le fun j hj => Block.lt_after_of_mem hj)
    ⟨?_, ?_⟩ hb.lawful (hb.linked_in (Stmt.walk_subset_walkOne_loop _ _))
  · refine hspans.cover_after.of_iff (fun j => ?_) (fun _ => Iff.rfl)
    simp [Conceals]
  · show r.lineAt i = r.lineAt ((r.lineAt i).line - 1) ∧ _
    rw [hidx]
    exact ⟨rfl, hk⟩
  · show r.Spans ((r.lineAt i).line - 1) body
    rw [hidx]
    exact hspans

section Branch

variable {c : Classified} {body : List Stmt}

theorem conceals_branch (hc : c.line = i + 1) {e : Option (List Stmt)} {j : Nat} :
    r.Conceals (.branch c body e) j ↔
      (r.condBlock i).elseIndex = some j ∧ (r.lineAt j).form = .elseMarker := by
  have hidx : c.line - 1 = i := by omega
  simp only [Conceals, hidx]

theorem governs_branch (hc : c.line = i + 1) {e : Option (List Stmt)} :
    r.Governs (.branch c body e) ↔ r.Spans i body ∧ r.Continues r.Spans i e := by
  have hidx : c.line - 1 = i := by omega
  simp only [Governs, hidx]

/-- A conditional whose block no marker continues has its body and no else. -/
theorem readAt_branch_none (hr : r.Numbered) (hi : i < r.lines.size) (hc : c.line = i + 1)
    (hh : r.BranchHead c) (hn : (r.condBlock i).elseIndex = none)
    (hb : r.ReadRange (i + 1) (r.stopOf i)
      (Block.bodyAfter r.lines i (Block.indentAt r.lines i)) body) :
    r.ReadAt i (.branch c body none) (r.condBlock i).next := by
  have hidx : c.line - 1 = i := by omega
  have hspans : r.Spans i body := hb.spans rfl
  have hplain : r.condBlock i = r.plainBlock i := condBlock_of_none hr hi hn
  have hext : r.extent (.branch c body none) = (r.condBlock i).next := by
    simp only [extent, hidx, chainEnd_of_none hn]
  simp only [hplain, plainBlock_eq hi] at hext ⊢
  refine ReadAt.of_block hi hc hext ?_ ?_
    ⟨hh, (governs_branch hc).2 ⟨hspans, continues_none hr hi hn _⟩⟩ ?_ ?_
  · simp only [Stmt.descendants_branch, Stmt.walkElse_none, List.append_nil]
    refine hspans.cover_after.of_iff (fun j => ?_) (fun _ => Iff.rfl)
    simp [conceals_branch hc, hn]
  · simpa using hb.nested_le fun j hj => Block.lt_after_of_mem hj
  · simpa using hb.lawful
  · simpa using hb.linked_in (Stmt.walk_subset_walkOne_branch _ _ _)

/-- A conditional whose block continues at a marker of its indentation: the body read up
to the marker and the tail read from it, which reading resumes after. -/
theorem ReadAt.of_continued (hc : c.line = i + 1) (hh : r.BranchHead c)
    (hs : r.stopOf i < r.lines.size)
    (hd : Block.indentAt r.lines (r.stopOf i) = Block.indentAt r.lines i)
    {e : Option (List Stmt)} {res : Nat}
    (hb : r.ReadRange (i + 1) (r.stopOf i)
      (Block.bodyAfter r.lines i (Block.indentAt r.lines i)) body)
    (hres : r.extent (.branch c body e) = res) (hlt : r.stopOf i < res) (hle : res ≤ r.lines.size)
    (hlast : res = r.stopOf i + 1 ∨ Block.blankAt r.lines (res - 1) = false)
    (hwithin : ∀ j, r.stopOf i < j → j < res → Block.blankAt r.lines j = false →
      Block.indentAt r.lines i ≤ Block.indentAt r.lines j)
    (hcover : Covers r.lines (Stmt.walkElse e)
      (fun j => r.Conceals (.branch c body e) j ∨ r.Hidden (Stmt.walkElse e) j) (fun _ => False)
      (r.stopOf i) res)
    (hnested : ∀ t ∈ Stmt.walkElse e, t.head.line ≤ r.extent t ∧ r.extent t ≤ res)
    (hcont : r.Continues r.Spans i e)
    (hlawful : ∀ t ∈ Stmt.walkElse e, r.Presents t ∧ r.Governs t)
    (hlinked : ∀ t ∈ Stmt.walkElse e, r.IsLink t →
      ∃ u ∈ Stmt.walkOne (.branch c body e), r.Attaches u (t.head.line - 1)) :
    r.ReadAt i (.branch c body e) res := by
  have hik : i < r.stopOf i := Block.lt_stopAfter i _
  have hkb : Block.blankAt r.lines (r.stopOf i) = false := (Block.closes_at_stopAfter hs).1
  have hspans : r.Spans i body := hb.spans rfl
  refine ReadAt.of_parts hc hres (Nat.lt_trans hik hlt) hle ?last ?within ?cover ?nested
    ⟨hh, (governs_branch hc).2 ⟨hspans, hcont⟩⟩ ?lawful ?linked
  case last =>
    rcases hlast with h | h
    · right
      rw [h, Nat.add_sub_cancel]
      exact hkb
    · exact .inr h
  case within =>
    -- the body is deeper than the header, the marker level with it, the tail no shallower
    intro j h₁ h₂ hb'
    rcases Nat.lt_trichotomy j (r.stopOf i) with hj | rfl | hj
    · exact Nat.le_of_lt (Block.indent_lt_of_lt_stopAfter h₁ hj hb')
    · exact Nat.le_of_eq hd.symm
    · exact hwithin j hj h₂ hb'
  case cover =>
    have h := hspans.cover.append hcover (Nat.succ_le_of_lt hik) (Nat.le_of_lt hlt)
    rw [Stmt.descendants_branch]
    refine h.of_iff (fun j => ?_) (fun j => ?_)
    · simp only [hidden_append]
      exact or_left_comm
    · simp
  case nested =>
    intro t ht
    rw [Stmt.descendants_branch, List.mem_append] at ht
    rcases ht with ht | ht
    · refine hb.nested_le (fun j hj => ?_) t ht
      have : j < r.stopOf i := (Block.mem_bodyAfter.1 hj).2.1
      omega
    · exact hnested t ht
  case lawful =>
    intro t ht
    rw [Stmt.descendants_branch, List.mem_append] at ht
    rcases ht with ht | ht
    · exact hb.lawful t ht
    · exact hlawful t ht
  case linked =>
    intro t ht hl
    rw [Stmt.descendants_branch, List.mem_append] at ht
    rcases ht with ht | ht
    · exact hb.linked_in (Stmt.walk_subset_walkOne_branch _ _ _) t ht hl
    · exact hlinked t ht hl

/-- A conditional whose block continues with an else marker at its indentation has its
body and the marker's body as else body; the marker itself is hidden. -/
theorem readAt_branch_else (hr : r.Numbered) (hi : i < r.lines.size) (hc : c.line = i + 1)
    (hh : r.BranchHead c) (hs : r.stopOf i < r.lines.size)
    (hd : Block.indentAt r.lines (r.stopOf i) = Block.indentAt r.lines i)
    (hf : (r.lineAt (r.stopOf i)).form = .elseMarker) {eb : List Stmt}
    (hb : r.ReadRange (i + 1) (r.stopOf i)
      (Block.bodyAfter r.lines i (Block.indentAt r.lines i)) body)
    (he : r.ReadRange (r.stopOf i + 1) (Block.stopAfter r.lines (r.stopOf i) (Block.indentAt r.lines i))
      (Block.bodyAfter r.lines (r.stopOf i) (Block.indentAt r.lines i)) eb) :
    r.ReadAt i (.branch c body (some eb))
      (Block.after (r.stopOf i) (Block.bodyAfter r.lines (r.stopOf i) (Block.indentAt r.lines i))) := by
  have hidx : c.line - 1 = i := by omega
  have hkb : Block.blankAt r.lines (r.stopOf i) = false := (Block.closes_at_stopAfter hs).1
  have hblock := condBlock_of_else hr hi hs hd hf
  have helse : (r.condBlock i).elseIndex = some (r.stopOf i) := by rw [hblock]
  have hspans' : r.Spans (r.stopOf i) eb := he.spans hd
  refine ReadAt.of_continued hc hh hs hd hb ?resume Block.lt_after
    (Nat.le_trans Block.after_le_stopAfter (Block.stopAfter_le _ hs)) Block.after_last
    (fun j h₁ h₂ hb' => Nat.le_of_lt (Block.indent_lt_of_lt_after h₁ h₂ hb')) ?cover ?nested
    ?continues ?lawful ?linked
  case resume =>
    simp only [extent, hidx, chainEnd_of_elseMarker helse hf, hblock]
  case cover =>
    -- the hidden marker, then the else body up to where reading resumes
    have hafter := hspans'.cover_after
    rw [hd] at hafter
    have h := (Covers.marker hkb).append hafter (Nat.le_succ _) Block.lt_after
    rw [List.nil_append] at h
    rw [Stmt.walkElse_some]
    refine h.of_iff (fun j => ?_) (fun j => ?_)
    · have hmark : (r.condBlock i).elseIndex = some j ∧ (r.lineAt j).form = .elseMarker ↔
          j = r.stopOf i := by
        rw [helse, Option.some.injEq]
        constructor
        · rintro ⟨h₁, -⟩
          exact h₁.symm
        · rintro rfl
          exact ⟨rfl, hf⟩
      simp only [conceals_branch hc, hmark]
    · simp
  case nested =>
    rw [Stmt.walkElse_some]
    exact he.nested_le fun j hj => Block.lt_after_of_mem hj
  case continues =>
    unfold Continues
    rw [if_pos (And.intro hs hd)]
    simp only [hf]
    exact ⟨eb, rfl, hspans'⟩
  case lawful =>
    rw [Stmt.walkElse_some]
    exact he.lawful
  case linked =>
    refine he.linked_in ?_
    simpa using Stmt.walkElse_subset_walkOne_branch c body (some eb)

/-- A conditional whose block continues with an else-if marker at its indentation has
its body and, as else body, the next conditional of the chain read at the marker; the
chain ends where that conditional's reading does. -/
theorem readAt_branch_chain (hr : r.Numbered) (hi : i < r.lines.size) (hc : c.line = i + 1)
    (hh : r.BranchHead c) (hs : r.stopOf i < r.lines.size)
    (hd : Block.indentAt r.lines (r.stopOf i) = Block.indentAt r.lines i) {cond : SourceExpr}
    (hf : (r.lineAt (r.stopOf i)).form = .elseIf cond) {s' : Stmt} {res : Nat}
    (hb : r.ReadRange (i + 1) (r.stopOf i)
      (Block.bodyAfter r.lines i (Block.indentAt r.lines i)) body)
    (hs' : r.ReadAt (r.stopOf i) s' res)
    (hnext : ∃ body' e', s' = .branch ⟨(r.lineAt (r.stopOf i)).line, (r.lineAt (r.stopOf i)).text,
      .conditional cond⟩ body' e') :
    r.ReadAt i (.branch c body (some [s'])) res := by
  have hidx : c.line - 1 = i := by omega
  have hkb : Block.blankAt r.lines (r.stopOf i) = false := (Block.closes_at_stopAfter hs).1
  have helse : (r.condBlock i).elseIndex = some (r.stopOf i) := by
    rw [condBlock_of_elseIf hr hi hs hd hf]
  obtain ⟨body', e', hs'eq⟩ := hnext
  have hwalk : Stmt.walkElse (some [s']) = Stmt.walkOne s' := by simp [Stmt.walk_nil]
  refine ReadAt.of_continued hc hh hs hd hb ?resume hs'.lt hs'.le hs'.last ?within ?cover ?nested
    ?continues ?lawful ?linked
  case resume =>
    have hidx' : (r.lineAt (r.stopOf i)).line - 1 = r.stopOf i := by
      have := hr.line _ hs
      omega
    rw [← hs'.resume, hs'eq]
    simp only [extent, hidx, hidx', chainEnd_of_elseIf helse hf]
  case within =>
    intro j h₁ h₂ hb'
    rw [← hd]
    exact hs'.within j h₁ h₂ hb'
  case cover =>
    -- the chain read from the marker shows the marker's line
    rw [hwalk]
    refine hs'.cover.of_iff (fun j => ?_) (fun j => ?_)
    · have hmark : ¬((r.condBlock i).elseIndex = some j ∧ (r.lineAt j).form = .elseMarker) := by
        rintro ⟨h₁, h₂⟩
        rw [helse, Option.some.injEq] at h₁
        rw [← h₁, hf] at h₂
        cases h₂
      simp only [conceals_branch hc, hmark, false_or]
    · simp [hkb]
  case nested =>
    rw [hwalk]
    exact hs'.nested
  case continues =>
    unfold Continues
    rw [if_pos (And.intro hs hd)]
    simp only [hf]
    exact ⟨body', e', by rw [hs'eq]⟩
  case lawful =>
    rw [hwalk]
    exact hs'.lawful
  case linked =>
    intro t ht hl
    rw [hwalk] at ht
    have hsub : Stmt.walkOne s' ⊆ Stmt.walkOne (.branch c body (some [s'])) := by
      rw [← hwalk]
      exact Stmt.walkElse_subset_walkOne_branch c body (some [s'])
    by_cases hts : t = s'
    · -- the next conditional of the chain hangs from this one
      subst hts
      refine ⟨_, Stmt.mem_walkOne_self _, c, body, _, rfl, ?_⟩
      rw [hidx, helse, hs'.line, Nat.add_sub_cancel]
    · obtain ⟨u, hu, ha⟩ := hs'.linked t ht hl hts
      exact ⟨u, hsub hu, ha⟩

end Branch

end Shapes

section Induction

variable (r)

/-- Reading the indices `idx` with `room` calls left gives, for any window they form, what
`ReadRange` says. -/
def RangeSpec (room : Nat) (idx : List Nat) : Prop :=
  ∀ lo hi keep stmts, r.Window lo hi keep idx →
    Returns (r.readRange room idx) stmts → r.ReadRange lo hi idx stmts

/-- Reading the line `i` with `room` calls left gives what `ReadAt` says, and never a link
of a chain. -/
def AtSpec (room i : Nat) : Prop :=
  ∀ s res, i < r.lines.size → Returns (r.readAt room i) (s, res) → r.ReadAt i s res ∧ ¬r.IsLink s

/-- Reading a conditional with head `c` at line `i` with `room` calls left gives what
`ReadAt` says, a conditional with that head. -/
def CondSpec (room : Nat) (c : Classified) (i : Nat) : Prop :=
  ∀ s res, i < r.lines.size → c.line = i + 1 → r.BranchHead c →
    Returns (r.readConditional room c i) (s, res) → r.ReadAt i s res ∧ ∃ body e, s = .branch c body e

variable {r} {room : Nat}

theorem rangeSpec_nil (room : Nat) : r.RangeSpec room [] := by
  intro lo hi keep stmts hw h
  rw [readRange.eq_1] at h
  cases h.pure_eq
  exact ReadRange.nil hw

theorem rangeSpec_cons {rest : List Nat} (hat : r.AtSpec room i)
    (hrest : ∀ res, r.RangeSpec room (rest.dropWhile (· < res))) :
    r.RangeSpec room (i :: rest) := by
  intro lo hi keep stmts hw h
  rw [readRange.eq_2] at h
  obtain ⟨⟨s, res⟩, hs, h⟩ := h.bind
  obtain ⟨more, hm, h⟩ := h.bind
  cases h.pure_eq
  have hin : i < r.lines.size := Nat.lt_of_lt_of_le ((hw.mem i).1 List.mem_cons_self).2.1 hw.le
  obtain ⟨hs, hlink⟩ := hat s res hin hs
  exact ReadRange.cons hw hs hlink (hrest res res hi keep more (hw.tail hs.lt) hm)

/-- A reading too deep for its line gives nothing. -/
theorem atSpec_short (h : room < (r.lineAt i).form.kind.readCalls) : r.AtSpec room i := by
  intro s res _ hs
  rw [readAt_eq_short h] at hs
  exact absurd hs Returns.not_throw

theorem atSpec_loop (hr : r.Numbered)
    (hk : (r.lineAt i).form.kind = .forLoop ∨ (r.lineAt i).form.kind = .whileLoop)
    (hread : r.readAt room i = (r.readRange (room - 1) (r.plainBlock i).body >>= fun body =>
      pure (.loop (r.lineAt i) body, (r.plainBlock i).next)))
    (ih : r.RangeSpec (room - 1) (r.plainBlock i).body) : r.AtSpec room i := by
  intro s res hin h
  have hbody : (r.plainBlock i).body = Block.bodyAfter r.lines i (Block.indentAt r.lines i) := by
    rw [plainBlock_eq hin]
  rw [hread, hbody] at h
  rw [hbody] at ih
  obtain ⟨body, hb, h⟩ := h.bind
  cases h.pure_eq
  refine ⟨readAt_loop hr hin hk (ih _ _ _ body (window_body hin _) hb), ?_⟩
  rintro ⟨_, _, _, _, h, -⟩
  cases h

theorem atSpec_conditional (hr : r.Numbered) (hk : (r.lineAt i).form.kind = .conditional)
    (hread : r.readAt room i = r.readConditional (room - 1) (r.lineAt i) i)
    (ih : r.CondSpec (room - 1) (r.lineAt i) i) : r.AtSpec room i := by
  intro s res hin h
  rw [hread] at h
  have hline := hr.line i hin
  have hidx : (r.lineAt i).line - 1 = i := by omega
  have hh : r.BranchHead (r.lineAt i) := by
    unfold BranchHead
    left
    rw [hidx]
    exact ⟨rfl, hk⟩
  obtain ⟨hs, body, e, rfl⟩ := ih s res hin hline hh h
  refine ⟨hs, ?_⟩
  -- the line's own conditional is no link: its form is no else-if marker
  rintro ⟨c, body', e', cond, heq, hf⟩
  cases heq
  rw [hidx] at hf
  rw [hf] at hk
  cases hk

theorem atSpec_stray (hr : r.Numbered) (hm : r.isMarkerAt i)
    (hread : ∃ x : Reading Unit, r.readAt room i = (x >>= fun _ =>
      pure (.single ⟨(r.lineAt i).line, (r.lineAt i).text, .unrecognized⟩, (r.plainBlock i).next))) :
    r.AtSpec room i := by
  intro s res hin h
  obtain ⟨x, hx⟩ := hread
  rw [hx] at h
  obtain ⟨_, -, h⟩ := h.bind
  cases h.pure_eq
  refine ⟨readAt_stray hr hin hm, ?_⟩
  rintro ⟨_, _, _, _, h, -⟩
  cases h

theorem atSpec_single (hr : r.Numbered)
    (hk : (r.lineAt i).form.kind ∉ [.forLoop, .whileLoop, .conditional, .elseIf, .elseMarker])
    (hread : ∀ p, Returns (r.readAt room i) p → p = (.single (r.lineAt i), i + 1)) :
    r.AtSpec room i := by
  intro s res hin h
  cases hread _ h
  refine ⟨readAt_single hr hin hk, ?_⟩
  rintro ⟨_, _, _, _, h, -⟩
  cases h

/-- A conditional too deep to resolve its block gives nothing. -/
theorem condSpec_short (c : Classified) (h : room < blockCalls) : r.CondSpec room c i := by
  intro s res _ _ _ hs
  rw [readConditional_eq_short h] at hs
  exact absurd hs Returns.not_throw

/-- The head of the next conditional of a chain stands at its marker. -/
theorem branchHead_of_elseIf (hr : r.Numbered) {k : Nat} (hk : k < r.lines.size)
    {cond : SourceExpr} (hf : (r.lineAt k).form = .elseIf cond) :
    r.BranchHead ⟨(r.lineAt k).line, (r.lineAt k).text, .conditional cond⟩ := by
  have hidx : (r.lineAt k).line - 1 = k := by
    have := hr.line k hk
    omega
  unfold BranchHead
  right
  simp only [hidx]
  exact ⟨cond, hf, rfl⟩

theorem condSpec_room (hr : r.Numbered) {c : Classified} (hroom : ¬room < blockCalls)
    (ihb : r.RangeSpec (room - 1) (r.condBlock i).body)
    (ihk : ∀ k cond, r.CondSpec (room - 1) ⟨(r.lineAt k).line, (r.lineAt k).text, .conditional cond⟩ k)
    (ihe : r.RangeSpec (room - 1) (r.condBlock i).elseBody) : r.CondSpec room c i := by
  intro s res hin hc hh h
  rw [readConditional.eq_1, dif_neg hroom] at h
  obtain ⟨body, hb, h⟩ := h.bind
  rw [condBlock_body hr hin] at ihb hb
  have hb := ihb _ _ _ body (window_body hin _) hb
  split at h
  · -- no marker continues the block
    rename_i hn
    cases h.pure_eq
    exact ⟨readAt_branch_none hr hin hc hh hn hb, body, none, rfl⟩
  · rename_i k hk
    obtain ⟨rfl, hs, hd, hm⟩ := condBlock_elseIndex_eq hr hk
    dsimp only at h
    split at h
    · -- an else-if marker: the next conditional of the chain, read at the marker
      rename_i cond hf
      obtain ⟨⟨s', res'⟩, hs', h⟩ := h.bind
      cases h.pure_eq
      obtain ⟨hs', body', e', hs'eq⟩ := ihk _ cond s' res' hs (hr.line _ hs)
        (branchHead_of_elseIf hr hs hf) hs'
      exact ⟨readAt_branch_chain hr hin hc hh hs hd hf hb hs' ⟨body', e', hs'eq⟩, body, _, rfl⟩
    · -- an else marker: the else body is the marker's body
      rename_i hnot
      have hf : (r.lineAt (r.stopOf i)).form = .elseMarker :=
        (form_of_isMarkerAt hm).resolve_left (not_exists.2 hnot)
      have hblock := condBlock_of_else hr hin hs hd hf
      obtain ⟨eb, he, h⟩ := h.bind
      cases h.pure_eq
      rw [hblock] at ihe he ⊢
      have he := ihe _ _ _ eb (window_body hs _) he
      exact ⟨readAt_branch_else hr hin hc hh hs hd hf hb he, body, _, rfl⟩

/-- Every reading of a numbered source gives what its shape promises. -/
theorem read_spec (hr : r.Numbered) :
    (∀ room idx, r.RangeSpec room idx) ∧ (∀ room i, r.AtSpec room i) ∧
      ∀ room c i, r.CondSpec room c i := by
  apply TreeSource.readRange.mutual_induct r (RangeSpec r) (AtSpec r) (CondSpec r)
  case _ => exact rangeSpec_nil
  case _ =>
    intro room i rest hat hrest
    exact rangeSpec_cons hat hrest
  case _ => -- a line too deep to read
    intro room i
    exact atSpec_short
  case _ => -- a counted loop
    intro room i
    dsimp only
    intro hroom hk ih
    exact atSpec_loop hr (.inl hk) (readAt_eq_loop hroom (.inl hk)) ih
  case _ => -- a conditional loop
    intro room i
    dsimp only
    intro hroom hk ih
    exact atSpec_loop hr (.inr hk) (readAt_eq_loop hroom (.inr hk)) ih
  case _ => -- a conditional
    intro room i
    dsimp only
    intro hroom hk ih
    exact atSpec_conditional hr hk (readAt_eq_conditional hroom hk) ih
  case _ => -- a stray else-if marker
    intro room i
    dsimp only
    intro hroom hk
    exact atSpec_stray hr (.inl hk) ⟨_, readAt_eq_stray hroom (.inl hk)⟩
  case _ => -- a stray else marker
    intro room i
    dsimp only
    intro hroom hk
    exact atSpec_stray hr (.inr hk) ⟨_, readAt_eq_stray hroom (.inr hk)⟩
  case _ => -- an unrecognized line, reported
    intro room i
    dsimp only
    intro hroom hk
    refine atSpec_single hr (by simp [hk]) fun p h => ?_
    rw [readAt_eq_unrecognized hroom hk] at h
    obtain ⟨_, -, h⟩ := h.bind
    exact h.pure_eq.symm
  case _ => -- any other line
    intro room i
    dsimp only
    intro hroom h₁ h₂ h₃ h₄ h₅ h₆
    have hk : (r.lineAt i).form.kind ∉
        [.forLoop, .whileLoop, .conditional, .elseIf, .elseMarker] := by
      simp only [List.mem_cons, List.not_mem_nil, or_false, not_or]
      exact ⟨h₁, h₂, h₃, h₄, h₅⟩
    refine atSpec_single hr hk fun p h => ?_
    rw [readAt_eq_other hroom h₁ h₂ h₃ h₄ h₅ h₆] at h
    exact h.pure_eq.symm
  case _ => -- a conditional too deep to resolve its block
    intro room c i
    exact condSpec_short c
  case _ =>
    intro room c i hroom
    dsimp only
    intro ihb ihk ihe
    exact condSpec_room hr hroom ihb ihk ihe

/-- The tree read from a numbered source keeps its lines, and its statements, read at all
lines, meet `ReadRange`. -/
theorem tree_spec (hr : r.Numbered) {depth : Nat} {p : ParsedProgram} (h : r.tree depth = .ok p) :
    p.lines = r.lines ∧ r.ReadRange 0 r.lines.size (List.range r.lines.size) p.stmts := by
  unfold tree at h
  split at h
  · rename_i stmts ds hrun
    cases h
    exact ⟨rfl, (read_spec hr).1 _ _ 0 _ (fun _ => true) stmts window_all ⟨[], ds, hrun⟩⟩
  · cases h

end Induction

end TreeSource

end DnclTrace
