import DnclTrace.Program.Block

/-!
# Where a block ends

The body of a control line at indentation `d` runs over the lines after it up to
`Block.stopAfter`: the first non-blank line indented at most `d`, or the end of the
program. The body holds exactly the non-blank lines of that stretch, in order
(`mem_bodyAfter`, `bodyAfter_sorted`), each indented deeper than `d`. Reading resumes
at `Block.after`, one past the last line of the body; the lines from there up to the
stop are blank, so the next non-blank line is the stop itself (`nextNonBlank_after`).

With the kinds of all lines, a block continues with an else or else-if marker exactly
when the stop is one at indentation `d` (`resolve_else`, `resolve_elseIf`,
`resolve_plain_of`), and the marker is always a later line of the program
(`resolve_elseIndex`).

The same blocks at positions that may count from the end (`Span.resolve`, the driver's
reading of an index) are, at positions counted from the start, these blocks
(`Span.resolve_natCast`). Either way a block lies wholly after its line
(`BlockAhead`, `Span.resolve_ahead`, `Block.resolve_ahead`).
-/

namespace DnclTrace

namespace Block

variable (lines : Array SourceLine)

/-- Where a body indented deeper than `indent` after line `index` ends: the first
non-blank line after it indented at most `indent`, or the number of lines. -/
def stopAfter (index indent : Nat) : Nat :=
  index + 1 + ((List.range' (index + 1) (lines.size - (index + 1))).findIdx
    fun i => !(blankAt lines i || indent < indentAt lines i))

variable {lines}

theorem blankAt_of_size_le {j : Nat} (h : lines.size ≤ j) : blankAt lines j = true := by
  simp [blankAt, h]

theorem bodyAfter_eq (index indent : Nat) :
    bodyAfter lines index indent =
      (List.range' (index + 1) (stopAfter lines index indent - (index + 1))).filter
        fun i => !blankAt lines i := by
  have hr : (List.range (lines.size - (index + 1))).map (· + (index + 1)) =
      List.range' (index + 1) (lines.size - (index + 1)) := by
    rw [List.range'_eq_map_range]
    simp only [Nat.add_comm]
  have hle : (List.range' (index + 1) (lines.size - (index + 1))).findIdx
      (fun i => !(blankAt lines i || indent < indentAt lines i)) ≤ lines.size - (index + 1) := by
    simpa only [List.length_range'] using
      @List.findIdx_le_length Nat (fun i => !(blankAt lines i || indent < indentAt lines i))
        (List.range' (index + 1) (lines.size - (index + 1)))
  unfold bodyAfter stopAfter
  rw [hr, List.takeWhile_eq_take_findIdx_not, List.take_range'_of_length_ge hle,
    Nat.add_sub_cancel_left]

theorem lt_stopAfter (index indent : Nat) : index < stopAfter lines index indent := by
  unfold stopAfter
  omega

theorem stopAfter_le {index : Nat} (indent : Nat) (h : index < lines.size) :
    stopAfter lines index indent ≤ lines.size := by
  have := @List.findIdx_le_length Nat (fun i => !(blankAt lines i || indent < indentAt lines i))
    (List.range' (index + 1) (lines.size - (index + 1)))
  simp only [List.length_range'] at this
  unfold stopAfter
  omega

/-- Every line strictly between a header and the stop of its body is blank or deeper. -/
theorem open_of_lt_stopAfter {index indent j : Nat} (h₁ : index < j)
    (h₂ : j < stopAfter lines index indent) :
    blankAt lines j = true ∨ indent < indentAt lines j := by
  have hlt : j - (index + 1) < (List.range' (index + 1) (lines.size - (index + 1))).findIdx
      fun i => !(blankAt lines i || indent < indentAt lines i) := by
    unfold stopAfter at h₂
    omega
  have := List.not_of_lt_findIdx hlt
  simp only [List.getElem_range', Nat.one_mul, Bool.not_eq_false', Bool.or_eq_true,
    decide_eq_true_eq] at this
  rwa [show index + 1 + (j - (index + 1)) = j by omega] at this

/-- A non-blank line strictly between a header and the stop of its body is deeper. -/
theorem indent_lt_of_lt_stopAfter {index indent j : Nat} (h₁ : index < j)
    (h₂ : j < stopAfter lines index indent) (hb : blankAt lines j = false) :
    indent < indentAt lines j := by
  rcases open_of_lt_stopAfter h₁ h₂ with h | h
  · simp [h] at hb
  · exact h

/-- A stop before the end is a non-blank line at or below the indentation. -/
theorem closes_at_stopAfter {index indent : Nat} (h : stopAfter lines index indent < lines.size) :
    blankAt lines (stopAfter lines index indent) = false ∧
      indentAt lines (stopAfter lines index indent) ≤ indent := by
  have hlt : (List.range' (index + 1) (lines.size - (index + 1))).findIdx
      (fun i => !(blankAt lines i || indent < indentAt lines i)) <
      (List.range' (index + 1) (lines.size - (index + 1))).length := by
    simp only [List.length_range']
    unfold stopAfter at h
    omega
  have := List.findIdx_getElem (w := hlt)
  simp only [List.getElem_range', Nat.one_mul, Bool.not_eq_eq_eq_not, Bool.not_true,
    Bool.or_eq_false_iff, decide_eq_false_iff_not, Nat.not_lt] at this
  exact this

/-- No non-blank line at or below the indentation comes before the stop. -/
theorem stopAfter_le_of {index indent j : Nat} (h₁ : index < j) (hb : blankAt lines j = false)
    (hd : indentAt lines j ≤ indent) : stopAfter lines index indent ≤ j := by
  refine Nat.le_of_not_lt fun h₂ => ?_
  rcases open_of_lt_stopAfter h₁ h₂ with h | h
  · simp [h] at hb
  · omega

theorem mem_bodyAfter {index indent j : Nat} :
    j ∈ bodyAfter lines index indent ↔
      index < j ∧ j < stopAfter lines index indent ∧ blankAt lines j = false := by
  have := @lt_stopAfter lines index indent
  rw [bodyAfter_eq, List.mem_filter, List.mem_range'_1]
  constructor
  · rintro ⟨⟨h₁, h₂⟩, h₃⟩
    exact ⟨by omega, by omega, by simpa using h₃⟩
  · rintro ⟨h₁, h₂, h₃⟩
    exact ⟨⟨by omega, by omega⟩, by simpa using h₃⟩

theorem bodyAfter_sorted (index indent : Nat) :
    (bodyAfter lines index indent).Pairwise (· < ·) := by
  rw [bodyAfter_eq]
  exact (List.pairwise_lt_range' 1).filter _

/-- The lines of a body are indented deeper than its header's indentation. -/
theorem indent_lt_of_mem_bodyAfter {index indent j : Nat} (h : j ∈ bodyAfter lines index indent) :
    indent < indentAt lines j := by
  obtain ⟨h₁, h₂, h₃⟩ := mem_bodyAfter.1 h
  exact indent_lt_of_lt_stopAfter h₁ h₂ h₃

/-- Every element of a sorted list is at most its last. -/
theorem le_of_getLast? {xs : List Nat} {j k : Nat} (hs : xs.Pairwise (· < ·))
    (hl : xs.getLast? = some j) (hk : k ∈ xs) : k ≤ j := by
  obtain ⟨ys, rfl⟩ := List.getLast?_eq_some_iff.1 hl
  rw [List.pairwise_append] at hs
  rcases List.mem_append.1 hk with hk | hk
  · exact Nat.le_of_lt (hs.2.2 k hk j (List.mem_singleton_self j))
  · exact Nat.le_of_eq (List.mem_singleton.1 hk)

section After

variable {index indent : Nat}

theorem lt_after : index < after index (bodyAfter lines index indent) := by
  unfold after
  split
  · rename_i j hj
    exact Nat.lt_succ_of_lt (mem_bodyAfter.1 (List.mem_of_getLast? hj)).1
  · exact Nat.lt_succ_self _

theorem after_le_stopAfter :
    after index (bodyAfter lines index indent) ≤ stopAfter lines index indent := by
  unfold after
  split
  · rename_i j hj
    exact (mem_bodyAfter.1 (List.mem_of_getLast? hj)).2.1
  · exact lt_stopAfter index indent

/-- Reading resumes past the last non-blank line of the body: one past the header, or
one past a non-blank line. -/
theorem after_last :
    after index (bodyAfter lines index indent) = index + 1 ∨
      blankAt lines (after index (bodyAfter lines index indent) - 1) = false := by
  unfold after
  split
  · rename_i j hj
    exact .inr (mem_bodyAfter.1 (List.mem_of_getLast? hj)).2.2
  · exact .inl rfl

/-- Reading resumes past every line of the body. -/
theorem lt_after_of_mem {j : Nat} (h : j ∈ bodyAfter lines index indent) :
    j < after index (bodyAfter lines index indent) := by
  unfold after
  split
  · rename_i k hk
    exact Nat.lt_succ_of_le (le_of_getLast? (bodyAfter_sorted index indent) hk h)
  · rename_i hk
    simp [List.getLast?_eq_none_iff.1 hk] at h

/-- The non-blank lines before reading resumes are the body's. -/
theorem mem_bodyAfter_of_lt_after {j : Nat} (h₁ : index < j)
    (h₂ : j < after index (bodyAfter lines index indent)) (hb : blankAt lines j = false) :
    j ∈ bodyAfter lines index indent :=
  mem_bodyAfter.2 ⟨h₁, Nat.lt_of_lt_of_le h₂ after_le_stopAfter, hb⟩

/-- A non-blank line before reading resumes is deeper than the header. -/
theorem indent_lt_of_lt_after {j : Nat} (h₁ : index < j)
    (h₂ : j < after index (bodyAfter lines index indent)) (hb : blankAt lines j = false) :
    indent < indentAt lines j :=
  indent_lt_of_lt_stopAfter h₁ (Nat.lt_of_lt_of_le h₂ after_le_stopAfter) hb

/-- The lines between the end of the body and its stop are blank. -/
theorem blank_of_after_le {j : Nat} (h₁ : after index (bodyAfter lines index indent) ≤ j)
    (h₂ : j < stopAfter lines index indent) : blankAt lines j = true := by
  cases hb : blankAt lines j with
  | true => rfl
  | false =>
    have hmem : j ∈ bodyAfter lines index indent :=
      mem_bodyAfter.2 ⟨Nat.lt_of_lt_of_le lt_after h₁, h₂, hb⟩
    unfold after at h₁
    split at h₁
    · rename_i k hk
      have := le_of_getLast? (bodyAfter_sorted index indent) hk hmem
      omega
    · rename_i hk
      simp [List.getLast?_eq_none_iff.1 hk] at hmem

end After

/-- The first non-blank line from `start` is any `c` past a blank stretch from `start`
that is non-blank or the end. -/
theorem nextNonBlank_eq {start c : Nat} (h₁ : start ≤ c) (h₂ : c ≤ lines.size)
    (hblank : ∀ j, start ≤ j → j < c → blankAt lines j = true)
    (hend : c < lines.size → blankAt lines c = false) : nextNonBlank lines start = c := by
  have hr : (List.range (lines.size - start)).map (· + start) =
      List.range' start (lines.size - start) := by
    rw [List.range'_eq_map_range]
    simp only [Nat.add_comm]
  unfold nextNonBlank
  rw [hr]
  by_cases hc : c < lines.size
  · have : (List.range' start (lines.size - start)).find? (fun i => !blankAt lines i) = some c := by
      rw [List.find?_range'_eq_some]
      refine ⟨by simp [hend hc], List.mem_range'_1.2 ⟨h₁, by omega⟩, fun j hj₁ hj₂ => ?_⟩
      simp [hblank j hj₁ hj₂]
    simp [this]
  · have : (List.range' start (lines.size - start)).find? (fun i => !blankAt lines i) = none := by
      rw [List.find?_eq_none]
      intro j hj
      simp only [List.mem_range'_1] at hj
      simp [hblank j hj.1 (by omega)]
    simp only [this, Option.getD_none]
    omega

/-- After a body, the next non-blank line is its stop. -/
theorem nextNonBlank_after {index indent : Nat} (h : index < lines.size) :
    nextNonBlank lines (after index (bodyAfter lines index indent)) =
      stopAfter lines index indent :=
  nextNonBlank_eq after_le_stopAfter (stopAfter_le indent h)
    (fun _ h₁ h₂ => blank_of_after_le h₁ h₂) fun hs => (closes_at_stopAfter hs).1

theorem getElem?_indent {index : Nat} {line : SourceLine} (h : lines[index]? = some line) :
    line.indent = indentAt lines index := by
  simp [indentAt, h]

/-- The block of a control line, without else markers. -/
theorem resolve_none {index : Nat} (h : index < lines.size) :
    resolve lines index none =
      some { body := bodyAfter lines index (indentAt lines index),
             next := after index (bodyAfter lines index (indentAt lines index)) } := by
  have hl : lines[index]? = some lines[index] := getElem?_pos lines index h
  simp only [resolve, hl, getElem?_indent hl]

section Kinds

variable {ks : Array StmtKind} {index : Nat}

/-- A block whose stop is an else marker at its indentation takes the marker's own body
as its else body. -/
theorem resolve_else (h : index < lines.size)
    (hs : stopAfter lines index (indentAt lines index) < lines.size)
    (hd : indentAt lines (stopAfter lines index (indentAt lines index)) = indentAt lines index)
    (hk : ks[stopAfter lines index (indentAt lines index)]? = some .elseMarker) :
    resolve lines index (some ks) =
      some { body := bodyAfter lines index (indentAt lines index),
             elseIndex := some (stopAfter lines index (indentAt lines index)),
             elseBody := bodyAfter lines (stopAfter lines index (indentAt lines index))
               (indentAt lines index),
             next := after (stopAfter lines index (indentAt lines index))
               (bodyAfter lines (stopAfter lines index (indentAt lines index))
                 (indentAt lines index)) } := by
  have hl : lines[index]? = some lines[index] := getElem?_pos lines index h
  simp only [resolve, hl, getElem?_indent hl]
  rw [nextNonBlank_after h]
  simp only [Nat.not_le.2 hs, hd, ne_eq, not_true_eq_false, or_self, ↓reduceIte, hk]

/-- A block whose stop is an else-if marker at its indentation hands the marker on, and
reading resumes at it. -/
theorem resolve_elseIf (h : index < lines.size)
    (hs : stopAfter lines index (indentAt lines index) < lines.size)
    (hd : indentAt lines (stopAfter lines index (indentAt lines index)) = indentAt lines index)
    (hk : ks[stopAfter lines index (indentAt lines index)]? = some .elseIf) :
    resolve lines index (some ks) =
      some { body := bodyAfter lines index (indentAt lines index),
             elseIndex := some (stopAfter lines index (indentAt lines index)),
             next := stopAfter lines index (indentAt lines index) } := by
  have hl : lines[index]? = some lines[index] := getElem?_pos lines index h
  simp only [resolve, hl, getElem?_indent hl]
  rw [nextNonBlank_after h]
  simp only [Nat.not_le.2 hs, hd, ne_eq, not_true_eq_false, or_self, ↓reduceIte, hk]

/-- A block whose stop is no marker at its indentation is the plain block. -/
theorem resolve_plain_of (h : index < lines.size)
    (hno : ¬(stopAfter lines index (indentAt lines index) < lines.size ∧
      indentAt lines (stopAfter lines index (indentAt lines index)) = indentAt lines index ∧
      (ks[stopAfter lines index (indentAt lines index)]? = some .elseMarker ∨
        ks[stopAfter lines index (indentAt lines index)]? = some .elseIf))) :
    resolve lines index (some ks) = resolve lines index none := by
  have hl : lines[index]? = some lines[index] := getElem?_pos lines index h
  simp only [resolve, hl, getElem?_indent hl]
  rw [nextNonBlank_after h]
  by_cases hc : stopAfter lines index (indentAt lines index) < lines.size ∧
      indentAt lines (stopAfter lines index (indentAt lines index)) = indentAt lines index
  · have hk : ks[stopAfter lines index (indentAt lines index)]? ≠ some .elseMarker ∧
        ks[stopAfter lines index (indentAt lines index)]? ≠ some .elseIf := by
      constructor <;> intro hk <;> exact hno ⟨hc.1, hc.2, by simp [hk]⟩
    simp only [Nat.not_le.2 hc.1, hc.2, ne_eq, not_true_eq_false, or_self, ↓reduceIte]
    split
    · exact absurd ‹_› hk.1
    · exact absurd ‹_› hk.2
    · rfl
  · rw [if_pos (by omega)]

/-- An else index is the stop of the body, a later line of the program. -/
theorem resolve_elseIndex {b : Block} {k : Nat} (hb : resolve lines index (some ks) = some b)
    (hk : b.elseIndex = some k) : index < k ∧ k < lines.size := by
  have h : index < lines.size := by
    refine Nat.lt_of_not_le fun hle => ?_
    simp [resolve, getElem?_neg lines index (Nat.not_lt.2 hle)] at hb
  by_cases hc : stopAfter lines index (indentAt lines index) < lines.size ∧
      indentAt lines (stopAfter lines index (indentAt lines index)) = indentAt lines index ∧
      (ks[stopAfter lines index (indentAt lines index)]? = some .elseMarker ∨
        ks[stopAfter lines index (indentAt lines index)]? = some .elseIf)
  · have hlt := @lt_stopAfter lines index (indentAt lines index)
    rcases hc.2.2 with he | he
    · rw [resolve_else h hc.1 hc.2.1 he] at hb
      cases hb
      cases hk
      exact ⟨hlt, hc.1⟩
    · rw [resolve_elseIf h hc.1 hc.2.1 he] at hb
      cases hb
      cases hk
      exact ⟨hlt, hc.1⟩
  · rw [resolve_plain_of h hc, resolve_none h] at hb
    cases hb
    cases hk

end Kinds

end Block

/-! ## Positions counted from either end

`Span.resolve` reads a position that may count from the end. At a position counted from
the start it finds the block `Block.resolve` finds at that index, its lines given as
positions (`Span.resolve_natCast`).
-/

/-- The block, its positions counted from the start. -/
def Block.toSpan (b : Block) : Span :=
  ⟨b.body.map (fun j : Nat => (j : Int)), b.elseIndex.map (fun j : Nat => (j : Int)),
    b.elseBody.map (fun j : Nat => (j : Int)), b.next⟩

namespace Span

variable {lines : Array SourceLine}

@[simp] theorem at?_natCast {α : Type} (xs : Array α) (i : Nat) : at? xs (i : Int) = xs[i]? := by
  simp [at?]

theorem positionsFrom_natCast (start : Nat) :
    positionsFrom lines (start : Int) =
      ((List.range (lines.size - start)).map (· + start)).map (fun j : Nat => (j : Int)) := by
  unfold positionsFrom
  have hlen : ((lines.size : Int) - start).toNat = lines.size - start := by omega
  rw [hlen, List.map_map]
  congr 1
  funext k
  simp only [Function.comp_apply]
  omega

@[simp] theorem blankAt_natCast (i : Nat) : blankAt lines (i : Int) = Block.blankAt lines i := by
  simp [blankAt, Block.blankAt]

@[simp] theorem indentAt_natCast (i : Nat) : indentAt lines (i : Int) = Block.indentAt lines i := by
  simp [indentAt, Block.indentAt]

theorem bodyAfter_natCast (index indent : Nat) :
    bodyAfter lines (index : Int) indent =
      (Block.bodyAfter lines index indent).map (fun j : Nat => (j : Int)) := by
  unfold bodyAfter Block.bodyAfter
  rw [show (index : Int) + 1 = ((index + 1 : Nat) : Int) by omega, positionsFrom_natCast,
    List.takeWhile_map, List.filter_map]
  simp only [Function.comp_def, blankAt_natCast, indentAt_natCast]

theorem nextNonBlank_natCast (start : Nat) :
    nextNonBlank lines (start : Int) = (Block.nextNonBlank lines start : Int) := by
  unfold nextNonBlank Block.nextNonBlank
  rw [positionsFrom_natCast, List.find?_map]
  simp only [Function.comp_def, blankAt_natCast]
  cases (List.map (· + start) (List.range (lines.size - start))).find?
    (fun i => !Block.blankAt lines i) <;> rfl

/-- At a position counted from the start, a block is found as from the index: the same
lines, their positions counted from the start. -/
theorem resolve_natCast (index : Nat) (kinds : Option (Array StmtKind)) :
    resolve lines (index : Int) kinds = (Block.resolve lines index kinds).map Block.toSpan := by
  unfold resolve Block.resolve
  rw [at?_natCast]
  rcases hl : lines[index]? with _ | line
  · rfl
  · dsimp -zeta only
    extract_lets body after plain cand eb next nbody nplain ncand neb
    -- each value of the first reading is the cast of the second's
    have hbody : body = nbody.map fun j : Nat => (j : Int) := bodyAfter_natCast index line.indent
    have hafter : after = (Block.after index nbody : Int) := by
      simp only [after, hbody, List.getLast?_map]
      unfold Block.after
      rcases nbody.getLast? with _ | j <;> simp
    have hplain : plain = nplain.toSpan := by
      simp only [plain, nplain, Block.toSpan, hbody, hafter, Option.map_none, List.map_nil]
    have hcand : cand = (ncand : Int) := by simp only [cand, ncand, hafter, nextNonBlank_natCast]
    have heb : eb = neb.map fun j : Nat => (j : Int) := by
      simp only [eb, neb, hcand, bodyAfter_natCast]
    have hnext : next = (Block.after ncand neb : Int) := by
      simp only [next, heb, hcand, List.getLast?_map]
      unfold Block.after
      rcases neb.getLast? with _ | j <;> simp
    clear_value body after plain cand eb next nbody nplain ncand neb
    subst hplain hcand heb hnext
    rcases kinds with _ | ks
    · rfl
    · have hsize : ((lines.size : Int) ≤ (ncand : Int)) ↔ lines.size ≤ ncand := Int.ofNat_le
      simp only [hsize, indentAt_natCast, at?_natCast]
      by_cases hc : lines.size ≤ ncand ∨ Block.indentAt lines ncand ≠ line.indent
      · rw [if_pos hc, if_pos hc]
        rfl
      · rw [if_neg hc, if_neg hc]
        rcases ks[ncand]? with _ | k
        · rfl
        · cases k <;> rfl

end Span

section Ahead

/-- A block found at position `i` lies wholly after it: the lines of its body and of its
else body, its else marker, and the position where reading resumes, which is never
before the marker. -/
structure BlockAhead {α : Type} [LT α] [LE α] (i : α) (body elseBody : List α)
    (elseIndex : Option α) (next : α) : Prop where
  inBody : ∀ j ∈ body, i < j
  inElse : ∀ j ∈ elseBody, i < j
  marker : ∀ k, elseIndex = some k → i < k ∧ k ≤ next
  resumes : i < next

namespace Span

variable {lines : Array SourceLine}

theorem le_of_mem_positionsFrom {start j : Int} (h : j ∈ positionsFrom lines start) :
    start ≤ j := by
  obtain ⟨k, -, rfl⟩ := List.mem_map.1 h
  omega

theorem lt_of_mem_bodyAfter {index j : Int} {indent : Nat}
    (h : j ∈ bodyAfter lines index indent) : index < j := by
  have := le_of_mem_positionsFrom (List.takeWhile_subset _ (List.mem_filter.1 h).1)
  omega

theorem le_nextNonBlank {start : Int} (h : nextNonBlank lines start < lines.size) :
    start ≤ nextNonBlank lines start := by
  unfold nextNonBlank at h ⊢
  rcases hf : (positionsFrom lines start).find? (fun i => !blankAt lines i) with _ | c
  · simp only [hf, Option.getD_none] at h
    omega
  · exact le_of_mem_positionsFrom (List.mem_of_find?_eq_some hf)

/-- The block found at any position, counted from either end, lies after it. -/
theorem resolve_ahead {i : Int} {ks : Option (Array StmtKind)} {s : Span}
    (h : resolve lines i ks = some s) : BlockAhead i s.body s.elseBody s.elseIndex s.next := by
  unfold resolve at h
  rcases hl : at? lines i with _ | line
  · simp only [hl, reduceCtorEq] at h
  simp -zeta only [hl] at h
  extract_lets body after plain cand eb next at h
  -- the body lies past the header, and reading resumes past both
  have hbody : ∀ j ∈ body, i < j := fun j hj => lt_of_mem_bodyAfter hj
  have hafter : i < after := by
    simp only [after]
    rcases hg : body.getLast? with _ | j
    · simp only
      omega
    · have := hbody j (List.mem_of_getLast? hg)
      simp only
      omega
  -- an else body lies past its marker, and reading resumes past both
  have heb : ∀ j ∈ eb, cand < j := fun j hj => lt_of_mem_bodyAfter hj
  have hnext : cand < next := by
    simp only [next]
    rcases hg : eb.getLast? with _ | j
    · simp only
      omega
    · have := heb j (List.mem_of_getLast? hg)
      simp only
      omega
  have hcand : cand < lines.size → after ≤ cand := le_nextNonBlank
  have hplain : plain = { body := body, next := after } := rfl
  clear_value body after plain cand eb next
  subst hplain
  have plain_ahead : BlockAhead i body [] none after := ⟨hbody, by simp, by simp, hafter⟩
  rcases ks with _ | ks
  · cases h
    exact plain_ahead
  dsimp only at h
  by_cases hc : (lines.size : Int) ≤ cand ∨ indentAt lines cand ≠ line.indent
  · rw [if_pos hc] at h
    cases h
    exact plain_ahead
  rw [if_neg hc] at h
  have hic : i < cand := Int.lt_of_lt_of_le hafter (hcand (by omega))
  rcases hk : at? ks cand with _ | kind
  · simp only [hk] at h
    cases h
    exact plain_ahead
  cases kind <;> simp only [hk] at h
  case elseMarker =>
    cases h
    refine ⟨hbody, fun j hj => Int.lt_trans hic (heb j hj), ?_, Int.lt_trans hic hnext⟩
    rintro k ⟨⟩
    exact ⟨hic, Int.le_of_lt hnext⟩
  case elseIf =>
    -- reading resumes at the marker, where the next conditional of the chain stands
    cases h
    refine ⟨hbody, by simp, ?_, hic⟩
    rintro k ⟨⟩
    exact ⟨hic, Int.le_refl _⟩
  all_goals
    cases h
    exact plain_ahead

end Span

namespace Block

variable {lines : Array SourceLine}

theorem le_nextNonBlank {start : Nat} (h : nextNonBlank lines start < lines.size) :
    start ≤ nextNonBlank lines start := by
  unfold nextNonBlank at h ⊢
  rcases hf : ((List.range (lines.size - start)).map (· + start)).find?
      (fun i => !blankAt lines i) with _ | c
  · simp only [hf, Option.getD_none] at h
    omega
  · obtain ⟨k, -, rfl⟩ := List.mem_map.1 (List.mem_of_find?_eq_some hf)
    simp

theorem lt_size_of_mem_bodyAfter {index indent j : Nat} (h : j ∈ bodyAfter lines index indent) :
    j < lines.size := by
  refine Nat.lt_of_not_le fun hle => ?_
  have := (mem_bodyAfter.1 h).2.2
  rw [blankAt_of_size_le hle] at this
  cases this

/-- The block the reader finds at a line lies after it, and its lines are lines of the
program. -/
theorem resolve_ahead {i : Nat} {ks : Option (Array StmtKind)} {b : Block}
    (h : resolve lines i ks = some b) :
    BlockAhead i b.body b.elseBody b.elseIndex b.next ∧ ∀ j ∈ b.body ++ b.elseBody, j < lines.size := by
  unfold resolve at h
  rcases hl : lines[i]? with _ | line
  · simp only [hl, reduceCtorEq] at h
  simp -zeta only [hl] at h
  extract_lets body plain cand eb at h
  have hbody : ∀ j ∈ body, i < j ∧ j < lines.size := fun j hj =>
    ⟨bodyAfter_gt lines i _ j hj, lt_size_of_mem_bodyAfter hj⟩
  have hafter : i < after i body := lt_after
  have heb : ∀ j ∈ eb, cand < j ∧ j < lines.size := fun j hj =>
    ⟨bodyAfter_gt lines cand _ j hj, lt_size_of_mem_bodyAfter hj⟩
  have hnext : cand < after cand eb := lt_after
  have hcand : cand < lines.size → after i body ≤ cand := le_nextNonBlank
  have hplain : plain = { body := body, next := after i body } := rfl
  clear_value body plain cand eb
  subst hplain
  have plain_ahead : BlockAhead i body [] none (after i body) ∧ ∀ j ∈ body ++ [], j < lines.size :=
    ⟨⟨fun j hj => (hbody j hj).1, by simp, by simp, hafter⟩,
      fun j hj => (hbody j (by simpa using hj)).2⟩
  rcases ks with _ | ks
  · cases h
    exact plain_ahead
  dsimp only at h
  by_cases hc : lines.size ≤ cand ∨ indentAt lines cand ≠ line.indent
  · rw [if_pos hc] at h
    cases h
    exact plain_ahead
  rw [if_neg hc] at h
  have hic : i < cand := Nat.lt_of_lt_of_le hafter (hcand (by omega))
  rcases hk : ks[cand]? with _ | kind
  · simp only [hk] at h
    cases h
    exact plain_ahead
  cases kind <;> simp only [hk] at h
  case elseMarker =>
    cases h
    refine ⟨⟨fun j hj => (hbody j hj).1, fun j hj => Nat.lt_trans hic (heb j hj).1, ?_,
      Nat.lt_trans hic hnext⟩, fun j hj => ?_⟩
    · rintro k ⟨⟩
      exact ⟨hic, Nat.le_of_lt hnext⟩
    · rcases List.mem_append.1 hj with hj | hj
      · exact (hbody j hj).2
      · exact (heb j hj).2
  case elseIf =>
    -- reading resumes at the marker, where the next conditional of the chain stands
    cases h
    refine ⟨⟨fun j hj => (hbody j hj).1, by simp, ?_, hic⟩, fun j hj => ?_⟩
    · rintro k ⟨⟩
      exact ⟨hic, Nat.le_refl _⟩
    · exact (hbody j (by simpa using hj)).2
  all_goals
    cases h
    exact plain_ahead

end Block

end Ahead

end DnclTrace
