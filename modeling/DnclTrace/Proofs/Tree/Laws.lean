import DnclTrace.Proofs.Tree.Program
import DnclTrace.Proofs.Line.Recognize

/-!
# The laws of a program tree

Two laws hold of every tree a program reads to, under either policy.

The law of blocks (`TreeSource.BlockLaw`): the statements of a loop's or conditional's
body are indented deeper than its line, and the statements reached through the body are
exactly the statements of the tree on the non-blank lines after its line up to the stop
of its block, the first non-blank line indented no deeper. A conditional continues with
an else body under the same law at an else marker of its indentation, with the one
conditional of a chain at an else-if marker, and with nothing otherwise
(`read_blocks_enclosed`). The restriction to non-blank lines is needed: a blank line
after the last line of a body, before the stop, is read by the root list as a blank
statement of its own (`read_blank_line_outside_body`).

The law of lines (`TreeSource.ShowsLines`): the walk of the tree visits lines in
increasing order; each statement shows the classification of its own line; a marker
shows as a conditional exactly when a conditional takes it; every non-blank line is
shown once unless a statement hides it; and a blank line is shown, as a blank statement
of the root list, exactly when no statement took it (`read_shows_lines`).
-/

namespace DnclTrace

namespace TreeSource

variable (r : TreeSource)

/-- The law of the block of the line at `i` in a tree whose walk is `all`: the statements
of `body` are indented deeper than line `i`, and the statements reached through `body` are
exactly those of `all` on the non-blank lines after line `i`, before the stop of its
block. -/
structure Encloses (all : List Stmt) (i : Nat) (body : List Stmt) : Prop where
  deeper : ∀ u ∈ body, Block.indentAt r.lines i < Block.indentAt r.lines (u.head.line - 1)
  reach : ∀ t, t ∈ Stmt.walk body ↔ t ∈ all ∧ i < t.head.line - 1 ∧
    t.head.line - 1 < r.stopOf i ∧ Block.blankAt r.lines (t.head.line - 1) = false

/-- Every loop and conditional of a tree whose walk is `all` meets the law of its block;
a conditional continues with what its block continues with, an else body under the law
of the marker's block. -/
def BlockLaw (all : List Stmt) : Stmt → Prop
  | .single _ => True
  | .loop c body => r.Encloses all (c.line - 1) body
  | .branch c body orElse =>
    r.Encloses all (c.line - 1) body ∧ r.Continues (r.Encloses all) (c.line - 1) orElse

variable {r}

/-- What a conditional continues with keeps its shape when the law of its else body is
weakened. -/
theorem Continues.imp {P Q : Nat → List Stmt → Prop} {i : Nat} {orElse : Option (List Stmt)}
    (h : ∀ k eb, orElse = some eb → P k eb → Q k eb) (hc : r.Continues P i orElse) :
    r.Continues Q i orElse := by
  unfold Continues at hc ⊢
  split
  · rename_i hcond
    rw [if_pos hcond] at hc
    dsimp only at hc ⊢
    generalize r.lineAt (r.stopOf i) = l at hc ⊢
    obtain ⟨line, text, form⟩ := l
    cases form with
    | elseMarker =>
      obtain ⟨eb, rfl, hp⟩ := hc
      exact ⟨eb, rfl, h _ eb rfl hp⟩
    | _ => exact hc
  · rename_i hcond
    rw [if_neg hcond] at hc
    exact hc

section Root

variable {n : Nat} {idx : List Nat} {stmts : List Stmt}

/-- A body read inside the tree, spanning its block, meets the law of the block: a line of
the block that the tree shows is not hidden by the body, so the body shows it too. -/
theorem Spans.encloses (hR : r.ReadRange 0 n idx stmts) {i : Nat} {body : List Stmt}
    (hsub : Stmt.walk body ⊆ Stmt.walk stmts) (hs : r.Spans i body) :
    r.Encloses (Stmt.walk stmts) i body where
  deeper := hs.deeper
  reach t := by
    constructor
    · intro ht
      have hrange := hs.cover.range t ht
      rcases hs.cover.shown_of_mem ht with ⟨hb, -⟩ | ⟨-, hf⟩
      · exact ⟨hsub ht, by omega, by omega, hb⟩
      · exact hf.elim
    · rintro ⟨ht, h₁, h₂, hb⟩
      have hrange := hR.cover.range t ht
      have hnh : ¬r.Hidden (Stmt.walk body) (t.head.line - 1) := by
        intro hh
        rcases hR.cover.shown_of_mem ht with ⟨-, hn⟩ | ⟨hb', -⟩
        · exact hn (hh.mono hsub)
        · rw [hb] at hb'
          cases hb'
      obtain ⟨t', ht', hl⟩ := List.mem_map.1
        ((hs.cover.shown _ (by omega) h₂).2 (.inl ⟨hb, hnh⟩))
      rw [eq_of_line_eq hR.cover.sorted ht (hsub ht') (by omega)]
      exact ht'

/-- A statement of the tree that governs its blocks meets their laws. -/
theorem blockLaw_of_governs (hR : r.ReadRange 0 n idx stmts) {t : Stmt}
    (ht : t ∈ Stmt.walk stmts) (hg : r.Governs t) : r.BlockLaw (Stmt.walk stmts) t := by
  have hsub := Stmt.walkOne_subset_walk ht
  cases t with
  | single c => trivial
  | loop c body =>
    exact hg.encloses hR (List.Subset.trans (Stmt.walk_subset_walkOne_loop c body) hsub)
  | branch c body orElse =>
    refine ⟨hg.1.encloses hR
        (List.Subset.trans (Stmt.walk_subset_walkOne_branch c body orElse) hsub),
      hg.2.imp fun k eb he hs => hs.encloses hR ?_⟩
    subst he
    have helse := Stmt.walkElse_subset_walkOne_branch c body (some eb)
    rw [Stmt.walkElse_some] at helse
    exact List.Subset.trans helse hsub

end Root

end TreeSource

open TreeSource

section BlankAfterBody

/-! A conditional whose body is followed by a blank line before the next statement of the
root list:

    もし x ならば:
      y ← 1

    z ← 2
-/

open Line Pattern

private theorem atoms_tokenize :
    Expr.tokenize (Expr.normalize "x") = .ok [.ident "x"] ∧
      Expr.tokenize (Expr.normalize "1") = .ok [.number "1"] ∧
      Expr.tokenize (Expr.normalize "2") = .ok [.number "2"] := by
  refine ⟨?_, ?_, ?_⟩ <;>
    simp [Expr.normalize, Expr.wordSpellings, Expr.replaceAll, Expr.narrowChar, Expr.tokenize,
      Expr.scan, Expr.tokenAt, Expr.isNameStart, Expr.wordToken, Expr.numeralTail, Text.isDecimal,
      Text.digitValue?, Text.decimalRanges, Text.isBlank, Text.blankCodes, pure, Except.pure]

/-- The line opening a conditional on `x`, classified with its condition. -/
theorem classify_if_x (line : Nat) : classify 2 "もし x ならば:" line =
    .ok ⟨line, "もし x ならば:", .conditional ⟨"x", .ok (.var "x")⟩⟩ := by
  have hs : stripComment "もし x ならば:" = "もし x ならば:" := by decide
  have hh : isControlHeader "もし x ならば:" = true := by decide
  have hx : SourceExpr.read 4 (groupText "もし x ならば:".toList [(3, 5), (2, 6)] 1) =
      .ok ⟨"x", .ok (.var "x")⟩ :=
    SourceExpr.read_of_tokens (by decide) atoms_tokenize.1 (Expr.parseTokens_ident 984 "x")
  have hf : firstForm 3 recognizers (stripComment "もし x ならば:") =
      .ok (some (.conditional ⟨"x", .ok (.var "x")⟩)) := by
    rw [hs, recognizers, firstForm_cons_none (unlessHeader_of_header hh),
      firstForm_cons_none (unlessHeader_of_header hh),
      firstForm_cons_none (forLoop?_none (by decide)),
      firstForm_cons_none (conditionForm?_none (by decide)),
      firstForm_cons_some (conditionForm?_some (by decide) hx)]
  rw [classify_of_form (by decide) (by decide) (by decide) hf, hs]

/-- An assignment of a one-digit numeral, classified with its target and value. -/
private theorem classify_assign_digit {text name digit : String} {line : Nat} {m : Marks} {v : Int}
    (hs : stripComment text = text) (hne : text.isEmpty = false) (hc : isCommentLine text = false)
    (hh : isControlHeader text = false)
    (ha : matchStart arrayDeclarePattern text.toList = none)
    (hi : matchStart indexTargetPattern text.toList = none)
    (hm : matchStart assignPattern text.toList = some m) (hn : groupText text.toList m 1 = name)
    (hd : Text.trimText (groupText text.toList m 2) = digit)
    (ht : Expr.tokenize (Expr.normalize digit) = .ok [.number digit])
    (hv : Expr.numeralValue digit = .ok (.int v)) :
    classify 2 text line = .ok ⟨line, text, .assign name ⟨digit, .ok (.num (.int v))⟩⟩ := by
  have he : SourceExpr.read 5 (groupText text.toList m 2) = .ok ⟨digit, .ok (.num (.int v))⟩ :=
    SourceExpr.read_of_tokens hd ht (Expr.parseTokens_number 983 hv)
  have hf : firstForm 3 recognizers (stripComment text) =
      .ok (some (.assign name ⟨digit, .ok (.num (.int v))⟩)) := by
    rw [hs, recognizers,
      firstForm_cons_none ((unlessHeader_of_not_header hh).trans (arrayDeclare?_none ha)),
      firstForm_cons_none ((unlessHeader_of_not_header hh).trans (indexAssign?_none hi)),
      firstForm_cons_none (forLoop?_none (matchStart_none_of_not_header hh (by simp))),
      firstForm_cons_none (conditionForm?_none (matchStart_none_of_not_header hh (by simp))),
      firstForm_cons_none (conditionForm?_none (matchStart_none_of_not_header hh (by simp))),
      firstForm_cons_none (elseMarker?_none (matchStart_none_of_not_header hh (by simp))
        (matchStart_none_of_not_header hh (by simp))),
      firstForm_cons_some ((unlessHeader_of_not_header hh).trans (assign?_some hm he)), hn]
  rw [classify_of_form hne hc (by rw [hs]; exact hne) hf, hs]

/-- The lines of the program, classified. -/
theorem ofSource_blank_after_body :
    TreeSource.ofSource 0 "もし x ならば:\n  y ← 1\n\nz ← 2" .lenient =
      .ok ⟨SourceLine.ofSource "もし x ならば:\n  y ← 1\n\nz ← 2",
        #[⟨1, "もし x ならば:", .conditional ⟨"x", .ok (.var "x")⟩⟩,
          ⟨2, "y ← 1", .assign "y" ⟨"1", .ok (.num (.int 1))⟩⟩, ⟨3, "", .blank⟩,
          ⟨4, "z ← 2", .assign "z" ⟨"2", .ok (.num (.int 2))⟩⟩], .lenient⟩ := by
  have hl : (SourceLine.ofSource "もし x ならば:\n  y ← 1\n\nz ← 2").toList =
      [⟨1, 0, "もし x ならば:"⟩, ⟨2, 2, "y ← 1"⟩, ⟨3, 0, ""⟩, ⟨4, 0, "z ← 2"⟩] := by decide
  have hy : classify 2 "y ← 1" 2 = .ok ⟨2, "y ← 1", .assign "y" ⟨"1", .ok (.num (.int 1))⟩⟩ :=
    classify_assign_digit (m := [(5, 0), (4, 1), (3, 4), (2, 5)]) (by decide) (by decide)
      (by decide) (by decide) (by decide) (by decide) (by decide) (by decide) (by decide)
      atoms_tokenize.2.1 rfl
  have hz : classify 2 "z ← 2" 4 = .ok ⟨4, "z ← 2", .assign "z" ⟨"2", .ok (.num (.int 2))⟩⟩ :=
    classify_assign_digit (m := [(5, 0), (4, 1), (3, 4), (2, 5)]) (by decide) (by decide)
      (by decide) (by decide) (by decide) (by decide) (by decide) (by decide) (by decide)
      atoms_tokenize.2.2 rfl
  have hb : classify 2 "" 3 = .ok ⟨3, "", .blank⟩ := rfl
  simp only [TreeSource.ofSource, Nat.zero_add, hl, List.mapM_cons, List.mapM_nil, classify_if_x,
    hy, hz, hb]
  rfl

/-- Four lines, a conditional whose block holds the second, then two plain lines, read as
the conditional with its body and the two lines after it. -/
private theorem tree_conditional_then_plain {r : TreeSource} {depth : Nat}
    (hsize : r.lines.size = 4) (hroom : 4 ≤ callLimit - (depth + 1))
    (h0 : (r.lineAt 0).form.kind = .conditional) (hb : r.condBlock 0 = { body := [1], next := 2 })
    (hk : ∀ i ∈ [1, 2, 3], (r.lineAt i).form.kind ∉
      [.forLoop, .whileLoop, .conditional, .elseIf, .elseMarker, .unrecognized]) :
    r.tree depth = .ok ⟨r.lines, [.branch (r.lineAt 0) [.single (r.lineAt 1)] none,
      .single (r.lineAt 2), .single (r.lineAt 3)], []⟩ := by
  obtain ⟨room, hroom⟩ : ∃ room, callLimit - (depth + 1) = room + 4 := ⟨_, (Nat.sub_add_cancel hroom).symm⟩
  unfold TreeSource.tree
  rw [hsize, hroom]
  simp only [List.range_succ, List.range_zero, List.nil_append, List.cons_append]
  have hc : ¬room + 4 < (r.lineAt 0).form.kind.readCalls := by
    rw [h0]
    simp only [StmtKind.readCalls]
    omega
  have h1 := @readAt_eq_plain r (room + 4 - 1 - 1) 1 (by omega) (hk 1 (by simp))
  have h2 := @readAt_eq_plain r (room + 4) 2 (by omega) (hk 2 (by simp))
  have h3 := @readAt_eq_plain r (room + 4) 3 (by omega) (hk 3 (by simp))
  rw [readRange.eq_2, readAt_eq_conditional hc h0, readConditional.eq_1,
    dif_neg (by simp only [blockCalls]; omega)]
  simp only [hb, readRange.eq_2, readRange.eq_1, h1, h2, h3, pure_bind, List.dropWhile_cons,
    List.dropWhile_nil, Nat.reduceLT, Nat.reduceAdd, decide_true, decide_false,
    Bool.false_eq_true, ↓reduceIte]
  rfl

end BlankAfterBody

/-- Every loop and conditional of a program read meets the law of its block: its body
reaches exactly the statements on the non-blank lines of its block, each of its
statements indented deeper, and a conditional continues as its block does. -/
theorem read_blocks_enclosed {depth : Nat} {source : String} {policy : Policy}
    {p : ParsedProgram} (hp : ParsedProgram.read depth source policy = .ok p) :
    ∃ r : TreeSource, TreeSource.ofSource depth source policy = .ok r ∧
      ∀ t ∈ Stmt.walk p.stmts, r.BlockLaw (Stmt.walk p.stmts) t := by
  obtain ⟨r, hr, ht⟩ := ParsedProgram.read_eq_ok.1 hp
  have hR := (tree_spec (numbered_of_ofSource hr) ht).2
  exact ⟨r, hr, fun t htw => blockLaw_of_governs hR htw (hR.lawful t htw).2⟩

/-- The law of blocks at the program with a blank line after a body. -/
theorem read_blocks_enclosed_blank_after_body :
    ∃ p, ParsedProgram.read 0 "もし x ならば:\n  y ← 1\n\nz ← 2" .lenient = .ok p ∧
      ∃ r : TreeSource, TreeSource.ofSource 0 "もし x ならば:\n  y ← 1\n\nz ← 2" .lenient = .ok r ∧
        ∀ t ∈ Stmt.walk p.stmts, r.BlockLaw (Stmt.walk p.stmts) t := by
  obtain ⟨p, hp⟩ := ParsedProgram.read_of_lenient ofSource_blank_after_body (by decide)
  exact ⟨p, hp, read_blocks_enclosed hp⟩

/-- The blank line after the body is read by the root list, though it lies before the stop
of the conditional's block (line 4): the tree statements strictly between the conditional
and its stop are not all reached through its body. -/
theorem read_blank_line_outside_body :
    ParsedProgram.read 0 "もし x ならば:\n  y ← 1\n\nz ← 2" .lenient =
      .ok ⟨SourceLine.ofSource "もし x ならば:\n  y ← 1\n\nz ← 2",
        [.branch ⟨1, "もし x ならば:", .conditional ⟨"x", .ok (.var "x")⟩⟩
          [.single ⟨2, "y ← 1", .assign "y" ⟨"1", .ok (.num (.int 1))⟩⟩] none,
          .single ⟨3, "", .blank⟩, .single ⟨4, "z ← 2", .assign "z" ⟨"2", .ok (.num (.int 2))⟩⟩],
        []⟩ ∧
      Block.stopAfter (SourceLine.ofSource "もし x ならば:\n  y ← 1\n\nz ← 2") 0
        (Block.indentAt (SourceLine.ofSource "もし x ならば:\n  y ← 1\n\nz ← 2") 0) = 3 := by
  refine ⟨ParsedProgram.read_eq_ok.2 ⟨_, ofSource_blank_after_body, ?_⟩, by decide⟩
  exact tree_conditional_then_plain (by decide) (by decide) (by decide) (by decide +kernel)
    (by decide)


namespace TreeSource

variable (r : TreeSource)

/-- The law of lines of a tree with root list `stmts`: its walk visits lines in increasing
order, each statement showing its line's classification; a statement at a marker line is
a conditional exactly when a conditional of the tree takes the marker (else it is the
marker shown unrecognized, see `Presents`); a non-blank line is shown once, unless a
statement hides it, and then nowhere; and a blank line is shown, by a blank statement of
the root list, exactly when no statement took it, from its own line up to where reading
resumed after it. -/
structure ShowsLines (stmts : List Stmt) : Prop where
  sorted : ((Stmt.walk stmts).map (·.head.line)).Pairwise (· < ·)
  presents : ∀ t ∈ Stmt.walk stmts, r.Presents t
  markers : ∀ t ∈ Stmt.walk stmts, r.isMarkerAt (t.head.line - 1) →
    ((∃ u ∈ Stmt.walk stmts, r.Attaches u (t.head.line - 1)) ↔ ∃ c body e, t = .branch c body e)
  nonblank : ∀ j < r.lines.size, Block.blankAt r.lines j = false →
    (¬r.Hidden (Stmt.walk stmts) j → ((Stmt.walk stmts).map (·.head.line)).count (j + 1) = 1) ∧
    (r.Hidden (Stmt.walk stmts) j → ((Stmt.walk stmts).map (·.head.line)).count (j + 1) = 0)
  blank : ∀ j < r.lines.size, Block.blankAt r.lines j = true →
    ((∃ t ∈ stmts, t.head.line = j + 1 ∧ t.head.form = .blank) ↔
      ¬∃ u ∈ Stmt.walk stmts, u.head.line ≤ j ∧ j < r.extent u)
  root : ∀ t ∈ Stmt.walk stmts, Block.blankAt r.lines (t.head.line - 1) = true → t ∈ stmts

variable {r}

/-- A marker line is not blank. -/
theorem blankAt_of_isMarkerAt (hr : r.Numbered) {k : Nat} (hk : k < r.lines.size)
    (hm : r.isMarkerAt k) : Block.blankAt r.lines k = false := by
  cases hb : Block.blankAt r.lines k
  · rfl
  · have hform := hr.blank k hk hb
    rcases hm with h | h <;> simp [hform, Form.kind] at h

section Tree

variable {depth : Nat} {p : ParsedProgram} (hr : r.Numbered) (ht : r.tree depth = .ok p)
include hr ht

/-- A statement at a blank line is a blank statement. -/
theorem tree_form_of_blank {t : Stmt} (htw : t ∈ Stmt.walk p.stmts)
    (hb : Block.blankAt r.lines (t.head.line - 1) = true) : t.head.form = .blank := by
  have hR := (tree_spec hr ht).2
  have hrange := hR.cover.range t htw
  have hform := hr.blank _ (by omega) hb
  -- each shape of statement shows its line's classification, and only a plain line is blank
  cases t with
  | single c =>
    change (r.lineAt (c.line - 1)).form = .blank at hform
    rcases (hR.lawful _ htw).1 with ⟨hc, -⟩ | ⟨hm, -⟩
    · show c.form = _
      rw [hc]
      exact hform
    · rcases hm with h | h <;> simp [hform, Form.kind] at h
  | loop c body =>
    change (r.lineAt (c.line - 1)).form = .blank at hform
    obtain ⟨-, h | h⟩ := (hR.lawful _ htw).1 <;> simp [hform, Form.kind] at h
  | branch c body e =>
    change (r.lineAt (c.line - 1)).form = .blank at hform
    rcases (hR.lawful _ htw).1 with ⟨-, h⟩ | ⟨cond, h, -⟩
    · simp [hform, Form.kind] at h
    · simp [hform] at h

/-- A statement at a marker line is a conditional exactly when a conditional of the tree
takes the marker: an else-if marker taken is the chain's conditional, an else marker
taken is hidden, and a conditional at a marker line is a link of a chain. -/
theorem tree_attached_iff {t : Stmt} (htw : t ∈ Stmt.walk p.stmts)
    (hm : r.isMarkerAt (t.head.line - 1)) :
    (∃ u ∈ Stmt.walk p.stmts, r.Attaches u (t.head.line - 1)) ↔
      ∃ c body e, t = .branch c body e := by
  have hR := (tree_spec hr ht).2
  have hrange := hR.cover.range t htw
  have hlt : t.head.line - 1 < r.lines.size := by omega
  constructor
  · rintro ⟨u, hu, c, body, e, rfl, hk⟩
    obtain ⟨hkeq, hs, hd, -⟩ := condBlock_elseIndex_eq hr hk
    have hcont : r.Continues r.Spans (c.line - 1) e := (hR.lawful _ hu).2.2
    unfold Continues at hcont
    rw [if_pos ⟨hs, hd⟩] at hcont
    dsimp only at hcont
    rw [← hkeq] at hcont
    rcases form_of_isMarkerAt hm with ⟨cond, hf⟩ | hf
    · -- the chain's conditional stands at the marker's line, so it is `t`
      rw [hf] at hcont
      obtain ⟨body', e', rfl⟩ := hcont
      have hin : Stmt.branch ⟨(r.lineAt (t.head.line - 1)).line, (r.lineAt (t.head.line - 1)).text,
          .conditional cond⟩ body' e' ∈ Stmt.walk p.stmts := by
        refine Stmt.walkOne_subset_walk hu (Stmt.walkElse_subset_walkOne_branch c body _ ?_)
        rw [Stmt.walkElse_some]
        exact Stmt.mem_walk.2 ⟨_, List.mem_singleton_self _, Stmt.mem_walkOne_self _⟩
      have hline : (r.lineAt (t.head.line - 1)).line = t.head.line := by
        rw [hr.line _ hlt]
        omega
      exact ⟨_, _, _, eq_of_line_eq hR.cover.sorted htw hin hline.symm⟩
    · -- the conditional hides the else marker, yet `t` shows its line
      have hh : r.Hidden (Stmt.walk p.stmts) (t.head.line - 1) := ⟨_, hu, hk, hf⟩
      exact absurd hh ((tree_shown_of_nonblank hr ht hlt (blankAt_of_isMarkerAt hr hlt hm)).1
        ⟨t, htw, by omega⟩)
  · rintro ⟨c, body, e, rfl⟩
    change r.isMarkerAt (c.line - 1) at hm
    rcases (hR.lawful _ htw).1 with ⟨-, hkind⟩ | ⟨cond, hf, -⟩
    · rcases hm with h | h <;> rw [h] at hkind <;> cases hkind
    · exact hR.linked _ htw ⟨c, body, e, cond, rfl, hf⟩

/-- A non-blank line is shown once unless a statement hides it, and then nowhere. -/
theorem tree_count_nonblank {j : Nat} (hj : j < r.lines.size)
    (hb : Block.blankAt r.lines j = false) :
    (¬r.Hidden (Stmt.walk p.stmts) j → ((Stmt.walk p.stmts).map (·.head.line)).count (j + 1) = 1) ∧
    (r.Hidden (Stmt.walk p.stmts) j →
      ((Stmt.walk p.stmts).map (·.head.line)).count (j + 1) = 0) := by
  -- the lines of the walk increase, so a line is shown at most once
  have hnd : ((Stmt.walk p.stmts).map (·.head.line)).Nodup := (tree_sorted hr ht).imp Nat.ne_of_lt
  have hshown := tree_shown_of_nonblank hr ht hj hb
  constructor
  · intro hnh
    obtain ⟨t, htw, hl⟩ := hshown.2 hnh
    exact List.count_eq_one_of_mem hnd (List.mem_map.2 ⟨t, htw, hl⟩)
  · intro hh
    refine List.count_eq_zero_of_not_mem fun hmem => ?_
    obtain ⟨t, htw, hl⟩ := List.mem_map.1 hmem
    exact hshown.1 ⟨t, htw, hl⟩ hh

/-- A blank line is shown, by a blank statement of the root list, exactly when no statement
took it. -/
theorem tree_blank_shown_iff {j : Nat} (hj : j < r.lines.size)
    (hb : Block.blankAt r.lines j = true) :
    (∃ t ∈ p.stmts, t.head.line = j + 1 ∧ t.head.form = .blank) ↔
      ¬∃ u ∈ Stmt.walk p.stmts, u.head.line ≤ j ∧ j < r.extent u := by
  rw [← tree_consumed_iff hr ht, ← tree_shown_of_blank hr ht hj hb]
  constructor
  · rintro ⟨t, hts, hl, -⟩
    exact ⟨t, Stmt.mem_walk.2 ⟨t, hts, Stmt.mem_walkOne_self t⟩, hl⟩
  · rintro ⟨t, htw, hl⟩
    have hbt : Block.blankAt r.lines (t.head.line - 1) = true := by
      rw [hl, Nat.add_sub_cancel]
      exact hb
    exact ⟨t, tree_root_of_blank hr ht htw hbt, hl, tree_form_of_blank hr ht htw hbt⟩

/-- A tree read from a numbered source meets the law of lines. -/
theorem tree_shows_lines : r.ShowsLines p.stmts where
  sorted := tree_sorted hr ht
  presents t htw := ((tree_spec hr ht).2.lawful t htw).1
  markers _ htw hm := tree_attached_iff hr ht htw hm
  nonblank _ hj hb := tree_count_nonblank hr ht hj hb
  blank _ hj hb := tree_blank_shown_iff hr ht hj hb
  root _ htw hb := tree_root_of_blank hr ht htw hb

end Tree

end TreeSource

/-- Every program read meets the law of lines: its walk visits lines in increasing order,
each statement showing the classification of its own line, and every line of the
source is shown or hidden as the law says. -/
theorem read_shows_lines {depth : Nat} {source : String} {policy : Policy} {p : ParsedProgram}
    (hp : ParsedProgram.read depth source policy = .ok p) :
    ∃ r : TreeSource, TreeSource.ofSource depth source policy = .ok r ∧
      (∀ k (hk : k < r.lines.size),
        Line.classify (depth + 2) r.lines[k].text (k + 1) = .ok (r.lineAt k)) ∧
      r.ShowsLines p.stmts := by
  obtain ⟨r, hr, ht⟩ := ParsedProgram.read_eq_ok.1 hp
  exact ⟨r, hr, (ofSource_spec hr).2.2.2, tree_shows_lines (numbered_of_ofSource hr) ht⟩

/-- The law of lines at the program with a blank line after a body. -/
theorem read_shows_lines_blank_after_body :
    ∃ p, ParsedProgram.read 0 "もし x ならば:\n  y ← 1\n\nz ← 2" .lenient = .ok p ∧
      ∃ r : TreeSource, TreeSource.ofSource 0 "もし x ならば:\n  y ← 1\n\nz ← 2" .lenient = .ok r ∧
        (∀ k (hk : k < r.lines.size),
          Line.classify (0 + 2) r.lines[k].text (k + 1) = .ok (r.lineAt k)) ∧
        r.ShowsLines p.stmts := by
  obtain ⟨p, hp⟩ := ParsedProgram.read_of_lenient ofSource_blank_after_body (by decide)
  exact ⟨p, hp, read_shows_lines hp⟩

end DnclTrace
