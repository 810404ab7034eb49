import DnclTrace.Proofs.Tree.Laws
import DnclTrace.Proofs.Run.Chain

/-!
# If / else-if chains, read and run

A conditional whose block ends at an else-if marker of its indentation takes, as its else
body, the one conditional of that marker, whose block may end at the next marker, and so
on. Every conditional of a tree read from a program is such a chain (`branch_chain`):
its own link, then a link for each marker, each the marker at the stop of the block
before it (`TreeSource.ContinuedBy`); each link's body meets the law of its block, and
the last continues as its block does, with an else body or with nothing
(`TreeSource.Chain`).

Main statement: `read_chain_runs_first_holding`. Every conditional at a line that opens
a conditional is such a chain, and running a chain tests its links in order up to the
first whose condition holds in the environment the chain started in, recording
"not satisfied" for the links before it and "satisfied" for it, then runs that link's
body alone, or the else body when no condition holds.

A chain is only read where reading reaches its first line: an else marker that continues
no conditional takes its own block with it, and a chain inside that block is not read at
all (`read_skips_chain_after_stray_else`).
-/

namespace DnclTrace

namespace TreeSource

variable (r : TreeSource)

/-- The block of the line at `i` ends at an else-if marker of its indentation, with the
line, text and condition of the link `l`. -/
def ContinuedBy (i : Nat) (l : Link) : Prop :=
  r.stopOf i < r.lines.size ∧ Block.indentAt r.lines (r.stopOf i) = Block.indentAt r.lines i ∧
    (r.lineAt (r.stopOf i)).form = .elseIf l.cond ∧ l.line = r.stopOf i + 1 ∧
    l.text = (r.lineAt (r.stopOf i)).text

/-- The links `l :: ls` and the else body `e` are a chain read from the lines, in a tree
whose walk is `all`: each link's body meets the law of its block; each link after the
first is the else-if marker that ends the block of the one before; the block of the last
ends at no such marker and continues as its block does, with an else body under the law
of the marker's block or with nothing. -/
def Chain (all : List Stmt) (l : Link) : List Link → Option (List Stmt) → Prop
  | [], e => r.Encloses all (l.line - 1) l.body ∧ (∀ l', ¬r.ContinuedBy (l.line - 1) l') ∧
      r.Continues (r.Encloses all) (l.line - 1) e
  | l' :: ls, e => r.Encloses all (l.line - 1) l.body ∧ r.ContinuedBy (l.line - 1) l' ∧
      Chain all l' ls e

variable {r}

/-- At an else-if marker, a conditional continues with the one conditional of the marker. -/
theorem Continues.elseIf {P : Nat → List Stmt → Prop} {i : Nat} {orElse : Option (List Stmt)}
    {cond : SourceExpr} (hc : r.Continues P i orElse) (hs : r.stopOf i < r.lines.size)
    (hd : Block.indentAt r.lines (r.stopOf i) = Block.indentAt r.lines i)
    (hf : (r.lineAt (r.stopOf i)).form = .elseIf cond) :
    ∃ body e, orElse = some [.branch ⟨(r.lineAt (r.stopOf i)).line,
      (r.lineAt (r.stopOf i)).text, .conditional cond⟩ body e] := by
  unfold Continues at hc
  rw [if_pos ⟨hs, hd⟩] at hc
  dsimp only at hc
  rw [hf] at hc
  exact hc

/-- A conditional of a tree shows a line's condition: its own, or an else-if marker's. -/
theorem BranchHead.conditional {c : Classified} (h : r.BranchHead c) :
    ∃ cond, c = ⟨c.line, c.text, .conditional cond⟩ := by
  rcases h with ⟨hc, hk⟩ | ⟨cond, -, hc⟩
  · rw [← hc] at hk
    obtain ⟨line, text, form⟩ := c
    cases form <;> first | exact ⟨_, rfl⟩ | exact nomatch hk
  · exact ⟨cond, by rw [hc]⟩

section Tree

variable {idx : List Nat} {stmts : List Stmt}

/-- Every conditional of a tree heads a chain read from the lines: its own link, then the
link of the conditional its else body holds at each else-if marker. -/
theorem branch_chain (hr : r.Numbered) (hR : r.ReadRange 0 r.lines.size idx stmts)
    {c : Classified} {body : List Stmt} {orElse : Option (List Stmt)}
    (ht : .branch c body orElse ∈ Stmt.walk stmts) :
    ∃ l ls e, Stmt.branch c body orElse = Stmt.chain l ls e ∧ l.head = c ∧
      r.Chain (Stmt.walk stmts) l ls e := by
  -- induction on the lines after the conditional: the next link stands at the stop of
  -- its block, further down
  induction h : r.lines.size - c.line using Nat.strongRecOn generalizing c body orElse
    with
  | _ d ih =>
  obtain ⟨hh, hg⟩ := hR.lawful _ ht
  obtain ⟨cond, hc⟩ := BranchHead.conditional hh
  obtain ⟨henc, hcont⟩ := blockLaw_of_governs hR ht hg
  let l : Link := ⟨c.line, c.text, cond, body⟩
  have hl : l.head = c := hc.symm
  by_cases hlink : ∃ l', r.ContinuedBy (c.line - 1) l'
  · obtain ⟨l', hs, hd, hf, -, -⟩ := hlink
    obtain ⟨body', e', rfl⟩ := hg.2.elseIf hs hd hf
    -- the marker's conditional is in the tree, one line past the stop of this block
    have hin : Stmt.branch ⟨(r.lineAt (r.stopOf (c.line - 1))).line,
        (r.lineAt (r.stopOf (c.line - 1))).text, .conditional l'.cond⟩ body' e' ∈
          Stmt.walk stmts := by
      refine Stmt.walkOne_subset_walk ht (Stmt.walkElse_subset_walkOne_branch c body _ ?_)
      simp [Stmt.mem_walkOne_self]
    have hline : (r.lineAt (r.stopOf (c.line - 1))).line = r.stopOf (c.line - 1) + 1 :=
      hr.line _ hs
    have hpos : 0 < c.line := (hR.cover.range _ ht).1
    have hstop : c.line - 1 < r.stopOf (c.line - 1) := Block.lt_stopAfter _ _
    obtain ⟨l'', ls, e, heq, hl'', hchain⟩ := ih _ (by simp only [hline]; omega) hin rfl
    refine ⟨l, l'' :: ls, e, ?_, hl, henc, ?_, hchain⟩
    · rw [heq, ← hl]
      rfl
    · obtain ⟨line'', text'', cond'', body''⟩ := l''
      simp only [Link.head, Classified.mk.injEq, Form.conditional.injEq] at hl''
      obtain ⟨rfl, rfl, rfl⟩ := hl''
      exact ⟨hs, hd, hf, hline, rfl⟩
  · refine ⟨l, [], orElse, ?_, hl, henc, fun l' h => hlink ⟨l', h⟩, hcont⟩
    rw [← hl]
    rfl

/-- A statement of a tree at a line that opens a conditional is that line's conditional. -/
theorem branch_of_conditional {n : Nat} (hR : r.ReadRange 0 n idx stmts) {t : Stmt}
    (ht : t ∈ Stmt.walk stmts) {cond : SourceExpr}
    (hc : (r.lineAt (t.head.line - 1)).form = .conditional cond) :
    ∃ body orElse, t = .branch (r.lineAt (t.head.line - 1)) body orElse := by
  have hp := (hR.lawful t ht).1
  cases t with
  | single c =>
    simp only [Stmt.head] at hc
    rcases hp with ⟨-, hk⟩ | ⟨hm, -⟩
    · simp [hc, Form.kind] at hk
    · simp [isMarkerAt, hc, Form.kind] at hm
  | loop c body =>
    simp only [Stmt.head] at hc
    obtain ⟨-, hk | hk⟩ := hp <;> simp [hc, Form.kind] at hk
  | branch c body orElse =>
    simp only [Stmt.head] at hc ⊢
    rcases hp with ⟨hcl, -⟩ | ⟨cond', hf, -⟩
    · exact ⟨body, orElse, by rw [← hcl]⟩
    · simp [hc] at hf

end Tree

end TreeSource

open TreeSource

/-- Every conditional of a program read, at a line that opens a conditional, heads an
if / else-if chain read from the lines. Running a chain is testing its links in order up
to the first whose condition holds in the environment it started in, then running that
link's body alone, or the else body when none holds; the tests that complete keep the
environment, take a step each and record, in order, that each link before that one is not
satisfied and that it is. -/
theorem read_chain_runs_first_holding {depth : Nat} {source : String} {policy : Policy}
    {p : ParsedProgram} (hp : ParsedProgram.read depth source policy = .ok p) :
    (∃ r : TreeSource, TreeSource.ofSource depth source policy = .ok r ∧
      ∀ t ∈ Stmt.walk p.stmts, ∀ cond, (r.lineAt (t.head.line - 1)).form = .conditional cond →
        ∃ l ls e, t = Stmt.chain l ls e ∧ l.head = r.lineAt (t.head.line - 1) ∧
          r.Chain (Stmt.walk p.stmts) l ls e) ∧
    ∀ (cfg : RunConfig) (bound d : Nat) (l : Link) (ls : List Link) (e : Option (List Stmt))
      (m : Machine),
      let j := Link.firstHolding cfg m.env d (l :: ls)
      let tested := Run.tests cfg d ((l :: ls).take (j + 1))
      (Run.stmt cfg bound d (Stmt.chain l ls e)).run.run m =
          (tested >>= fun _ => Run.chosen cfg bound d (l :: ls) e j).run.run m ∧
        ((tested.run.run m).1 = .ok () →
          (tested.run.run m).2.env = m.env ∧
          (tested.run.run m).2.steps = m.steps + ((l :: ls).take (j + 1)).length ∧
          ∃ ss, (tested.run.run m).2.snapshots.toList = m.snapshots.toList ++ ss ∧
            ss.map (fun s => (s.line, s.description)) =
              ((l :: ls).take j).map (fun l => (l.line, Run.decisionText l.cond false)) ++
                ((l :: ls)[j]?.map (fun l => (l.line, Run.decisionText l.cond true))).toList) := by
  refine ⟨?_, fun cfg bound d l ls e m => ⟨Run.chain_run bound d l ls e m, fun hok => ?_⟩⟩
  · obtain ⟨r, hr, htree⟩ := ParsedProgram.read_eq_ok.1 hp
    have hnum := numbered_of_ofSource hr
    have hR := (tree_spec hnum htree).2
    refine ⟨r, hr, fun t ht cond hc => ?_⟩
    obtain ⟨body, orElse, htb⟩ := branch_of_conditional hR ht hc
    obtain ⟨l, ls, e, heq, hl, hchain⟩ := branch_chain hnum hR (htb ▸ ht)
    exact ⟨l, ls, e, htb.trans heq, hl, hchain⟩
  · obtain ⟨henv, hsteps, ss, hss, hmap⟩ := Run.tests_record d _ m hok
    exact ⟨henv, hsteps, ss, hss, hmap.trans (Run.decisions_firstHolding _ _ _)⟩

/-- The chains of the program with a blank line after a conditional's body. -/
theorem read_chain_runs_first_holding_blank_after_body :
    ∃ p, ParsedProgram.read 0 "もし x ならば:\n  y ← 1\n\nz ← 2" .lenient = .ok p ∧
    (∃ r : TreeSource, TreeSource.ofSource 0 "もし x ならば:\n  y ← 1\n\nz ← 2" .lenient = .ok r ∧
      ∀ t ∈ Stmt.walk p.stmts, ∀ cond, (r.lineAt (t.head.line - 1)).form = .conditional cond →
        ∃ l ls e, t = Stmt.chain l ls e ∧ l.head = r.lineAt (t.head.line - 1) ∧
          r.Chain (Stmt.walk p.stmts) l ls e) ∧
    ∀ (cfg : RunConfig) (bound d : Nat) (l : Link) (ls : List Link) (e : Option (List Stmt))
      (m : Machine),
      let j := Link.firstHolding cfg m.env d (l :: ls)
      let tested := Run.tests cfg d ((l :: ls).take (j + 1))
      (Run.stmt cfg bound d (Stmt.chain l ls e)).run.run m =
          (tested >>= fun _ => Run.chosen cfg bound d (l :: ls) e j).run.run m ∧
        ((tested.run.run m).1 = .ok () →
          (tested.run.run m).2.env = m.env ∧
          (tested.run.run m).2.steps = m.steps + ((l :: ls).take (j + 1)).length ∧
          ∃ ss, (tested.run.run m).2.snapshots.toList = m.snapshots.toList ++ ss ∧
            ss.map (fun s => (s.line, s.description)) =
              ((l :: ls).take j).map (fun l => (l.line, Run.decisionText l.cond false)) ++
                ((l :: ls)[j]?.map (fun l => (l.line, Run.decisionText l.cond true))).toList) := by
  obtain ⟨p, hp⟩ := ParsedProgram.read_of_lenient ofSource_blank_after_body (by decide)
  exact ⟨p, hp, read_chain_runs_first_holding hp⟩

section StrayElse

/-! A conditional inside the block of an else marker that continues no conditional:

    そうでなければ:
      もし x ならば:
-/

open Line Pattern

/-- The bare else marker, classified as such. -/
theorem classify_else_marker (line : Nat) :
    classify 2 "そうでなければ:" line = .ok ⟨line, "そうでなければ:", .elseMarker⟩ := by
  have hs : stripComment "そうでなければ:" = "そうでなければ:" := by decide
  have hh : isControlHeader "そうでなければ:" = true := by decide
  have hf : firstForm 3 recognizers (stripComment "そうでなければ:") = .ok (some .elseMarker) := by
    rw [hs, recognizers, firstForm_cons_none (unlessHeader_of_header hh),
      firstForm_cons_none (unlessHeader_of_header hh),
      firstForm_cons_none (forLoop?_none (by decide)),
      firstForm_cons_none (conditionForm?_none (by decide)),
      firstForm_cons_none (conditionForm?_none (by decide)),
      firstForm_cons_some (elseMarker?_else (by decide) (by decide))]
  rw [classify_of_form (by decide) (by decide) (by decide) hf, hs]

/-- Two lines, the first an else marker whose block holds the second, read as the marker
shown unrecognized and reported, its block skipped. -/
private theorem tree_stray_marker {r : TreeSource} {depth : Nat} (hsize : r.lines.size = 2)
    (hroom : reportCalls ≤ callLimit - (depth + 1))
    (hpol : r.policy = .lenient) (h0 : (r.lineAt 0).form.kind = .elseMarker)
    (hb : (r.plainBlock 0).next = 2) :
    r.tree depth = .ok ⟨r.lines, [.single ⟨(r.lineAt 0).line, (r.lineAt 0).text, .unrecognized⟩],
      [⟨(r.lineAt 0).line, .strayElse, "対応する「もし」がありません: " ++ (r.lineAt 0).text⟩]⟩ := by
  have hm : ¬callLimit - (depth + 1) < (r.lineAt 0).form.kind.readCalls := by
    rw [h0]
    exact Nat.not_lt.2 hroom
  unfold TreeSource.tree
  rw [hsize]
  simp only [List.range_succ, List.range_zero, List.nil_append, List.cons_append]
  rw [readRange.eq_2, readAt_eq_stray hm (.inr h0)]
  simp only [report, hpol, hb, bind_assoc, pure_bind, List.dropWhile_cons,
    List.dropWhile_nil, Nat.reduceLT, decide_true, ↓reduceIte, readRange.eq_1]
  rfl

/-- The second line opens a conditional, and no statement of the tree shows it: the stray
marker's block, skipped, holds it. -/
theorem read_skips_chain_after_stray_else :
    TreeSource.ofSource 0 "そうでなければ:\n  もし x ならば:" .lenient =
      .ok ⟨SourceLine.ofSource "そうでなければ:\n  もし x ならば:",
        #[⟨1, "そうでなければ:", .elseMarker⟩,
          ⟨2, "もし x ならば:", .conditional ⟨"x", .ok (.var "x")⟩⟩], .lenient⟩ ∧
    ParsedProgram.read 0 "そうでなければ:\n  もし x ならば:" .lenient =
      .ok ⟨SourceLine.ofSource "そうでなければ:\n  もし x ならば:",
        [.single ⟨1, "そうでなければ:", .unrecognized⟩],
        [⟨1, .strayElse, "対応する「もし」がありません: そうでなければ:"⟩]⟩ := by
  have hsrc : TreeSource.ofSource 0 "そうでなければ:\n  もし x ならば:" .lenient =
      .ok ⟨SourceLine.ofSource "そうでなければ:\n  もし x ならば:",
        #[⟨1, "そうでなければ:", .elseMarker⟩,
          ⟨2, "もし x ならば:", .conditional ⟨"x", .ok (.var "x")⟩⟩], .lenient⟩ := by
    have hl : (SourceLine.ofSource "そうでなければ:\n  もし x ならば:").toList =
        [⟨1, 0, "そうでなければ:"⟩, ⟨2, 2, "もし x ならば:"⟩] := by decide
    simp only [TreeSource.ofSource, Nat.zero_add, hl, List.mapM_cons, List.mapM_nil,
      classify_else_marker, classify_if_x]
    rfl
  exact ⟨hsrc, ParsedProgram.read_eq_ok.2 ⟨_, hsrc,
    tree_stray_marker (by decide) (by decide) rfl rfl (by decide +kernel)⟩⟩

end StrayElse

end DnclTrace
