import DnclTrace.Proofs.Tree.Program

/-!
# Reading under the strict and the lenient policy

Reading looks at its policy only when it reports a line: an unrecognized line or a
stray else marker. Under the strict policy the first report ends the reading; under the
lenient one the report is noted and reading goes on. So the two readings of one
program's lines go alike up to the first report (`Reading.Mirrors`): the strict reading
returns what the lenient one returns, adding no diagnostic, or stops at the same fault
where the statements nest too deep; or it stops at a report, which the lenient reading
notes first and then goes on.

The relation is built like the program logic of runs: one rule per combinator
(`Mirrors.bind`), one lemma for the report (`report_mirrors`), one for a fault
(`Mirrors.fault`), and the three reading functions by their own mutual recursion
(`read_mirrors`).

Main statement: `read_policies`. A program the strict policy reads is read the same
leniently, with no diagnostic. Where the strict reading stops at a report, the lenient
one reads a tree whose first diagnostic is that report, or faults deeper on.
-/

namespace DnclTrace

namespace Reading

/-- A diagnostic reading reports: an unrecognized line, or a marker that continues no
conditional. -/
def Reported (d : Diagnostic) : Prop := d.kind = .unrecognizedLine ∨ d.kind = .strayElse

/-- Readings `x`, strict, and `y`, lenient, from the same diagnostics: they return
alike and add nothing, or stop at one fault; or the strict reading stops at a report
that the lenient one notes first and goes on from. The lenient reading never stops at a
report: it returns, only adding diagnostics, or faults. -/
structure Mirrors {α : Type} (x y : Reading α) : Prop where
  agree : ∀ ds, (∃ a, x.run ds = .ok (a, ds) ∧ y.run ds = .ok (a, ds)) ∨
    (∃ f, x.run ds = .error (.fault f) ∧ y.run ds = .error (.fault f)) ∨
    ∃ d, Reported d ∧ x.run ds = .error (.rejected d) ∧
      ((∃ a rest, y.run ds = .ok (a, ds ++ d :: rest)) ∨ ∃ f, y.run ds = .error (.fault f))
  appends : ∀ ds, (∃ a rest, y.run ds = .ok (a, ds ++ rest)) ∨ ∃ f, y.run ds = .error (.fault f)

variable {α β : Type}

theorem Mirrors.pure (a : α) : Mirrors (pure a : Reading α) (pure a) :=
  ⟨fun _ => .inl ⟨a, rfl, rfl⟩, fun ds => .inl ⟨a, [], by rw [List.append_nil]; rfl⟩⟩

/-- A fault stops both readings alike. -/
theorem Mirrors.fault (f : Fault) : Mirrors (throw (.fault f) : Reading α) (throw (.fault f)) :=
  ⟨fun _ => .inr (.inl ⟨f, rfl, rfl⟩), fun _ => .inr ⟨f, rfl⟩⟩

theorem Mirrors.bind {x y : Reading α} {f g : α → Reading β} (hx : Mirrors x y)
    (hf : ∀ a, Mirrors (f a) (g a)) : Mirrors (x >>= f) (y >>= g) := by
  -- wherever the lenient reading returned, it goes on, only adding or faulting
  have goes_on : ∀ {ds rest : List Diagnostic} {a : α}, y.run ds = .ok (a, ds ++ rest) →
      (∃ b more, (y >>= g).run ds = .ok (b, ds ++ rest ++ more)) ∨
        ∃ e, (y >>= g).run ds = .error (.fault e) := by
    intro ds rest a hy
    rw [StateT.run_bind, hy]
    exact (hf a).appends (ds ++ rest)
  refine ⟨fun ds => ?_, fun ds => ?_⟩
  · rcases hx.agree ds with ⟨a, hxa, hya⟩ | ⟨e, hxe, hye⟩ | ⟨d, hd, hxd, hy⟩
    · have hx' : (x >>= f).run ds = (f a).run ds := by rw [StateT.run_bind, hxa]; rfl
      have hy' : (y >>= g).run ds = (g a).run ds := by rw [StateT.run_bind, hya]; rfl
      rw [hx', hy']
      exact (hf a).agree ds
    · exact .inr (.inl ⟨e, by rw [StateT.run_bind, hxe]; rfl, by rw [StateT.run_bind, hye]; rfl⟩)
    · -- the strict reading stopped at a report; the lenient one goes on from it
      refine .inr (.inr ⟨d, hd, by rw [StateT.run_bind, hxd]; rfl, ?_⟩)
      rcases hy with ⟨a, rest, hya⟩ | ⟨e, hye⟩
      · rcases goes_on hya with ⟨b, more, h⟩ | h
        · exact .inl ⟨b, rest ++ more, by rw [h]; simp⟩
        · exact .inr h
      · exact .inr ⟨e, by rw [StateT.run_bind, hye]; rfl⟩
  · rcases hx.appends ds with ⟨a, rest, hya⟩ | ⟨e, hye⟩
    · rcases goes_on hya with ⟨b, more, h⟩ | h
      · exact .inl ⟨b, rest ++ more, by rw [h, List.append_assoc]⟩
      · exact .inr h
    · exact .inr ⟨e, by rw [StateT.run_bind, hye]; rfl⟩

end Reading

/-- How a program is read under the strict and under the lenient policy: alike, the
strict reading with no diagnostic, or both stopped by one fault; or the strict reading
stops at a report, the first diagnostic of the program the lenient reading gives unless
that reading faults deeper on. -/
def ParsedProgram.ReadAlike (strict lenient : Except ReadStop ParsedProgram) : Prop :=
  (lenient = strict ∧ ∀ p, strict = .ok p → p.diagnostics = []) ∨
    ∃ d, Reading.Reported d ∧ strict = .error (.rejected d) ∧
      ((∃ p rest, lenient = .ok p ∧ p.diagnostics = d :: rest) ∨ ∃ f, lenient = .error (.fault f))

/-- A strict reading that succeeds is the lenient reading too, with no diagnostic. -/
theorem ParsedProgram.ReadAlike.of_strict_ok {strict lenient : Except ReadStop ParsedProgram}
    (h : ReadAlike strict lenient) {p : ParsedProgram} (hp : strict = .ok p) :
    lenient = .ok p ∧ p.diagnostics = [] := by
  rcases h with ⟨hsame, hquiet⟩ | ⟨d, -, hs, -⟩
  · exact ⟨hsame.trans hp, hquiet p hp⟩
  · rw [hs] at hp
    cases hp

namespace TreeSource

open Reading

/-- The lines of a source, read under another policy. -/
def under (r : TreeSource) (p : Policy) : TreeSource := { r with policy := p }

variable (r : TreeSource) (p : Policy)

@[simp] theorem lines_under : (r.under p).lines = r.lines := rfl

@[simp] theorem policy_under : (r.under p).policy = p := rfl

@[simp] theorem lineAt_under (i : Nat) : (r.under p).lineAt i = r.lineAt i := rfl

@[simp] theorem plainBlock_under (i : Nat) : (r.under p).plainBlock i = r.plainBlock i := rfl

@[simp] theorem condBlock_under (i : Nat) : (r.under p).condBlock i = r.condBlock i := rfl

variable {r}

theorem report_mirrors (d : Diagnostic) (hd : Reported d) :
    Mirrors ((r.under .strict).report d) ((r.under .lenient).report d) :=
  ⟨fun _ => .inr (.inr ⟨d, hd, rfl, .inl ⟨(), [], rfl⟩⟩), fun _ => .inl ⟨(), [d], rfl⟩⟩

variable {room i : Nat}

/-- A loop is read alike under the two policies when its body is. -/
theorem loop_mirrors (hroom : ¬room < (r.lineAt i).form.kind.readCalls)
    (hk : (r.lineAt i).form.kind = .forLoop ∨ (r.lineAt i).form.kind = .whileLoop)
    (ih : Mirrors ((r.under .strict).readRange (room - 1) (r.plainBlock i).body)
      ((r.under .lenient).readRange (room - 1) (r.plainBlock i).body)) :
    Mirrors ((r.under .strict).readAt room i) ((r.under .lenient).readAt room i) := by
  rw [readAt_eq_loop (r := r.under .strict) hroom hk,
    readAt_eq_loop (r := r.under .lenient) hroom hk]
  simp only [lineAt_under, plainBlock_under]
  exact ih.bind fun _ => Mirrors.pure _

/-- A stray marker is a report under either policy, and then read alike. -/
theorem stray_mirrors (hroom : ¬room < (r.lineAt i).form.kind.readCalls) (hm : r.isMarkerAt i) :
    Mirrors ((r.under .strict).readAt room i) ((r.under .lenient).readAt room i) := by
  rw [readAt_eq_stray (r := r.under .strict) hroom hm,
    readAt_eq_stray (r := r.under .lenient) hroom hm]
  simp only [lineAt_under, plainBlock_under]
  exact Mirrors.bind (report_mirrors _ (.inr rfl)) fun _ => Mirrors.pure _

variable (r)

/-- The three reading functions go alike under the two policies up to the first report,
by their own mutual recursion: only a report reads the policy. -/
theorem read_mirrors :
    (∀ room idx, Mirrors ((r.under .strict).readRange room idx) ((r.under .lenient).readRange room idx)) ∧
    (∀ room i, Mirrors ((r.under .strict).readAt room i) ((r.under .lenient).readAt room i)) ∧
    ∀ room c i, Mirrors ((r.under .strict).readConditional room c i)
      ((r.under .lenient).readConditional room c i) := by
  apply TreeSource.readRange.mutual_induct (r.under .strict)
    (fun room idx => Mirrors ((r.under .strict).readRange room idx)
      ((r.under .lenient).readRange room idx))
    (fun room i => Mirrors ((r.under .strict).readAt room i) ((r.under .lenient).readAt room i))
    (fun room c i => Mirrors ((r.under .strict).readConditional room c i)
      ((r.under .lenient).readConditional room c i))
  case _ =>
    intro room
    rw [readRange.eq_1, readRange.eq_1]
    exact Mirrors.pure _
  case _ =>
    intro room i rest hat hrest
    rw [readRange.eq_2, readRange.eq_2]
    refine hat.bind fun q => ?_
    obtain ⟨_, res⟩ := q
    exact (hrest res).bind fun _ => Mirrors.pure _
  case _ => -- a line too deep to read stops both readings
    intro room i
    dsimp only
    intro hshort
    rw [readAt_eq_short (r := r.under .strict) hshort, readAt_eq_short (r := r.under .lenient) hshort]
    exact Mirrors.fault _
  case _ => -- a counted loop
    intro room i
    dsimp only
    intro hroom hk ih
    exact loop_mirrors hroom (.inl hk) ih
  case _ => -- a conditional loop
    intro room i
    dsimp only
    intro hroom hk ih
    exact loop_mirrors hroom (.inr hk) ih
  case _ => -- a conditional
    intro room i
    dsimp only
    intro hroom hk ih
    rw [readAt_eq_conditional (r := r.under .strict) hroom hk,
      readAt_eq_conditional (r := r.under .lenient) hroom hk]
    simpa only [lineAt_under] using ih
  case _ => -- a stray else-if marker
    intro room i
    dsimp only
    intro hroom hk
    exact stray_mirrors hroom (.inl hk)
  case _ => -- a stray else marker
    intro room i
    dsimp only
    intro hroom hk
    exact stray_mirrors hroom (.inr hk)
  case _ => -- an unrecognized line
    intro room i
    dsimp only
    intro hroom hk
    rw [readAt_eq_unrecognized (r := r.under .strict) hroom hk,
      readAt_eq_unrecognized (r := r.under .lenient) hroom hk]
    simp only [lineAt_under]
    exact Mirrors.bind (report_mirrors _ (.inl rfl)) fun _ => Mirrors.pure _
  case _ => -- any other line
    intro room i
    dsimp only
    intro hroom h₁ h₂ h₃ h₄ h₅ h₆
    rw [readAt_eq_other hroom h₁ h₂ h₃ h₄ h₅ h₆,
      readAt_eq_other (r := r.under .lenient) hroom h₁ h₂ h₃ h₄ h₅ h₆]
    simp only [lineAt_under]
    exact Mirrors.pure _
  case _ => -- a conditional too deep to resolve its block stops both readings
    intro room c i hshort
    rw [readConditional_eq_short hshort, readConditional_eq_short hshort]
    exact Mirrors.fault _
  case _ =>
    intro room c i hroom
    dsimp only
    intro ihb ihk ihe
    simp only [condBlock_under, lineAt_under] at ihb ihk ihe
    rw [readConditional.eq_1, dif_neg hroom, readConditional.eq_1, dif_neg hroom]
    simp only [condBlock_under, lineAt_under]
    refine ihb.bind fun body => ?_
    split
    · exact Mirrors.pure _
    · rename_i k _
      split
      · rename_i cond _
        exact (ihk k cond).bind fun _ => Mirrors.pure _
      · exact ihe.bind fun _ => Mirrors.pure _

/-- The tree of the lines read under the two policies, at any depth, alike up to the
first report. -/
theorem tree_policies (depth : Nat) :
    ParsedProgram.ReadAlike ((r.under .strict).tree depth) ((r.under .lenient).tree depth) := by
  unfold tree
  simp only [lines_under]
  rcases ((read_mirrors r).1 (callLimit - (depth + 1)) (List.range r.lines.size)).agree [] with
    ⟨stmts, hs, hl⟩ | ⟨f, hs, hl⟩ | ⟨d, hd, hs, ⟨stmts, rest, hl⟩ | ⟨f, hl⟩⟩
  · rw [hs, hl]
    exact .inl ⟨rfl, fun p hp => by cases hp; rfl⟩
  · rw [hs, hl]
    exact .inl ⟨rfl, fun p hp => by cases hp⟩
  · rw [hs, hl]
    exact .inr ⟨d, hd, rfl, .inl ⟨_, rest, rfl, rfl⟩⟩
  · rw [hs, hl]
    exact .inr ⟨d, hd, rfl, .inr ⟨f, rfl⟩⟩

end TreeSource

/-- A program is read alike under the two policies up to its first report. -/
theorem ParsedProgram.read_policies (depth : Nat) (source : String) :
    ReadAlike (read depth source .strict) (read depth source .lenient) := by
  unfold read TreeSource.ofSource
  -- classifying the lines does not read the policy
  rcases h : (SourceLine.ofSource source).toList.mapM
      (fun l => Line.classify (depth + 2) l.text l.number) with f | cl
  · simp only [h]
    exact .inl ⟨rfl, fun _ h => nomatch h⟩
  · simp only [h]
    let r : TreeSource := ⟨SourceLine.ofSource source, cl.toArray, .strict⟩
    change ReadAlike ((r.under .strict).tree depth) ((r.under .lenient).tree depth)
    exact TreeSource.tree_policies r depth

end DnclTrace
