import DnclTrace.Program.Outline
import DnclTrace.Proofs.Tree.Laws
import DnclTrace.Proofs.Expr.Reprint
import DnclTrace.Proofs.Line.Comment

/-!
# The outline lists the walk

The outline of a tree and its walk come from two recursions. Listing the statements of a
tree as rows (`Stmt.rows`: each statement with its nesting depth, and whether it opens a
non-empty else body) brings them together: the rows are the walk, statement by statement
(`rows_stmt`), and the outline is the rows, each written as its line, after an `else:`
line when it opens an else body (`outline_eq_rows`).

The outline text joins these lines with line feeds. No line is empty, and no line holds
a line break when no statement's text holds one (`Row.lines_clean`); so cutting the text
into lines gives the lines back (`splitLines_intercalate`). The text of every statement
of a program read from a source comes from one of its lines (`tree_text_clean`), which
splitting the source leaves without line breaks.

Main statement: `outline_lines_follow_walk`.
-/

namespace DnclTrace

namespace Text

/-- The text holds no line end. -/
def Unbroken (cs : List Char) : Prop := ∀ c ∈ cs, isLineBreak c = false

theorem Unbroken.append {xs ys : List Char} (hx : Unbroken xs) (hy : Unbroken ys) :
    Unbroken (xs ++ ys) := by
  intro c hc
  rcases List.mem_append.1 hc with h | h
  · exact hx c h
  · exact hy c h

theorem Unbroken.mono {xs ys : List Char} (h : ys ⊆ xs) (hx : Unbroken xs) : Unbroken ys :=
  fun c hc => hx c (h hc)

theorem Unbroken.reverse {xs : List Char} (hx : Unbroken xs) : Unbroken xs.reverse :=
  hx.mono fun _ h => List.mem_reverse.1 h

@[simp] theorem unbroken_nil : Unbroken [] := fun _ h => nomatch h

/-- Every line end is a blank. -/
theorem isBlank_of_isLineBreak {c : Char} (h : isLineBreak c = true) : isBlank c = true := by
  simp only [isLineBreak, List.contains_iff_mem] at h
  simp only [isBlank, List.contains_iff_mem]
  -- the codes of line ends are among the blank codes
  have hsub : [0xA, 0xB, 0xC, 0xD, 0x1C, 0x1D, 0x1E, 0x85, 0x2028, 0x2029] ⊆ blankCodes := by decide
  exact hsub h

/-- A line without line ends, followed by more text, joins the current line. -/
theorem splitLinesFrom_append {l : List Char} (hl : Unbroken l)
    (rest cur : List Char) : splitLinesFrom (l ++ rest) cur = splitLinesFrom rest (l.reverse ++ cur) := by
  induction l generalizing cur with
  | nil => rfl
  | cons c l ih =>
    have hc := hl c List.mem_cons_self
    have hr : c ≠ '\r' := by
      rintro rfl
      cases hc
    rw [List.cons_append, splitLinesFrom.eq_3 _ _ _ (fun _ h _ => hr h), hc, if_neg (by simp),
      ih (fun x hx => hl x (List.mem_cons_of_mem c hx))]
    simp

/-- Lines without line ends, none empty, joined by line feeds, are cut back into those
lines. -/
theorem splitLines_intercalate {ls : List (List Char)}
    (h : ∀ l ∈ ls, l ≠ [] ∧ Unbroken l) :
    splitLines (['\n'].intercalate ls) = ls := by
  induction ls with
  | nil => rfl
  | cons l ls ih =>
    obtain ⟨hne, hl⟩ := h l List.mem_cons_self
    cases ls with
    | nil =>
      rw [List.intercalate_singleton, splitLines, ← List.append_nil l, splitLinesFrom_append hl]
      simp [splitLinesFrom, hne]
    | cons l' ls =>
      rw [List.intercalate_cons_cons, splitLines, List.append_assoc, splitLinesFrom_append hl]
      have hrest := ih (fun x hx => h x (List.mem_cons_of_mem l hx))
      simp only [splitLines] at hrest
      simp [splitLinesFrom, isLineBreak, hrest]

/-- No line of a text holds a line end. -/
theorem splitLines_clean {cs l : List Char} (h : l ∈ splitLines cs) : Unbroken l := by
  -- the line being read holds no line end, through the cutting recursion
  have key : ∀ cs cur, Unbroken cur → ∀ l ∈ splitLinesFrom cs cur, Unbroken l := by
    intro cs cur
    induction cs, cur using splitLinesFrom.induct with
    | case1 cur hcur => simp [splitLinesFrom, hcur]
    | case2 cur hcur =>
      intro hc l hl
      simp only [splitLinesFrom, hcur, Bool.false_eq_true, if_false, List.mem_singleton] at hl
      subst hl
      exact hc.reverse
    | case3 rest cur ih =>
      intro hc l hl
      simp only [splitLinesFrom, List.mem_cons] at hl
      rcases hl with rfl | hl
      · exact hc.reverse
      · exact ih unbroken_nil l hl
    | case4 c rest cur hnot hb ih =>
      intro hc l hl
      rw [splitLinesFrom.eq_3 _ _ _ hnot, if_pos hb, List.mem_cons] at hl
      rcases hl with rfl | hl
      · exact hc.reverse
      · exact ih unbroken_nil l hl
    | case5 c rest cur hnot hb ih =>
      intro hc l hl
      rw [splitLinesFrom.eq_3 _ _ _ hnot, if_neg hb] at hl
      refine ih (fun x hx => ?_) l hl
      rcases List.mem_cons.1 hx with rfl | hx
      · simpa using hb
      · exact hc x hx
  exact key cs [] unbroken_nil l h

/-- Trimming keeps characters of the text. -/
theorem trim_subset (cs : List Char) : trim cs ⊆ cs := by
  intro c hc
  simp only [trim, trimEnd, trimStart, List.mem_reverse] at hc
  exact (List.dropWhile_suffix _).subset (List.mem_reverse.1 ((List.dropWhile_suffix _).subset hc))

/-- The spaces of a padding. -/
theorem mem_pushn {c x : Char} {k : Nat} (h : x ∈ ("".pushn c k).toList) : x = c := by
  induction k with
  | zero => simp [String.pushn, Nat.repeat] at h
  | succ k ih =>
    simp only [String.pushn, Nat.repeat, String.toList_push, List.mem_append,
      List.mem_singleton] at h ih
    rcases h with h | h
    · exact ih h
    · exact h

theorem unbroken_pushn (k : Nat) : Unbroken ("".pushn ' ' k).toList := by
  intro x hx
  rw [mem_pushn hx]
  rfl

/-- A text whose characters pass a check for line ends holds none. -/
theorem unbroken_of_all {cs : List Char} (h : (cs.all fun c => !isLineBreak c) = true) :
    Unbroken cs := by
  intro c hc
  simpa using List.all_eq_true.1 h c hc

end Text

namespace Line

/-- The code of a line keeps characters of the line. -/
theorem stripComment_subset (s : String) : (stripComment s).toList ⊆ s.toList := by
  unfold stripComment
  cases h : beforeComment none s.toList with
  | none => exact List.Subset.refl _
  | some code =>
    -- the code is trimmed from what comes before the comment, a prefix of the line
    intro c hc
    simp only [Text.trimEndText, String.toList_ofList, Text.trimEnd, List.mem_reverse] at hc
    exact (isPrefix_of_beforeComment h).subset
      (List.mem_reverse.1 ((List.dropWhile_suffix _).subset hc))

/-- A classified line keeps characters of the line as its text. -/
theorem classify_text_subset {depth : Nat} {text : String} {line : Nat} {c : Classified}
    (h : classify depth text line = .ok c) : c.text.toList ⊆ text.toList := by
  unfold classify at h
  by_cases he : text.isEmpty = true
  · simp only [he, if_true, pure, Except.pure, Except.ok.injEq] at h
    subst h
    simp
  · simp only [he, Bool.false_eq_true, if_false] at h
    by_cases hc : isCommentLine text = true
    · simp only [hc, if_true, pure, Except.pure, Except.ok.injEq] at h
      subst h
      exact List.Subset.refl _
    · simp only [hc, Bool.false_eq_true, if_false] at h
      by_cases hcode : (stripComment text).isEmpty = true
      · simp only [hcode, if_true, pure, Except.pure, Except.ok.injEq] at h
        subst h
        exact List.Subset.refl _
      · simp only [hcode, Bool.false_eq_true, if_false] at h
        -- a recognized line keeps its code, an unrecognized one its whole text
        cases hf : firstForm (depth + 1) recognizers (stripComment text) with
        | error e =>
          simp only [hf, bind, Except.bind] at h
          cases h
        | ok o =>
          cases o with
          | none =>
            simp only [hf, bind, Except.bind, pure, Except.pure, Except.ok.injEq] at h
            subst h
            exact List.Subset.refl _
          | some f =>
            simp only [hf, bind, Except.bind, pure, Except.pure, Except.ok.injEq] at h
            subst h
            exact stripComment_subset text

end Line

namespace Stmt

/-- A statement of a tree, with its nesting depth, and whether it is the first statement
of a non-empty else body. -/
structure Row where
  depth : Nat
  stmt : Stmt
  opensElse : Bool

/-- The first row opens an else body. -/
def Row.opening : List Row → List Row
  | [] => []
  | r :: rs => { r with opensElse := true } :: rs

mutual

/-- The rows of a list of trees at a nesting depth. -/
def rows (depth : Nat) : List Stmt → List Row
  | [] => []
  | s :: rest => (⟨depth, s, false⟩ :: rowsBelow depth s) ++ rows depth rest

/-- The rows under a statement at a nesting depth. -/
def rowsBelow (depth : Nat) : Stmt → List Row
  | .single _ => []
  | .loop _ body => rows (depth + 1) body
  | .branch _ body orElse => rows (depth + 1) body ++ rowsElse (depth + 1) orElse

/-- The rows of an else body at a nesting depth; its first row opens it. -/
def rowsElse (depth : Nat) : Option (List Stmt) → List Row
  | some b => Row.opening (rows depth b)
  | none => []

end

/-- The line of a row: two spaces per level of nesting, the line number in three columns,
`: ` and the statement; for the first row of an else body, the parent's indentation,
five spaces and `else:` before it. -/
def Row.lines (r : Row) : List String :=
  (if r.opensElse then [pad (r.depth - 1) ++ "     else:"] else []) ++
    [pad r.depth ++ lineColumn r.stmt.head.line ++ ": " ++ r.stmt.head.render]

section Rows

@[simp] theorem rows_nil (depth : Nat) : rows depth [] = [] := by simp [rows]

@[simp] theorem rows_cons (depth : Nat) (s : Stmt) (rest : List Stmt) :
    rows depth (s :: rest) = (⟨depth, s, false⟩ :: rowsBelow depth s) ++ rows depth rest := by
  simp [rows]

@[simp] theorem rowsBelow_single (depth : Nat) (c : Classified) :
    rowsBelow depth (.single c) = [] := by simp [rowsBelow]

@[simp] theorem rowsBelow_loop (depth : Nat) (c : Classified) (body : List Stmt) :
    rowsBelow depth (.loop c body) = rows (depth + 1) body := by simp [rowsBelow]

@[simp] theorem rowsBelow_branch (depth : Nat) (c : Classified) (body : List Stmt)
    (orElse : Option (List Stmt)) :
    rowsBelow depth (.branch c body orElse) = rows (depth + 1) body ++ rowsElse (depth + 1) orElse := by
  simp [rowsBelow]

@[simp] theorem rowsElse_some (depth : Nat) (b : List Stmt) :
    rowsElse depth (some b) = Row.opening (rows depth b) := by simp [rowsElse]

@[simp] theorem rowsElse_none (depth : Nat) : rowsElse depth none = [] := by simp [rowsElse]

@[simp] theorem opening_stmt (rs : List Row) : (Row.opening rs).map Row.stmt = rs.map Row.stmt := by
  cases rs <;> rfl

/-- The rows of a tree are its walk, statement by statement. -/
theorem rows_stmt (depth : Nat) (ts : List Stmt) : (rows depth ts).map Row.stmt = walk ts := by
  -- the three recursions of the rows run alike with the three of the walk
  refine (rows.mutual_induct
    (fun d ts => (rows d ts).map Row.stmt = walk ts)
    (fun d s => (rowsBelow d s).map Row.stmt = s.descendants)
    (fun d e => (rowsElse d e).map Row.stmt = walkElse e)
    ?_ ?_ ?_ ?_ ?_ ?_ ?_).1 depth ts
  · intro d c
    simp
  · intro d c body ih
    simp [ih]
  · intro d c body orElse ihb ihe
    simp [ihb, ihe]
  · intro d
    simp [walk_nil]
  · intro d s rest ihs ihr
    simp [ihs, ihr, walkOne_eq]
  · intro d b ih
    simp [ih]
  · intro d
    simp

/-- The outline is the rows, each written as its line, after an `else:` line when it
opens an else body. -/
theorem outline_eq_rows (depth : Nat) (ts : List Stmt) :
    outline depth ts = (rows depth ts).flatMap Row.lines := by
  refine (outline.mutual_induct
    (fun d ts => outline d ts = (rows d ts).flatMap Row.lines)
    (fun d s => outlineOne d s = (⟨d, s, false⟩ :: rowsBelow d s).flatMap Row.lines)
    (fun d e => outlineElse d e = (rowsElse (d + 1) e).flatMap Row.lines)
    ?_ ?_ ?_ ?_ ?_ ?_ ?_).1 depth ts
  · intro d c
    simp [outlineOne, Row.lines, head]
  · intro d c body ih
    simp [outlineOne, Row.lines, head, ih]
  · intro d c body orElse ihb ihe
    simp [outlineOne, Row.lines, head, ihb, ihe]
  · intro d
    simp [outline]
  · intro d s rest ihs ihr
    simp [outline, ihs, ihr]
  · -- the first row of a non-empty else body brings the `else:` line
    intro d s rest ih
    rw [outlineElse, ih, rowsElse_some, rows_cons, List.cons_append, Row.opening]
    simp [Row.lines]
  · intro e d he
    cases e with
    | none => simp [outlineElse]
    | some b =>
      cases b with
      | nil => simp [outlineElse, Row.opening]
      | cons s rest => exact absurd rfl (he s rest)

end Rows

section Lines

theorem unbroken_pad (depth : Nat) : Text.Unbroken (pad depth).toList := Text.unbroken_pushn _

/-- A line number in three columns: spaces, then decimal digits. -/
theorem unbroken_lineColumn (n : Nat) : Text.Unbroken (lineColumn n).toList := by
  simp only [lineColumn, String.toList_append]
  refine (Text.unbroken_pushn _).append fun x hx => ?_
  have hb := (Expr.toDigits_char (by simpa [Nat.repr] using hx)).2.2.1
  cases h : Text.isLineBreak x
  · rfl
  · rw [Text.isBlank_of_isLineBreak h] at hb
    cases hb

/-- The name of a kind, in lower case, holds no line end. -/
theorem unbroken_kindName (k : StmtKind) : Text.Unbroken k.name.toLower.toList := by
  apply Text.unbroken_of_all
  rw [show k.name.toLower = k.name.map Char.toLower from rfl, String.toList_map]
  cases k <;> decide

/-- A statement written out holds no line end when its text holds none. -/
theorem unbroken_render {c : Classified} (h : Text.Unbroken c.text.toList) :
    Text.Unbroken c.render.toList := by
  have hall : Text.Unbroken (c.form.kind.name.toLower.toList ++ [' '] ++ c.text.toList) :=
    ((unbroken_kindName _).append (Text.unbroken_of_all (by decide))).append h
  simp only [Classified.render, Text.trimEndText, String.toList_ofList]
  -- trimming keeps characters of the kind's name, the blank and the text
  refine hall.mono fun x hx => ?_
  have hmem := List.mem_reverse.1 ((List.dropWhile_suffix _).subset (List.mem_reverse.1 hx))
  rwa [String.toList_append, String.toList_append] at hmem

/-- The lines of a row are not empty, and hold no line end when its statement's text holds
none. -/
theorem Row.lines_clean (r : Row) (h : Text.Unbroken r.stmt.head.text.toList) :
    ∀ l ∈ r.lines, l.toList ≠ [] ∧ Text.Unbroken l.toList := by
  intro l hl
  simp only [Row.lines, List.mem_append, List.mem_singleton] at hl
  rcases hl with hl | rfl
  · -- the `else:` line
    split at hl
    · simp only [List.mem_singleton] at hl
      subst hl
      simp only [String.toList_append]
      exact ⟨by simp, (unbroken_pad _).append (Text.unbroken_of_all (by decide))⟩
    · cases hl
  · simp only [String.toList_append]
    exact ⟨by simp, (((unbroken_pad _).append (unbroken_lineColumn _)).append
      (Text.unbroken_of_all (by decide))).append (unbroken_render h)⟩

/-- Cutting the outline text of a tree whose statements' texts hold no line end gives the
lines of its rows. -/
theorem outlineText_lines {ts : List Stmt} (h : ∀ t ∈ walk ts, Text.Unbroken t.head.text.toList) :
    (Text.splitLines (outlineText ts).toList).map String.ofList = (rows 0 ts).flatMap Row.lines := by
  have hclean : ∀ l ∈ ((rows 0 ts).flatMap Row.lines).map String.toList,
      l ≠ [] ∧ Text.Unbroken l := by
    intro l hl
    obtain ⟨x, hx, rfl⟩ := List.mem_map.1 hl
    obtain ⟨r, hr, hx⟩ := List.mem_flatMap.1 hx
    -- the row's statement is a statement of the walk
    have hw : r.stmt ∈ walk ts := by
      rw [← rows_stmt 0 ts]
      exact List.mem_map_of_mem hr
    exact r.lines_clean (h _ hw) x hx
  rw [outlineText, String.toList_intercalate, outline_eq_rows, show "\n".toList = ['\n'] from rfl,
    Text.splitLines_intercalate hclean]
  simp

end Lines

end Stmt

/-- The lines of a source hold no line end. -/
theorem SourceLine.unbroken_ofSource (source : String) {k : Nat}
    (hk : k < (SourceLine.ofSource source).size) :
    Text.Unbroken (SourceLine.ofSource source)[k].text.toList := by
  simp only [SourceLine.ofSource, List.getElem_toArray, List.getElem_map, List.getElem_zipIdx,
    String.toList_ofList]
  exact (Text.splitLines_clean (List.getElem_mem _)).mono (Text.trim_subset _)

namespace TreeSource

variable {r : TreeSource}

/-- A statement shows the text of its line's classification. -/
theorem Presents.text {t : Stmt} (h : r.Presents t) :
    t.head.text = (r.lineAt (t.head.line - 1)).text := by
  cases t with
  | single c =>
    -- the line itself, or a stray marker shown with the marker's text
    rcases h with ⟨hc, -⟩ | ⟨-, hc⟩
    · exact congrArg Classified.text hc
    · exact (congrArg Classified.text hc).trans rfl
  | loop c body => exact congrArg Classified.text h.1
  | branch c body e =>
    -- the line's own conditional, or the conditional of an else-if marker
    rcases h with ⟨hc, -⟩ | ⟨cond, -, hc⟩
    · exact congrArg Classified.text hc
    · exact (congrArg Classified.text hc).trans rfl

/-- Every classified line of a source holds no line end. -/
theorem unbroken_lineAt {depth : Nat} {source : String} {policy : Policy}
    (h : ofSource depth source policy = .ok r) (k : Nat) : Text.Unbroken (r.lineAt k).text.toList := by
  obtain ⟨hl, -, hsize, hclass⟩ := ofSource_spec h
  by_cases hk : k < r.lines.size
  · -- a line's classification keeps characters of the line
    refine Text.Unbroken.mono (Line.classify_text_subset (hclass k hk)) ?_
    have hk' : k < (SourceLine.ofSource source).size := hl ▸ hk
    have hline : r.lines[k] = (SourceLine.ofSource source)[k] := by simp [hl]
    rw [hline]
    exact SourceLine.unbroken_ofSource source hk'
  · have hnone : r.classified[k]? = none := by
      rw [Array.getElem?_eq_none_iff, hsize]
      omega
    simp [lineAt, hnone]

/-- No statement of a program read from a source holds a line end in its text. -/
theorem tree_unbroken {depth : Nat} {source : String} {policy : Policy} {p : ParsedProgram}
    (h : ofSource depth source policy = .ok r) (ht : r.tree depth = .ok p) :
    ∀ t ∈ Stmt.walk p.stmts, Text.Unbroken t.head.text.toList := by
  intro t htw
  have hpres := ((tree_spec (numbered_of_ofSource h) ht).2.lawful t htw).1
  rw [hpres.text]
  exact unbroken_lineAt h _

end TreeSource

/-- The outline of every program read lists its walk: cut into lines, the outline text is,
in order, one line per statement of the walk (two spaces per level of nesting, the line
number in three columns, `: ` and the statement written out), with an `else:` line at
the parent's indentation right before the first statement of each non-empty else body;
an empty body or else body gives no line. -/
theorem outline_lines_follow_walk {depth : Nat} {source : String} {policy : Policy}
    {p : ParsedProgram} (hp : ParsedProgram.read depth source policy = .ok p) :
    (Text.splitLines (Stmt.outlineText p.stmts).toList).map String.ofList =
      (Stmt.rows 0 p.stmts).flatMap Stmt.Row.lines ∧
    (Stmt.rows 0 p.stmts).map Stmt.Row.stmt = Stmt.walk p.stmts := by
  obtain ⟨r, hr, ht⟩ := ParsedProgram.read_eq_ok.1 hp
  exact ⟨Stmt.outlineText_lines (TreeSource.tree_unbroken hr ht), Stmt.rows_stmt 0 p.stmts⟩

/-- The outline of the program with a blank line after a body. -/
theorem outline_lines_follow_walk_blank_after_body :
    ∃ p, ParsedProgram.read 0 "もし x ならば:\n  y ← 1\n\nz ← 2" .lenient = .ok p ∧
      (Text.splitLines (Stmt.outlineText p.stmts).toList).map String.ofList =
        (Stmt.rows 0 p.stmts).flatMap Stmt.Row.lines ∧
      (Stmt.rows 0 p.stmts).map Stmt.Row.stmt = Stmt.walk p.stmts := by
  obtain ⟨p, hp⟩ := ParsedProgram.read_of_lenient ofSource_blank_after_body (by decide)
  exact ⟨p, hp, outline_lines_follow_walk hp⟩

end DnclTrace
