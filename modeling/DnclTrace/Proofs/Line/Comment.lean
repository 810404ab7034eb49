import Mathlib.Data.List.TakeWhile
import DnclTrace.Proofs.Line.Recognize

/-!
# A trailing comment leaves a line's classification alone

A line's code is the line cut at its first `//` outside string literals
(`stripComment`). Take a trimmed line `t` whose scan ends outside literals
(`endsOutside`): it meets a `//` of its own, or every literal it opens is closed by its
end. Then on `t`, a blank, `//` and any text, the cut falls where it falls in `t`
(`beforeComment_append`), or, when `t` has no `//` of its own, right after `t`
(`beforeComment_append_marker`). Either way the code is the code of `t`
(`stripComment_append_comment`), and it is not empty, since `t` starts with no blank
and with no `//` (`stripComment_isEmpty`).

The recognizers then see the same code, and a recognizer never answers that a line is
unrecognized (`firstForm_ne_unrecognized`); only an unrecognized line keeps its whole
text, so it alone tells the two lines apart.

Main statement: `classify_trailing_comment`.
-/

namespace DnclTrace.Line

/-- Scanning for a comment from inside the literal that `q` closes (or outside literals)
ends outside literals: it meets a `//` outside literals, or every literal it opens is
closed by the end. -/
def endsOutside : Option Char → List Char → Bool
  | q, [] => q.isNone
  | some q, c :: rest => endsOutside (if c = q then none else some q) rest
  | none, c :: rest =>
    match literalCloser? c with
    | some q => endsOutside (some q) rest
    | none => if c = '/' ∧ rest.head? = some '/' then true else endsOutside none rest

section Cut

/-- A `//` that a text holds is found first in any text it starts. -/
theorem beforeComment_append {q : Option Char} {xs pre : List Char} (ys : List Char)
    (h : beforeComment q xs = some pre) : beforeComment q (xs ++ ys) = some pre := by
  induction xs generalizing q pre with
  | nil => simp [beforeComment] at h
  | cons c rest ih =>
    cases q with
    | some q =>
      simp only [beforeComment, List.cons_append, Option.map_eq_some_iff] at h ⊢
      obtain ⟨a, ha, rfl⟩ := h
      exact ⟨a, ih ha, rfl⟩
    | none =>
      simp only [beforeComment, List.cons_append] at h ⊢
      cases hc : literalCloser? c with
      | some q =>
        simp only [hc, Option.map_eq_some_iff] at h ⊢
        obtain ⟨a, ha, rfl⟩ := h
        exact ⟨a, ih ha, rfl⟩
      | none =>
        simp only [hc] at h ⊢
        by_cases hm : c = '/' ∧ rest.head? = some '/'
        · -- the text itself starts with `//`
          have hy : (rest ++ ys).head? = some '/' := by
            cases rest with
            | nil => simp at hm
            | cons d rest => simpa using hm.2
          rw [if_pos hm] at h
          rw [if_pos ⟨hm.1, hy⟩, h]
        · rw [if_neg hm, Option.map_eq_some_iff] at h
          obtain ⟨a, ha, rfl⟩ := h
          -- `//` cannot start at the last character: the text has no `//` after it
          have hm' : ¬(c = '/' ∧ (rest ++ ys).head? = some '/') := by
            rintro ⟨hc', hy⟩
            cases rest with
            | nil => simp [beforeComment] at ha
            | cons d rest => exact hm ⟨hc', by simpa using hy⟩
          rw [if_neg hm', ih ha]
          rfl

/-- A text with no `//` outside literals, whose scan ends outside literals, followed by a
blank and `//`, is cut right after the blank. -/
theorem beforeComment_append_marker {q : Option Char} {xs : List Char} (cs : List Char)
    (h : beforeComment q xs = none) (he : endsOutside q xs = true) :
    beforeComment q (xs ++ ' ' :: '/' :: '/' :: cs) = some (xs ++ [' ']) := by
  induction xs generalizing q with
  | nil =>
    -- outside literals, the blank is kept and the `//` after it cuts
    cases q with
    | some q => simp [endsOutside] at he
    | none => rfl
  | cons c rest ih =>
    cases q with
    | some q =>
      simp only [beforeComment, Option.map_eq_none_iff] at h
      simp only [endsOutside] at he
      simp only [List.cons_append, beforeComment, ih h he, Option.map_some]
    | none =>
      cases hc : literalCloser? c with
      | some q =>
        simp only [beforeComment, hc, Option.map_eq_none_iff] at h
        simp only [endsOutside, hc] at he
        simp only [List.cons_append, beforeComment, hc, ih h he, Option.map_some]
      | none =>
        by_cases hm : c = '/' ∧ rest.head? = some '/'
        · have hcut : beforeComment none (c :: rest) = some [] := by
            simp only [beforeComment, hc, if_pos hm]
          rw [hcut] at h
          cases h
        · simp only [beforeComment, hc, if_neg hm, Option.map_eq_none_iff] at h
          simp only [endsOutside, hc, if_neg hm] at he
          -- a `/` at the end of the text meets the blank, not a second `/`
          have hm' : ¬(c = '/' ∧ (rest ++ ' ' :: '/' :: '/' :: cs).head? = some '/') := by
            rintro ⟨hc', hy⟩
            cases rest with
            | nil => simp at hy
            | cons d rest => exact hm ⟨hc', by simpa using hy⟩
          simp only [List.cons_append, beforeComment, hc, if_neg hm', ih h he, Option.map_some]

/-- What comes before a comment is a prefix of the text. -/
theorem isPrefix_of_beforeComment {q : Option Char} {xs pre : List Char}
    (h : beforeComment q xs = some pre) : pre <+: xs := by
  induction xs generalizing q pre with
  | nil => simp [beforeComment] at h
  | cons c rest ih =>
    cases q with
    | some q =>
      simp only [beforeComment, Option.map_eq_some_iff] at h
      obtain ⟨a, ha, rfl⟩ := h
      exact List.cons_prefix_cons.2 ⟨rfl, ih ha⟩
    | none =>
      simp only [beforeComment] at h
      cases hc : literalCloser? c with
      | some q =>
        simp only [hc, Option.map_eq_some_iff] at h
        obtain ⟨a, ha, rfl⟩ := h
        exact List.cons_prefix_cons.2 ⟨rfl, ih ha⟩
      | none =>
        simp only [hc] at h
        split at h
        · cases h
          exact List.nil_prefix
        · obtain ⟨a, ha, rfl⟩ := Option.map_eq_some_iff.1 h
          exact List.cons_prefix_cons.2 ⟨rfl, ih ha⟩

/-- Nothing comes before a comment only when the text starts with `//`. -/
theorem beforeComment_eq_nil {xs : List Char} (h : beforeComment none xs = some []) :
    ∃ rest, xs = '/' :: '/' :: rest := by
  cases xs with
  | nil => simp [beforeComment] at h
  | cons c rest =>
    simp only [beforeComment] at h
    cases hc : literalCloser? c with
    | some q => simp [hc] at h
    | none =>
      simp only [hc] at h
      split at h
      · rename_i hm
        obtain ⟨rfl, hr⟩ := hm
        cases rest with
        | nil => simp at hr
        | cons d rest =>
          simp only [List.head?_cons, Option.some.injEq] at hr
          exact ⟨rest, by rw [hr]⟩
      · simp at h

end Cut

section Trimmed

/-- A blank at the end goes with the other trailing blanks. -/
theorem trimEnd_append_blank (cs : List Char) : Text.trimEnd (cs ++ [' ']) = Text.trimEnd cs := by
  simp only [Text.trimEnd, List.reverse_append, List.reverse_cons, List.reverse_nil,
    List.nil_append, List.cons_append]
  rw [List.dropWhile_cons_of_pos (by decide)]

/-- Trimming leaves nothing exactly when every character is blank. -/
theorem trimEnd_eq_nil {cs : List Char} : Text.trimEnd cs = [] ↔ ∀ c ∈ cs, Text.isBlank c = true := by
  simp [Text.trimEnd, List.dropWhile_eq_nil_iff]

/-- A trimmed text starts with no blank, and trimming its end changes nothing. -/
theorem trimmed_parts {t : String} (ht : Text.trimText t = t) :
    Text.trimStart t.toList = t.toList ∧ Text.trimEnd t.toList = t.toList := by
  have hcs : Text.trimEnd (Text.trimStart t.toList) = t.toList := by
    have := congrArg String.toList ht
    simpa [Text.trimText, Text.trim] using this
  -- each trim keeps a part of the text, and together they keep all of it
  have hsuf : Text.trimStart t.toList <:+ t.toList := List.dropWhile_suffix _
  have hlen : (Text.trimEnd (Text.trimStart t.toList)).length ≤ (Text.trimStart t.toList).length := by
    simp only [Text.trimEnd, List.length_reverse]
    exact Nat.le_trans (List.dropWhile_suffix _).length_le (by simp)
  rw [hcs] at hlen
  have hstart : Text.trimStart t.toList = t.toList :=
    hsuf.eq_of_length (Nat.le_antisymm hsuf.length_le hlen)
  refine ⟨hstart, ?_⟩
  rw [hstart] at hcs
  exact hcs

end Trimmed

section Code

variable {t : String}

/-- The characters of a line with a trailing comment. -/
theorem toList_append_comment (c : String) :
    (t ++ " //" ++ c).toList = t.toList ++ ' ' :: '/' :: '/' :: c.toList := by
  simp [String.toList_append]

/-- A trailing comment leaves the code of a trimmed line whose scan ends outside
literals. -/
theorem stripComment_append_comment (c : String) (ht : Text.trimText t = t)
    (he : endsOutside none t.toList = true) :
    stripComment (t ++ " //" ++ c) = stripComment t := by
  unfold stripComment
  rw [toList_append_comment]
  cases h : beforeComment none t.toList with
  | some pre => rw [beforeComment_append _ h]
  | none =>
    -- the cut falls after `t` and the blank, which trimming drops again
    rw [beforeComment_append_marker _ h he]
    simp only [Text.trimEndText, String.toList_ofList, trimEnd_append_blank,
      (trimmed_parts ht).2, String.ofList_toList]

/-- A trimmed line that does not start with `//` has some code. -/
theorem stripComment_isEmpty (hne : t.isEmpty = false) (ht : Text.trimText t = t)
    (hc : isCommentLine t = false) : (stripComment t).isEmpty = false := by
  unfold stripComment
  cases h : beforeComment none t.toList with
  | none => exact hne
  | some pre =>
    obtain ⟨a, r, hl⟩ : ∃ a r, t.toList = a :: r := by
      cases hl : t.toList with
      | nil => simp [← String.toList_eq_nil_iff, hl] at hne
      | cons a r => exact ⟨a, r, rfl⟩
    -- the code keeps the line's first character, which is no blank
    have ha : Text.isBlank a = false := by
      have hs := (trimmed_parts ht).1
      rw [hl] at hs
      cases hb : Text.isBlank a
      · rfl
      · -- a blank first character would be trimmed away
        have hlen := congrArg List.length hs
        rw [Text.trimStart, List.dropWhile_cons_of_pos hb] at hlen
        have := (List.dropWhile_suffix (l := r) Text.isBlank).length_le
        simp only [List.length_cons] at hlen
        omega
    have hpre : a ∈ pre := by
      rw [hl] at h
      have hp := isPrefix_of_beforeComment h
      cases pre with
      | nil =>
        obtain ⟨rest, hrest⟩ := beforeComment_eq_nil h
        rw [← hl] at hrest
        simp [isCommentLine, hrest] at hc
      | cons b pre =>
        obtain ⟨rfl, -⟩ := List.cons_prefix_cons.1 hp
        exact List.mem_cons_self
    have hcode : Text.trimEnd pre ≠ [] := fun hnil => by
      simp [trimEnd_eq_nil.1 hnil a hpre] at ha
    simpa only [Text.trimEndText, String.isEmpty_iff, ← String.toList_eq_nil_iff,
      String.toList_ofList, Bool.eq_false_iff, ne_eq, decide_eq_true_eq] using hcode

/-- A trailing comment does not make a line a comment line. -/
theorem isCommentLine_append_comment (c : String) (hne : t.isEmpty = false)
    (hc : isCommentLine t = false) : isCommentLine (t ++ " //" ++ c) = false := by
  unfold isCommentLine at hc ⊢
  rw [toList_append_comment]
  cases hl : t.toList with
  | nil => simp [← String.toList_eq_nil_iff, hl] at hne
  | cons a r =>
    rw [hl] at hc
    -- a one-character line meets the blank before `//`; a longer one keeps its first two
    cases r with
    | nil => simpa [List.isPrefixOf] using hc
    | cons b r =>
      simp only [List.cons_append, Bool.or_eq_false_iff] at hc ⊢
      exact hc

end Code

section Recognizers

variable {depth : Nat} {s : String} {f : Form}

/-- A recognizer never answers that a line is unrecognized. -/
def NeverUnrecognized (r : Recognizer) : Prop :=
  ∀ depth s f, r depth s = .ok (some f) → f.kind ≠ .unrecognized

/-- A recognizer of one operand answers with the form it builds. -/
theorem conditionForm?_form {p : List Pattern.Item} {mk : SourceExpr → Form}
    (h : conditionForm? p mk depth s = .ok (some f)) : ∃ e, f = mk e := by
  unfold conditionForm? at h
  dsimp only at h
  cases hm : Pattern.matchStart p s.toList with
  | none =>
    simp only [hm] at h
    cases h
  | some m =>
    cases he : SourceExpr.read (depth + 1) (groupText s.toList m 1) with
    | error e =>
      simp only [hm, he, bind, Except.bind] at h
      cases h
    | ok e =>
      simp only [hm, he, bind, Except.bind, pure, Except.pure, Except.ok.injEq,
        Option.some.injEq] at h
      exact ⟨e, h.symm⟩

/-- The markers' recognizer answers with an else-if marker or an else marker. -/
theorem elseMarker?_kind (h : elseMarker? depth s = .ok (some f)) :
    f.kind = .elseIf ∨ f.kind = .elseMarker := by
  unfold elseMarker? at h
  cases hc : conditionForm? elseIfPattern .elseIf depth s with
  | error e =>
    rw [hc] at h
    cases h
  | ok r =>
    rw [hc] at h
    cases r with
    | some g =>
      cases h
      obtain ⟨e, rfl⟩ := conditionForm?_form hc
      exact .inl rfl
    | none =>
      simp only [bind, Except.bind, pure, Except.pure] at h
      split at h
      · cases h
        exact .inr rfl
      · cases h

/-- Every recognizer answers with a form of its own kind, never an unrecognized line. -/
theorem recognizers_neverUnrecognized : ∀ r ∈ recognizers, NeverUnrecognized r := by
  simp only [recognizers, List.forall_mem_cons]
  refine ⟨?_, ?_, ?_, ?_, ?_, fun _ _ _ h => ?_, ?_, ?_, fun _ h => absurd h List.not_mem_nil⟩
  case refine_6 => rcases elseMarker?_kind h with hk | hk <;> rw [hk] <;> decide
  all_goals
    intro depth s f h
    -- follow the recognizer to its answers: nothing, a fault, or a form of its own kind
    simp only [unlessHeader, arrayDeclare?, indexAssign?, forLoop?, conditionForm?, assign?,
      output?, bind, Except.bind, pure, Except.pure] at h
    repeat' split at h
    all_goals cases h
    all_goals simp [Form.kind]

/-- The first recognizer that takes a text never says it is unrecognized. -/
theorem firstForm_ne_unrecognized {rs : List Recognizer}
    (hrs : ∀ r ∈ rs, NeverUnrecognized r) (h : firstForm depth rs s = .ok (some f)) :
    f.kind ≠ .unrecognized := by
  induction rs with
  | nil => cases h
  | cons r rs ih =>
    cases hr : r depth s with
    | error e =>
      simp only [firstForm, hr, bind, Except.bind] at h
      cases h
    | ok o =>
      cases o with
      | none =>
        rw [firstForm_cons_none hr] at h
        exact ih (fun r' h' => hrs r' (List.mem_cons_of_mem r h')) h
      | some g =>
        rw [firstForm_cons_some hr] at h
        cases h
        exact hrs r List.mem_cons_self _ _ _ hr

end Recognizers

/-- A trailing comment never changes how a line is classified: a trimmed line that is no
comment line, whose scan ends outside string literals, followed by ` //` and any text,
is classified as the line alone is (kind, operands and text), except that an
unrecognized line keeps its own whole text. -/
theorem classify_trailing_comment (depth line : Nat) (t c : String) (hne : t.isEmpty = false)
    (ht : Text.trimText t = t) (hc : isCommentLine t = false)
    (he : endsOutside none t.toList = true) :
    classify depth (t ++ " //" ++ c) line =
      (classify depth t line).map fun cl =>
        if cl.form.kind = .unrecognized then { cl with text := t ++ " //" ++ c } else cl := by
  have hne' : (t ++ " //" ++ c).isEmpty = false := by simp
  have hcode := stripComment_isEmpty hne ht hc
  unfold classify
  simp only [hne, hne', hc, isCommentLine_append_comment c hne hc,
    stripComment_append_comment c ht he, hcode, Bool.false_eq_true, if_false]
  -- both lines have the same code, so the recognizers answer alike
  cases hf : firstForm (depth + 1) recognizers (stripComment t) with
  | error e => rfl
  | ok o =>
    cases o with
    | none => rfl
    | some g =>
      have hg := firstForm_ne_unrecognized recognizers_neverUnrecognized hf
      simp [bind, Except.bind, pure, Except.pure, Except.map, hg]

/-- A comment marker inside a literal is kept, and the trailing comment is cut. -/
theorem classify_trailing_comment_literal :
    "「http://a」を表示する".isEmpty = false ∧ Text.trimText "「http://a」を表示する" = "「http://a」を表示する" ∧
      isCommentLine "「http://a」を表示する" = false ∧
      endsOutside none "「http://a」を表示する".toList = true ∧
      classify 0 ("「http://a」を表示する" ++ " //" ++ "見出し") 3 =
        (classify 0 "「http://a」を表示する" 3).map fun cl =>
          if cl.form.kind = .unrecognized then { cl with text := "「http://a」を表示する" ++ " //" ++ "見出し" }
          else cl :=
  ⟨by decide, by decide, by decide, by decide,
    classify_trailing_comment 0 3 _ _ (by decide) (by decide) (by decide) (by decide)⟩

end DnclTrace.Line
