import DnclTrace.Line.Classify

/-!
# What the recognizers give

One lemma for each recognizer of a line and each way it ends: a pattern that does not
match declines the line, one that matches reads its operands. A line is then classified
by rewriting with them, one recognizer after another, and only the pattern matches, the
group texts and the operand reads are left to compute. A line that is no control header
is declined by every header recognizer (`matchStart_none_of_not_header`).

Reading an expression splits the same way (`SourceExpr.read_of_tokens`): the tokens of
its normalised text, then the tree parsed from them. A name or a numeral alone parses
whenever the rules may nest eight deep, one level for each rule from `or` down to
`primary`.
-/

namespace DnclTrace

namespace Expr

/-- A name alone is the variable it names. -/
theorem parseTokens_ident (a : Nat) (n : String) :
    parseTokens (a + 8) [.ident n] = .ok (.var n) := by
  simp [parseTokens, parseOr, parseAnd, parseNot, parseComparison, parseAdditive, parseTerm,
    parseUnary, parsePrimary, orRest, andRest, additiveRest, termRest, postfixNot, Parsed.widen,
    bind, Except.bind, pure, Except.pure]

/-- A numeral alone is its value. -/
theorem parseTokens_number (a : Nat) {s : String} {v : Value} (hv : numeralValue s = .ok v) :
    parseTokens (a + 8) [.number s] = .ok (.num v) := by
  simp [parseTokens, parseOr, parseAnd, parseNot, parseComparison, parseAdditive, parseTerm,
    parseUnary, parsePrimary, orRest, andRest, additiveRest, termRest, postfixNot, Parsed.widen,
    hv, bind, Except.bind, pure, Except.pure]

end Expr

/-- An expression whose tokens parse reads as its trimmed text and its tree. -/
theorem SourceExpr.read_of_tokens {depth : Nat} {text source : String} {ts : List Expr.Token}
    {e : Expr} (hs : Text.trimText text = source)
    (ht : Expr.tokenize (Expr.normalize source) = .ok ts)
    (hp : Expr.parseTokens (allowance depth) ts = .ok e) :
    read depth text = .ok ⟨source, .ok e⟩ := by
  simp only [read, hs, ht, hp]
  rfl

namespace Line

open Pattern

variable {depth : Nat} {s : String}

/-- A line with code that a recognizer takes is classified by the form it gives, with its
code as text. -/
theorem classify_of_form {text : String} {line : Nat} {f : Form} (hne : text.isEmpty = false)
    (hc : isCommentLine text = false) (hcode : (stripComment text).isEmpty = false)
    (hf : firstForm (depth + 1) recognizers (stripComment text) = .ok (some f)) :
    classify depth text line = .ok ⟨line, stripComment text, f⟩ := by
  simp only [classify, hne, hc, hcode, hf, Bool.false_eq_true, if_false]
  rfl

theorem firstForm_cons_none {r : Recognizer} {rs : List Recognizer} (h : r depth s = .ok none) :
    firstForm depth (r :: rs) s = firstForm depth rs s := by
  simp only [firstForm, h]
  rfl

theorem firstForm_cons_some {r : Recognizer} {rs : List Recognizer} {f : Form}
    (h : r depth s = .ok (some f)) : firstForm depth (r :: rs) s = .ok (some f) := by
  simp only [firstForm, h]
  rfl

theorem unlessHeader_of_header {r : Recognizer} (h : isControlHeader s = true) :
    unlessHeader r depth s = .ok none := by
  simp only [unlessHeader, h, if_true]
  rfl

theorem unlessHeader_of_not_header {r : Recognizer} (h : isControlHeader s = false) :
    unlessHeader r depth s = r (depth + 1) s := by
  simp [unlessHeader, h]

/-- A line that is no control header matches none of the header patterns. -/
theorem matchStart_none_of_not_header (h : isControlHeader s = false) {p : List Item}
    (hp : p ∈ [forPattern, whilePattern, ifPattern, elseIfPattern, elsePattern]) :
    matchStart p s.toList = none := by
  unfold isControlHeader at h
  have := List.any_eq_false.1 h p hp
  simpa using this

theorem conditionForm?_none {p : List Item} {mk : SourceExpr → Form}
    (h : matchStart p s.toList = none) : conditionForm? p mk depth s = .ok none := by
  simp only [conditionForm?, h]
  rfl

theorem conditionForm?_some {p : List Item} {mk : SourceExpr → Form} {m : Marks} {e : SourceExpr}
    (h : matchStart p s.toList = some m)
    (he : SourceExpr.read (depth + 1) (groupText s.toList m 1) = .ok e) :
    conditionForm? p mk depth s = .ok (some (mk e)) := by
  simp only [conditionForm?, h, he]
  rfl

theorem forLoop?_none (h : matchStart forPattern s.toList = none) :
    forLoop? depth s = .ok none := by
  simp only [forLoop?, h]
  rfl

theorem elseMarker?_none (h₁ : matchStart elseIfPattern s.toList = none)
    (h₂ : matchStart elsePattern s.toList = none) : elseMarker? depth s = .ok none := by
  simp only [elseMarker?, conditionForm?_none h₁, h₂]
  rfl

theorem elseMarker?_else (h₁ : matchStart elseIfPattern s.toList = none)
    (h₂ : (matchStart elsePattern s.toList).isSome = true) :
    elseMarker? depth s = .ok (some .elseMarker) := by
  simp only [elseMarker?, conditionForm?_none h₁, h₂]
  rfl

theorem arrayDeclare?_none (h : matchStart arrayDeclarePattern s.toList = none) :
    arrayDeclare? depth s = .ok none := by
  simp only [arrayDeclare?, h]
  rfl

theorem indexAssign?_none (h : matchStart indexTargetPattern s.toList = none) :
    indexAssign? depth s = .ok none := by
  simp only [indexAssign?, h]
  rfl

theorem assign?_some {m : Marks} {e : SourceExpr} (h : matchStart assignPattern s.toList = some m)
    (he : SourceExpr.read (depth + 1) (groupText s.toList m 2) = .ok e) :
    assign? depth s = .ok (some (.assign (groupText s.toList m 1) e)) := by
  simp only [assign?, h, he]
  rfl

end Line

end DnclTrace
