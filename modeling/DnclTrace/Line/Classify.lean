import DnclTrace.Line.Form
import DnclTrace.Line.Scan
import DnclTrace.Pattern.Basic
import DnclTrace.Expr.Token

/-!
# Classifying a line

A line is blank, a comment when it starts with `//` or `#` or holds nothing before an
inline comment, and otherwise classified by its code (the line without an inline
comment). The forms are tried in this order, the first that fits wins:

1. `A = [e, …]` (or `←`, or braces), unless the line is a control header;
2. `A[i] = e`, unless the line is a control header;
3. `c を s から e まで d ずつ増やしながら繰り返す:` (or `減らし`);
4. `cond が成り立つ間繰り返す:`;
5. `もし cond ならば:`;
6. `そうでなくもし cond ならば:`, then `そうでなければ:`;
7. `x = e`, unless the line is a control header;
8. `operand, … を表示する`.

A line that fits none is unrecognized and keeps its whole text. The patterns are those
of `Pattern`: names start with a letter, blanks are optional around keywords, the comma
before `繰り返す` and the final colon are optional.

Classifying runs a number of calls deep, which bounds how deeply the operands may nest
(see `SourceExpr.read`). A recognizer runs one call deeper than the classifier, and
one more under the control-header check; it reads its operands one call deeper still,
the elements of an array declaration two.
-/

namespace DnclTrace.Line

open Pattern

/-- Zero or more blanks. -/
def blanks : Item := .many Text.isBlank 0 none true

/-- A name, captured as group `g`. -/
def name (g : Nat) : List Item :=
  capture g [.char Expr.isNameStart, .many Expr.isNameChar 0 none true]

/-- `=` or `←`. -/
def assignSign : Item := .oneOf ["=".toList, "←".toList]

/-- One or more characters of a line, as few as possible, captured as group `g`. -/
def shortest (g : Nat) : List Item := capture g [.many (· != '\n') 1 none false]

/-- One or more characters of a line, as many as possible, captured as group `g`. -/
def longest (g : Nat) : List Item := capture g [.many (· != '\n') 1 none true]

/-- Optional blanks and an optional colon, then the end of the line. -/
def headerEnd : List Item :=
  [blanks, .many (fun c => c == ':' || c == '：') 0 (some 1) true, .lineEnd]

/-- An optional comma. -/
def optionalComma : Item := .many (fun c => c == '、' || c == ',') 0 (some 1) true

/-- `A = [ … ]`: group 1 the name, group 2 the elements. -/
def arrayDeclarePattern : List Item :=
  name 1 ++ [blanks, assignSign, blanks, .char (fun c => c == '[' || c == '{')] ++
    capture 2 [.many (· != '\n') 0 none true] ++
    [.char (fun c => c == ']' || c == '}'), .lineEnd]

/-- `A [`: group 1 the name; mark 9 just after the bracket. -/
def indexTargetPattern : List Item := name 1 ++ [blanks, lit '[', .mark 9]

/-- `= e` after an element: group 1 the value. -/
def indexValuePattern : List Item := [blanks, assignSign, blanks] ++ longest 1 ++ [.lineEnd]

/-- The counted loop header: groups counter, start, end, step and direction. -/
def forPattern : List Item :=
  name 1 ++ [blanks] ++ word "を" ++ [blanks] ++ shortest 2 ++ [blanks] ++ word "から" ++
    [blanks] ++ shortest 3 ++ [blanks] ++ word "まで" ++ [blanks] ++ shortest 4 ++ [blanks] ++
    word "ずつ" ++ capture 5 [.oneOf ["増やし".toList, "減らし".toList]] ++ word "ながら" ++
    [optionalComma, blanks] ++ word "繰り返す" ++ headerEnd

/-- The conditional loop header: group 1 the condition. -/
def whilePattern : List Item :=
  shortest 1 ++ [blanks] ++ word "が成り立つ間" ++ [optionalComma, blanks] ++ word "繰り返す" ++
    headerEnd

/-- The conditional header: group 1 the condition. -/
def ifPattern : List Item :=
  word "もし" ++ [blanks] ++ shortest 1 ++ [blanks] ++ word "ならば" ++ headerEnd

/-- The else-if marker: group 1 the condition. -/
def elseIfPattern : List Item :=
  word "そうでなくもし" ++ [blanks] ++ shortest 1 ++ [blanks] ++ word "ならば" ++ headerEnd

/-- The else marker. -/
def elsePattern : List Item := word "そうでなければ" ++ headerEnd

/-- `x = e`: group 1 the name, group 2 the value. -/
def assignPattern : List Item := name 1 ++ [blanks, assignSign, blanks] ++ longest 2 ++ [.lineEnd]

/-- The line is the header of a loop or conditional, or a marker. -/
def isControlHeader (s : String) : Bool :=
  [forPattern, whilePattern, ifPattern, elseIfPattern, elsePattern].any fun p =>
    (matchStart p s.toList).isSome

/-- The text of group `g` of a match. -/
def groupText (cs : List Char) (m : Marks) (g : Nat) : String := String.ofList (group cs m g)

/-- An array declaration, recognized `depth` calls deep; each element is read two
calls deeper. -/
def arrayDeclare? (depth : Nat) (s : String) : Except Fault (Option Form) := do
  let cs := s.toList
  match matchStart arrayDeclarePattern cs with
  | none => pure none
  | some m =>
    let inner := Text.trimText (groupText cs m 2)
    let elements ← if inner.isEmpty then pure []
      else (splitTopLevel inner).mapM (SourceExpr.read (depth + 2))
    pure (some (.arrayDeclare (groupText cs m 1) elements))

/-- An element assignment, recognized `depth` calls deep. -/
def indexAssign? (depth : Nat) (s : String) : Except Fault (Option Form) := do
  let cs := s.toList
  match matchStart indexTargetPattern cs with
  | none => pure none
  | some m =>
    let after := offset cs m 9
    match closingBracket? (cs.drop (after - 1)) with
    | none => pure none
    | some k =>
      let close := after - 1 + k
      let valueText := cs.drop (close + 1)
      match matchStart indexValuePattern valueText with
      | none => pure none
      | some vm =>
        let index ← SourceExpr.read (depth + 1) (String.ofList ((cs.take close).drop after))
        let value ← SourceExpr.read (depth + 1) (groupText valueText vm 1)
        pure (some (.indexAssign (groupText cs m 1) index value))

/-- A counted loop header, recognized `depth` calls deep. -/
def forLoop? (depth : Nat) (s : String) : Except Fault (Option Form) := do
  let cs := s.toList
  match matchStart forPattern cs with
  | none => pure none
  | some m =>
    let start ← SourceExpr.read (depth + 1) (groupText cs m 2)
    let stop ← SourceExpr.read (depth + 1) (groupText cs m 3)
    let step ← SourceExpr.read (depth + 1) (groupText cs m 4)
    pure (some (.forLoop (groupText cs m 1) start stop step (groupText cs m 5 == "減らし")))

/-- A form whose only operand is the condition in group 1 of a pattern, recognized
`depth` calls deep. -/
def conditionForm? (p : List Item) (mk : SourceExpr → Form) (depth : Nat) (s : String) :
    Except Fault (Option Form) := do
  let cs := s.toList
  match matchStart p cs with
  | none => pure none
  | some m => pure (some (mk (← SourceExpr.read (depth + 1) (groupText cs m 1))))

/-- An else-if or else marker, recognized `depth` calls deep. -/
def elseMarker? (depth : Nat) (s : String) : Except Fault (Option Form) := do
  match ← conditionForm? elseIfPattern .elseIf depth s with
  | some f => pure (some f)
  | none => pure (if (matchStart elsePattern s.toList).isSome then some .elseMarker else none)

/-- An assignment, recognized `depth` calls deep. -/
def assign? (depth : Nat) (s : String) : Except Fault (Option Form) := do
  let cs := s.toList
  match matchStart assignPattern cs with
  | none => pure none
  | some m =>
    pure (some (.assign (groupText cs m 1) (← SourceExpr.read (depth + 1) (groupText cs m 2))))

/-- The ending of an output statement. -/
def outputSuffix : String := "を表示する"

/-- An output statement, recognized `depth` calls deep. -/
def output? (depth : Nat) (s : String) : Except Fault (Option Form) := do
  let cs := s.toList
  let suffix := outputSuffix.toList
  if !(suffix.isSuffixOf cs) then return none
  let operands := Text.trimText (String.ofList (cs.take (cs.length - suffix.length)))
  if operands.isEmpty then return none
  let parts ← (splitTopLevel operands).mapM fun raw =>
    match stringLiteral? raw with
    | some lit => pure (OutputPart.literal lit)
    | none => OutputPart.expr <$> SourceExpr.read (depth + 1) raw
  pure (some (.output parts))

/-- A recognizer of a line, given how many calls deep it runs. -/
abbrev Recognizer := Nat → String → Except Fault (Option Form)

/-- A recognizer that declines control headers; it runs the recognizer one call
deeper. -/
def unlessHeader (r : Recognizer) (depth : Nat) (s : String) : Except Fault (Option Form) :=
  if isControlHeader s then pure none else r (depth + 1) s

/-- The recognizers in order of precedence. -/
def recognizers : List Recognizer :=
  [unlessHeader arrayDeclare?, unlessHeader indexAssign?, forLoop?,
   conditionForm? whilePattern .whileLoop, conditionForm? ifPattern .conditional,
   elseMarker?, unlessHeader assign?, output?]

/-- The first recognizer that accepts the code, each run `depth` calls deep. -/
def firstForm (depth : Nat) : List Recognizer → String → Except Fault (Option Form)
  | [], _ => pure none
  | r :: rs, s => do
    match ← r depth s with
    | some f => pure (some f)
    | none => firstForm depth rs s

/-- The line starts a whole-line comment. -/
def isCommentLine (s : String) : Bool :=
  "//".toList.isPrefixOf s.toList || "#".toList.isPrefixOf s.toList

/-- Classifies a line, `depth` calls deep; the recognizers run one call deeper. -/
def classify (depth : Nat) (text : String) (line : Nat) : Except Fault Classified := do
  if text.isEmpty then return ⟨line, "", .blank⟩
  if isCommentLine text then return ⟨line, text, .comment⟩
  let code := stripComment text
  if code.isEmpty then return ⟨line, text, .comment⟩
  match ← firstForm (depth + 1) recognizers code with
  | some f => pure ⟨line, code, f⟩
  | none => pure ⟨line, text, .unrecognized⟩

end DnclTrace.Line
