import DnclTrace.Text.Blank

/-!
# Scanning a line around string literals

A string literal opens with `「` or `"` and runs to the next `」` or `"` respectively;
inside it nothing else counts. Outside literals:

* `//` starts a comment that runs to the end of the line (`stripComment`);
* a comma `,` or `，` outside all brackets `()[]{}` separates operands
  (`splitTopLevel`); brackets are only counted, never matched against each other.

`closingBracket?` finds the `]` that closes a `[`, counting only square brackets.
-/

namespace DnclTrace.Line

/-- The closing quote of a literal that `c` opens. -/
def literalCloser? (c : Char) : Option Char :=
  if c = '「' then some '」' else if c = '"' then some '"' else none

/-- The characters before the first `//` outside literals, when there is one;
`inside` is the closing quote of the literal being read. -/
def beforeComment : Option Char → List Char → Option (List Char)
  | _, [] => none
  | some q, c :: rest =>
    (beforeComment (if c = q then none else some q) rest).map (c :: ·)
  | none, c :: rest =>
    match literalCloser? c with
    | some q => (beforeComment (some q) rest).map (c :: ·)
    | none =>
      if c = '/' ∧ rest.head? = some '/' then some []
      else (beforeComment none rest).map (c :: ·)

/-- The line without a trailing comment (and the blanks before it). -/
def stripComment (s : String) : String :=
  match beforeComment none s.toList with
  | some code => Text.trimEndText (String.ofList code)
  | none => s

/-- The operands of a line, cut at top-level commas and kept reversed while read:
`inside` is the closing quote of the current literal, `depth` the bracket count, `cur`
the operand read so far. -/
def splitFrom (inside : Option Char) (depth : Int) (cur : List Char) :
    List Char → List (List Char)
  | [] => [cur.reverse]
  | c :: rest =>
    match inside with
    | some q => splitFrom (if c = q then none else some q) depth (c :: cur) rest
    | none =>
      match literalCloser? c with
      | some q => splitFrom (some q) depth (c :: cur) rest
      | none =>
        if c = '(' ∨ c = '[' ∨ c = '{' then splitFrom none (depth + 1) (c :: cur) rest
        else if c = ')' ∨ c = ']' ∨ c = '}' then splitFrom none (depth - 1) (c :: cur) rest
        else if (c = ',' ∨ c = '，') ∧ depth = 0 then cur.reverse :: splitFrom none depth [] rest
        else splitFrom none depth (c :: cur) rest

/-- The trimmed operands of a text, cut at top-level commas; never empty. -/
def splitTopLevel (s : String) : List String :=
  (splitFrom none 0 [] s.toList).map fun cs => String.ofList (Text.trim cs)

/-- The offset of the `]` that closes the bracket count `depth`, counting from `i`. -/
def closeFrom (depth : Int) (i : Nat) : List Char → Option Nat
  | [] => none
  | c :: rest =>
    if c = '[' then closeFrom (depth + 1) (i + 1) rest
    else if c = ']' then
      if depth - 1 = 0 then some i else closeFrom (depth - 1) (i + 1) rest
    else closeFrom depth (i + 1) rest

/-- The offset, within `cs`, of the `]` closing the `[` that `cs` starts with. -/
def closingBracket? (cs : List Char) : Option Nat := closeFrom 0 0 cs

/-- The text of a string literal that makes up the whole operand. -/
def stringLiteral? (part : String) : Option String :=
  match part.toList with
  | c :: rest =>
    match literalCloser? c with
    | some q =>
      if rest ≠ [] ∧ rest.getLast? = some q then some (String.ofList rest.dropLast) else none
    | none => none
  | [] => none

end DnclTrace.Line
