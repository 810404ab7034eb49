import DnclTrace.Text.Blank
import DnclTrace.Text.Digit
import DnclTrace.Text.Printable

/-!
# Tokens of expressions

An expression is read as a sequence of numerals, names and operators, blanks between
them skipped. At each position the first form that fits is taken, as long as it goes:

* a numeral: decimal digits, then optionally a point and more digits;
* a name: a letter (ASCII, hiragana, katakana, the prolonged sound mark, the iteration
  mark or a CJK ideograph), then such letters, ASCII digits and underscores; the words
  `and`, `AND`, `or`, `OR`, `not` and `NOT` are the operators `&&`, `||` and `!`;
* an operator: one of `&&`, `||`, `//`, `<=`, `>=`, `!=`, `==`, or a single sign of
  `-+*/%<>=!()[]¬`.

Any other character stops the scan with `SyntaxError.badChar`.
-/

namespace DnclTrace.Expr

/-- A token of an expression. -/
inductive Token where
  | number (text : String)
  | ident (name : String)
  | op (sym : String)
  deriving DecidableEq, Repr

/-- Why expression text has no tree. -/
inductive SyntaxError where
  /-- A character that starts no token. -/
  | badChar (c : Char)
  /-- No tokens at all. -/
  | empty
  /-- The tokens ran out inside an expression. -/
  | endedEarly
  /-- An operator `sym` was required; `got` is the token found, `none` at the end. -/
  | expected (sym : String) (got : Option String)
  /-- A complete expression is followed by this token. -/
  | leftover (tok : String)
  /-- This token cannot start an operand. -/
  | unexpected (tok : String)
  /-- Brackets or prefix operators nest beyond the reader's depth. -/
  | tooDeep
  deriving DecidableEq, Repr

/-- The report of a syntax error. -/
def SyntaxError.message : SyntaxError → String
  | .badChar c => "解釈できない文字です: " ++ Text.quote (String.singleton c)
  | .empty => "式が空です"
  | .endedEarly => "式が途中で終わっています"
  | .expected sym got =>
    "'" ++ sym ++ "' が必要ですが " ++ Text.quote (got.getD "式の終わり") ++ " がありました"
  | .leftover tok => "余分なトークンがあります: " ++ Text.quote tok
  | .unexpected tok => "予期しないトークンです: " ++ Text.quote tok
  | .tooDeep => "式の入れ子が深すぎます"

/-- The text of a token. -/
def Token.text : Token → String
  | .number s | .ident s | .op s => s

/-- A character that may start a name. -/
def isNameStart (c : Char) : Bool :=
  let n := c.toNat
  (0x41 ≤ n && n ≤ 0x5A) || (0x61 ≤ n && n ≤ 0x7A) || (0x3041 ≤ n && n ≤ 0x3096) ||
    (0x30A1 ≤ n && n ≤ 0x30FA) || n == 0x30FC || n == 0x3005 || (0x4E00 ≤ n && n ≤ 0x9FFF)

/-- A character that may continue a name. -/
def isNameChar (c : Char) : Bool :=
  isNameStart c || ('0' ≤ c && c ≤ '9') || c == '_'

/-- The operators of two characters, tried before single signs. -/
def pairOps : List String := ["&&", "||", "//", "<=", ">=", "!=", "=="]

/-- The operator signs of one character. -/
def singleOps : List Char := ['-', '+', '*', '/', '%', '<', '>', '=', '!', '(', ')', '[', ']', '¬']

/-- The token a name stands for: a logical word becomes its operator. -/
def wordToken (w : String) : Token :=
  if w = "and" ∨ w = "AND" then .op "&&"
  else if w = "or" ∨ w = "OR" then .op "||"
  else if w = "not" ∨ w = "NOT" then .op "!"
  else .ident w

/-- How many characters of a numeral follow its first digit, at the start of `cs`:
more digits, then a point and digits if a digit follows the point. -/
def numeralTail (cs : List Char) : Nat :=
  let w := (cs.takeWhile Text.isDecimal).length
  match cs.drop w with
  | '.' :: d :: more =>
    if Text.isDecimal d then w + 1 + ((d :: more).takeWhile Text.isDecimal).length else w
  | _ => w

/-- The token that starts with `c` (not a blank), and how many characters of the
following `cs` belong to it. -/
def tokenAt (c : Char) (cs : List Char) : Except SyntaxError (Token × Nat) :=
  if Text.isDecimal c then
    let k := numeralTail cs
    pure (.number (String.ofList (c :: cs.take k)), k)
  else if isNameStart c then
    let k := (cs.takeWhile isNameChar).length
    pure (wordToken (String.ofList (c :: cs.take k)), k)
  else
    let pair := match cs with
      | d :: _ => pairOps.contains (String.ofList [c, d])
      | [] => false
    if pair then pure (.op (String.ofList (c :: cs.take 1)), 1)
    else if singleOps.contains c then pure (.op (String.singleton c), 0)
    else throw (.badChar c)

/-- The tokens of a text, blanks skipped. -/
def scan : List Char → Except SyntaxError (List Token)
  | [] => pure []
  | c :: cs =>
    if Text.isBlank c then scan cs
    else
      match tokenAt c cs with
      | .error e => throw e
      | .ok (t, k) =>
        have : (cs.drop k).length < (c :: cs).length :=
          Nat.lt_succ_of_le (List.drop_sublist k cs).length_le
        (t :: ·) <$> scan (cs.drop k)
termination_by cs => cs.length

theorem scan_nil : scan [] = pure [] := by
  simp [scan]

/-- The tokens of a text. -/
def tokenize (s : String) : Except SyntaxError (List Token) := scan s.toList

end DnclTrace.Expr
