import DnclTrace.Value.Text
import DnclTrace.Text.Printable

/-!
# JSON documents

The machine-readable reports are JSON documents written with an indent of two spaces:
every member of a non-empty array or object stands on its own line, one level deeper
than its brackets, members are separated by `,` at the end of a line, and an object
member is `"key": value`. Empty containers are written `[]` and `{}` in place.

Objects keep their fields in the order given, because that order is part of what a
report shows (variables appear in the order they were first set). Strings escape `"`,
the backslash and the control characters; in ASCII mode every character outside
printable ASCII is written as `\uXXXX` (two of them, a surrogate pair, above the
basic plane). Reals use the standard notation with `Infinity` and `NaN`; integers are
decimal, which faults past `digitLimit` digits as any integer text does.
-/

namespace DnclTrace

/-- A JSON document; object fields in order. -/
inductive JsonValue where
  | null
  | bool (b : Bool)
  | int (n : Int)
  | real (x : Float)
  | str (s : String)
  | arr (items : List JsonValue)
  | obj (fields : List (String × JsonValue))

namespace JsonValue

/-- The escape `\uXXXX` of a code unit, in lower-case hex. -/
def unitEscape (n : Nat) : String := String.ofList ('\\' :: 'u' :: Text.hexDigits 4 n)

/-- The text standing for one character inside a string; `ascii` escapes everything
outside printable ASCII. -/
def escapeChar (ascii : Bool) (c : Char) : String :=
  if c = '"' then "\\\""
  else if c = '\\' then "\\\\"
  else if c = '\n' then "\\n"
  else if c = '\r' then "\\r"
  else if c = '\t' then "\\t"
  else if c.toNat = 8 then "\\b"
  else if c.toNat = 12 then "\\f"
  else if c.toNat < 32 then unitEscape c.toNat
  else if ascii && 126 < c.toNat then
    if c.toNat < 0x10000 then unitEscape c.toNat
    else
      let v := c.toNat - 0x10000
      unitEscape (0xD800 + v / 0x400) ++ unitEscape (0xDC00 + v % 0x400)
  else c.toString

/-- A string in double quotes, escaped. -/
def quote (ascii : Bool) (s : String) : String :=
  "\"" ++ String.join (s.toList.map (escapeChar ascii)) ++ "\""

/-- The indentation of a nesting level. -/
def indentAt (level : Nat) : String := "".pushn ' ' (2 * level)

mutual

/-- The text of a document whose first line is at nesting `level`. -/
def write (ascii : Bool) (level : Nat) : JsonValue → Except Fault String
  | .null => pure "null"
  | .bool b => pure (if b then "true" else "false")
  | .int n => intText n
  | .real x => pure (Binary64.writeIn .json x)
  | .str s => pure (quote ascii s)
  | .arr [] => pure "[]"
  | .arr (x :: xs) => do
    let inner ← writeItems ascii (level + 1) (x :: xs)
    pure ("[\n" ++ inner ++ "\n" ++ indentAt level ++ "]")
  | .obj [] => pure "\x7b\x7d"
  | .obj (f :: fs) => do
    let inner ← writeFields ascii (level + 1) (f :: fs)
    pure ("\x7b\n" ++ inner ++ "\n" ++ indentAt level ++ "\x7d")

/-- The members of an array, one per line at `level`. -/
def writeItems (ascii : Bool) (level : Nat) : List JsonValue → Except Fault String
  | [] => pure ""
  | [x] => do pure (indentAt level ++ (← write ascii level x))
  | x :: y :: rest => do
    let first ← write ascii level x
    let others ← writeItems ascii level (y :: rest)
    pure (indentAt level ++ first ++ ",\n" ++ others)

/-- The fields of an object, one per line at `level`. -/
def writeFields (ascii : Bool) (level : Nat) : List (String × JsonValue) → Except Fault String
  | [] => pure ""
  | [(k, v)] => do pure (indentAt level ++ quote ascii k ++ ": " ++ (← write ascii level v))
  | (k, v) :: f :: rest => do
    let first ← write ascii level v
    let others ← writeFields ascii level (f :: rest)
    pure (indentAt level ++ quote ascii k ++ ": " ++ first ++ ",\n" ++ others)

end

theorem write_empty_arr (ascii : Bool) (level : Nat) : write ascii level (.arr []) = pure "[]" := by
  simp [write]

end JsonValue

end DnclTrace
