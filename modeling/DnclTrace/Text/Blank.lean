/-!
# Blank characters, trimming and line breaks

The blank characters are the Unicode 14 whitespace characters together with the four
information separators `0x1C`–`0x1F`: 29 code points. Trimming removes blanks from
both ends of a text.

A line ends at a line feed, a carriage return, the pair carriage return and line feed,
a vertical tab, a form feed, the separators `0x1C`–`0x1E`, the next-line character or
the Unicode line and paragraph separators. `splitLines` cuts a text into lines without
their ends; a final line end opens no further line.
-/

namespace DnclTrace.Text

/-- The code points of the blank characters. -/
def blankCodes : List Nat :=
  [0x9, 0xA, 0xB, 0xC, 0xD, 0x1C, 0x1D, 0x1E, 0x1F, 0x20, 0x85, 0xA0, 0x1680,
   0x2000, 0x2001, 0x2002, 0x2003, 0x2004, 0x2005, 0x2006, 0x2007, 0x2008, 0x2009, 0x200A,
   0x2028, 0x2029, 0x202F, 0x205F, 0x3000]

/-- The character is blank. -/
def isBlank (c : Char) : Bool := blankCodes.contains c.toNat

/-- Every character that core counts as whitespace is blank. -/
theorem isBlank_of_isWhitespace (c : Char) (h : c.isWhitespace = true) : isBlank c = true := by
  simp only [Char.isWhitespace, Bool.or_eq_true, decide_eq_true_eq] at h
  rcases h with ((h | h) | h) | h <;> subst h <;> decide

example : blankCodes.length = 29 := rfl

/-- The text without its leading blanks. -/
def trimStart (cs : List Char) : List Char := cs.dropWhile isBlank

/-- The text without its trailing blanks. -/
def trimEnd (cs : List Char) : List Char := (cs.reverse.dropWhile isBlank).reverse

/-- The text without blanks at either end. -/
def trim (cs : List Char) : List Char := trimEnd (trimStart cs)

/-- `trim` on strings. -/
def trimText (s : String) : String := String.ofList (trim s.toList)

/-- `trimEnd` on strings. -/
def trimEndText (s : String) : String := String.ofList (trimEnd s.toList)

/-- The character ends a line. -/
def isLineBreak (c : Char) : Bool :=
  [0xA, 0xB, 0xC, 0xD, 0x1C, 0x1D, 0x1E, 0x85, 0x2028, 0x2029].contains c.toNat

/-- Lines of `cs` after the current line `cur` (kept reversed). -/
def splitLinesFrom : List Char → List Char → List (List Char)
  | [], cur => if cur.isEmpty then [] else [cur.reverse]
  | '\r' :: '\n' :: rest, cur => cur.reverse :: splitLinesFrom rest []
  | c :: rest, cur =>
    if isLineBreak c then cur.reverse :: splitLinesFrom rest [] else splitLinesFrom rest (c :: cur)

/-- The lines of a text, without their ends. -/
def splitLines (cs : List Char) : List (List Char) := splitLinesFrom cs []

theorem splitLines_nil : splitLines [] = [] := rfl

end DnclTrace.Text
