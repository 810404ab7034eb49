/-!
# Line patterns

A pattern is a list of items matched from the start of a text. Items are single
characters of a class, repetitions of a class with a least and a most count, a choice
of words, marks that record positions, and the end of the line (the end of the text,
or just before a final line feed).

Matching tries the alternatives in a fixed order and takes the first that lets the
rest of the pattern match: an eager repetition tries its longest run first, a lazy one
its shortest, and a choice of words its words in order. Marks are kept as the number of
characters left, so two marks cut out the text between them.
-/

namespace DnclTrace.Pattern

/-- One step of a pattern. -/
inductive Item where
  /-- One character of the class. -/
  | char (p : Char → Bool)
  /-- Between `least` and `most` (unbounded when `none`) characters of the class;
  longest first when `eager`, shortest first otherwise. -/
  | many (p : Char → Bool) (least : Nat) (most : Option Nat) (eager : Bool)
  /-- One of these words, tried in order. -/
  | oneOf (words : List (List Char))
  /-- Records the position under this slot. -/
  | mark (slot : Nat)
  /-- The end of the text, or a final line feed. -/
  | lineEnd

/-- Recorded positions: a slot and the number of characters left there. -/
abbrev Marks := List (Nat × Nat)

/-- The counts a repetition tries, in order, when `avail` characters of its class
follow. -/
def repeatCounts (least : Nat) (most : Option Nat) (eager : Bool) (avail : Nat) : List Nat :=
  let top := match most with
    | some m => min m avail
    | none => avail
  let counts := (List.range (top + 1 - least)).map (· + least)
  if eager then counts.reverse else counts

/-- Matches the items against a prefix of the text; the marks of the first match. -/
def run : List Item → List Char → Marks → Option Marks
  | [], _, m => some m
  | .char p :: ps, cs, m =>
    match cs with
    | c :: rest => if p c then run ps rest m else none
    | [] => none
  | .many p least most eager :: ps, cs, m =>
    (repeatCounts least most eager (cs.takeWhile p).length).findSome? fun k =>
      run ps (cs.drop k) m
  | .oneOf ws :: ps, cs, m =>
    ws.findSome? fun w => if w.isPrefixOf cs then run ps (cs.drop w.length) m else none
  | .mark i :: ps, cs, m => run ps cs ((i, cs.length) :: m)
  | .lineEnd :: ps, cs, m => if cs = [] ∨ cs = ['\n'] then run ps cs m else none

theorem run_nil (cs : List Char) (m : Marks) : run [] cs m = some m := by
  simp [run]

theorem run_mark (i : Nat) (ps : List Item) (cs : List Char) (m : Marks) :
    run (.mark i :: ps) cs m = run ps cs ((i, cs.length) :: m) := by
  simp [run]

/-- The marks of the first match of a pattern at the start of a text. -/
def matchStart (ps : List Item) (cs : List Char) : Option Marks := run ps cs []

/-- The text between the marks `2 * g` and `2 * g + 1` of a match on `cs`. -/
def group (cs : List Char) (m : Marks) (g : Nat) : List Char :=
  let start := (m.lookup (2 * g)).getD 0
  let stop := (m.lookup (2 * g + 1)).getD 0
  (cs.drop (cs.length - start)).take (start - stop)

/-- The number of characters before the mark `slot`. -/
def offset (cs : List Char) (m : Marks) (slot : Nat) : Nat :=
  cs.length - (m.lookup slot).getD 0

/-! ## Building blocks -/

/-- The character `c`. -/
def lit (c : Char) : Item := .char (· == c)

/-- The characters of a word, in order. -/
def word (s : String) : List Item := s.toList.map lit

/-- A capture: the items between the marks of group `g`. -/
def capture (g : Nat) (items : List Item) : List Item := .mark (2 * g) :: items ++ [.mark (2 * g + 1)]

end DnclTrace.Pattern
