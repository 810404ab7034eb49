/-!
# Operator spellings

Pseudocode may write operators in full-width forms, with mathematical signs or with
Japanese words. `normalize` turns them into the canonical ASCII operators: first
each full-width digit, bracket, operator sign and the ideographic space becomes its
ASCII form, one character at a time; then each multi-character spelling is replaced,
in the order of `wordSpellings`, everywhere it occurs, inside names too.
-/

namespace DnclTrace.Expr

/-- The ASCII form of a full-width character, if it has one. -/
def narrowChar (c : Char) : Char :=
  match c with
  | '０' => '0' | '１' => '1' | '２' => '2' | '３' => '3' | '４' => '4'
  | '５' => '5' | '６' => '6' | '７' => '7' | '８' => '8' | '９' => '9'
  | '（' => '(' | '）' => ')' | '［' => '[' | '］' => ']'
  | '＋' => '+' | '－' => '-' | '−' => '-' | '×' => '*' | '＊' => '*'
  | '／' => '/' | '％' => '%' | '＝' => '=' | '＞' => '>' | '＜' => '<'
  | '　' => ' '
  | c => c

/-- The spellings replaced after narrowing, in order, with their canonical forms. -/
def wordSpellings : List (String × String) :=
  [("≧", " >= "), ("≥", " >= "), ("≦", " <= "), ("≤", " <= "), ("≠", " != "),
   ("÷", " // "), ("かつ", " && "), ("または", " || "), ("でない", " ¬ ")]

/-- Replaces every occurrence of `pat` in `s` by `rep`, scanning left to right and
never inside a replacement. -/
def replaceAll (pat rep : List Char) : List Char → List Char
  | [] => []
  | c :: cs =>
    if _h : pat ≠ [] ∧ pat.isPrefixOf (c :: cs) then
      rep ++ replaceAll pat rep ((c :: cs).drop pat.length)
    else c :: replaceAll pat rep cs
termination_by s => s.length
decreasing_by
  all_goals simp_wf
  · have : 0 < pat.length := List.length_pos_iff.mpr _h.1
    omega

theorem replaceAll_nil_source (pat rep : List Char) : replaceAll pat rep [] = [] := by
  simp [replaceAll]

/-- The text with every operator spelling made canonical. -/
def normalize (s : String) : String :=
  let narrowed := s.toList.map narrowChar
  String.ofList <| wordSpellings.foldl
    (fun acc sp => replaceAll sp.1.toList sp.2.toList acc) narrowed

end DnclTrace.Expr
