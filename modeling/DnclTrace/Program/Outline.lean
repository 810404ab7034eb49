import DnclTrace.Program.Tree

/-!
# Outlines of the statement tree

`Stmt.walk` lists the statements of a tree in reading order: each statement, then its
body, then its else body. Listing them runs on the call stack, one call deeper for each
level of bodies (`Stmt.walkCalls`). The outline text has one line per statement in that order:
two spaces per level of nesting, the line number right-aligned in three columns, `: `
and the statement; before the first statement of a non-empty else body stands the
parent's indentation, five spaces and `else:`. `kindCounts` counts the statements of
each kind, kinds in the order they are first met.
-/

namespace DnclTrace

namespace Stmt

mutual

/-- The statements of a list of trees, in reading order. -/
def walk : List Stmt → List Stmt
  | [] => []
  | s :: rest => walkOne s ++ walk rest

/-- The statements of one tree, in reading order. -/
def walkOne : Stmt → List Stmt
  | .single c => [.single c]
  | .loop c body => .loop c body :: walk body
  | .branch c body orElse => .branch c body orElse :: (walk body ++ walkElse orElse)

/-- The statements of an else body. -/
def walkElse : Option (List Stmt) → List Stmt
  | none => []
  | some b => walk b

end

theorem walk_nil : walk [] = [] := by
  simp [walk]

mutual

/-- The calls listing a list of trees in reading order takes above its generator's
frame: each body is listed by a generator one call deeper, and a statement without a
body, or without an else body, is asked for it, which fails three calls deeper. -/
def walkCalls : List Stmt → Nat
  | [] => 0
  | s :: rest => max (walkCallsOne s) (walkCalls rest)

/-- The calls listing one tree takes above the frame of the generator that lists it. -/
def walkCallsOne : Stmt → Nat
  | .single _ => 3
  | .loop _ body => max (walkCalls body + 1) 3
  | .branch _ body orElse => max (walkCalls body + 1) (walkCallsElse orElse + 1)

/-- The calls listing an else body takes; a missing one is listed as empty. -/
def walkCallsElse : Option (List Stmt) → Nat
  | none => 0
  | some b => walkCalls b

end

/-- A line number right-aligned in three columns. -/
def lineColumn (n : Nat) : String :=
  let s := Nat.repr n
  "".pushn ' ' (3 - s.length) ++ s

/-- Two spaces per level of nesting. -/
def pad (depth : Nat) : String := "".pushn ' ' (2 * depth)

mutual

/-- The outline lines of a list of trees at a nesting depth. -/
def outline (depth : Nat) : List Stmt → List String
  | [] => []
  | s :: rest => outlineOne depth s ++ outline depth rest

/-- The outline lines of one tree. -/
def outlineOne (depth : Nat) : Stmt → List String
  | .single c => [pad depth ++ lineColumn c.line ++ ": " ++ c.render]
  | .loop c body => (pad depth ++ lineColumn c.line ++ ": " ++ c.render) :: outline (depth + 1) body
  | .branch c body orElse =>
    (pad depth ++ lineColumn c.line ++ ": " ++ c.render) :: (outline (depth + 1) body ++
      outlineElse depth orElse)

/-- The outline lines of an else body: the `else:` line, then the body, when non-empty. -/
def outlineElse (depth : Nat) : Option (List Stmt) → List String
  | some (s :: rest) => (pad depth ++ "     else:") :: outline (depth + 1) (s :: rest)
  | _ => []

end

/-- The outline text of a program tree. -/
def outlineText (stmts : List Stmt) : String := "\n".intercalate (outline 0 stmts)

/-- Adds one to the count of a kind, appending the kind when it is new. -/
def bump (k : String) : List (String × Nat) → List (String × Nat)
  | [] => [(k, 1)]
  | (k', n) :: rest => if k' = k then (k', n + 1) :: rest else (k', n) :: bump k rest

/-- The number of statements of each kind, kinds in the order first met. -/
def kindCounts (stmts : List Stmt) : List (String × Nat) :=
  (walk stmts).foldl (fun acc s => bump s.head.form.kind.name acc) []

end Stmt

end DnclTrace
