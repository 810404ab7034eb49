import DnclTrace.Program.Tree

/-!
# How deep writing a report goes

Reporting an expression writes its tree out twice, both times on the call stack below
the report: first as a record that nests like the tree, then as text. A tree too tall
for either stops the report with `Fault.tooDeep`.

The record stops at a built-in call once the tree has `recordHeightLimit` levels; this
limit is measured where reports of single expressions and lines are written.

The text of a node is written by the node's own procedure. A number asks for the text
of its value one call deeper. Every operand is written through a built-in call, a
request for its text and the operand's own procedure, each one call deeper than the
one before, so the text takes three calls per level. The first of these steps that
would pass `callLimit`, in the order the text is written (an operand on the left
before one on the right), names the kind of the failure.

A statement reports its expressions in the order its fields are written, and the
statements of a body are reported two calls deeper than the statement that holds
them.
-/

namespace DnclTrace

namespace Expr

/-- The steps that write one operand before its own procedure runs, when the node
writing it runs `depth` calls deep: a built-in call, a request for the operand's text
and entering the operand's procedure. The first that passes `callLimit`, if any. -/
def operandEntry (depth : Nat) : Option Overrun :=
  if callLimit < depth + 1 then some .builtin
  else if callLimit < depth + 2 then some .text
  else if callLimit < depth + 3 then some .enter
  else none

/-- The first step past `callLimit` in writing a tree as text when its procedure runs
`depth` calls deep; `none` when the text fits. -/
def textOverrun (depth : Nat) : Expr → Option Overrun
  | .num _ => if callLimit < depth + 1 then some .text else none
  | .var _ => none
  | .index _ p =>
    match operandEntry depth with
    | some o => some o
    | none => textOverrun (depth + 3) p
  | .unary _ e =>
    match operandEntry depth with
    | some o => some o
    | none => textOverrun (depth + 3) e
  | .binary _ l r =>
    match operandEntry depth with
    | some o => some o
    | none =>
      match textOverrun (depth + 3) l with
      | some o => some o
      | none =>
        match operandEntry depth with
        | some o => some o
        | none => textOverrun (depth + 3) r

theorem textOverrun_var (depth : Nat) (n : String) : textOverrun depth (.var n) = none := by
  simp [textOverrun]

/-- The first step past `callLimit` in writing a tree as text when the text is asked
for `depth` calls deep: the request, the root's procedure, then the tree. -/
def textOverrunFrom (depth : Nat) (t : Expr) : Option Overrun :=
  if callLimit < depth + 1 then some .text
  else if callLimit < depth + 2 then some .enter
  else t.textOverrun (depth + 2)

/-- Trees of this many levels or more cannot be written as a record. -/
def recordHeightLimit : Nat := 750

/-- The step that stops writing a tree as a record, if any. -/
def recordOverrun (t : Expr) : Option Overrun :=
  if recordHeightLimit ≤ t.height then some .builtin else none

end Expr

namespace SourceExpr

/-- Whether a written expression can be reported `depth` calls deep: its record, then
its text. An expression without a tree reports only its error, which always fits. -/
def writable (depth : Nat) (e : SourceExpr) : Except Fault Unit :=
  match e.tree with
  | .error _ => pure ()
  | .ok t =>
    match t.recordOverrun with
    | some o => throw (.tooDeep o)
    | none =>
      match t.textOverrunFrom depth with
      | some o => throw (.tooDeep o)
      | none => pure ()

theorem writable_error (depth : Nat) (source : String) (err : Expr.SyntaxError) :
    writable depth ⟨source, .error err⟩ = pure () := by
  simp [writable]

end SourceExpr

/-- Whether every expression of a classified line can be reported `depth` calls
deep, in the order the line's fields are written. -/
def Classified.writable (depth : Nat) (c : Classified) : Except Fault Unit :=
  c.form.operands.forM (SourceExpr.writable depth)

namespace Stmt

mutual

/-- Whether a list of statements can be reported `depth` calls deep. -/
def writable (depth : Nat) : List Stmt → Except Fault Unit
  | [] => pure ()
  | s :: rest => do
    writableOne depth s
    writable depth rest

/-- Whether one statement can be reported: its line, then its bodies two calls deeper. -/
def writableOne (depth : Nat) : Stmt → Except Fault Unit
  | .single c => c.writable depth
  | .loop c body => do
    c.writable depth
    writable (depth + 2) body
  | .branch c body orElse => do
    c.writable depth
    writable (depth + 2) body
    writableElse (depth + 2) orElse

/-- Whether an else body can be reported. -/
def writableElse (depth : Nat) : Option (List Stmt) → Except Fault Unit
  | none => pure ()
  | some b => writable depth b

end

end Stmt

end DnclTrace
