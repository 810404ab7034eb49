/-!
# Diagnostics

A diagnostic reports, at a source line, something the reader or the machine could not
do. It is written `<line>行目: <message> (<KIND>)`.
-/

namespace DnclTrace

/-- What a diagnostic reports. -/
inductive DiagnosticKind where
  | unrecognizedLine
  | evaluationFailure
  | undeclaredArray
  | indexOutOfRange
  | strayElse
  | stepBudgetExhausted
  deriving DecidableEq, Repr

/-- The name of a kind of diagnostic, as reports show it. -/
def DiagnosticKind.name : DiagnosticKind → String
  | .unrecognizedLine => "UNRECOGNIZED_LINE"
  | .evaluationFailure => "EVALUATION_FAILURE"
  | .undeclaredArray => "UNDECLARED_ARRAY"
  | .indexOutOfRange => "INDEX_OUT_OF_RANGE"
  | .strayElse => "STRAY_ELSE"
  | .stepBudgetExhausted => "STEP_BUDGET_EXHAUSTED"

/-- A report at a source line. -/
structure Diagnostic where
  line : Nat
  kind : DiagnosticKind
  message : String
  deriving DecidableEq, Repr

/-- The text of a diagnostic. -/
def Diagnostic.render (d : Diagnostic) : String :=
  Nat.repr d.line ++ "行目: " ++ d.message ++ " (" ++ d.kind.name ++ ")"

end DnclTrace
