import LockDiscipline.Span

/-!
Diagnostics as the host compiler takes them.
-/

namespace LockDiscipline

/-- How serious a diagnostic is. -/
inductive Severity where
  | error
  | warning
  | note
  deriving DecidableEq, Repr

/-- The severity as it is printed. -/
def Severity.render : Severity → String
  | .error => "error"
  | .warning => "warning"
  | .note => "note"

/-- The code by which a diagnostic is known, and the category it belongs to. -/
structure DiagnosticCode where
  code : String
  category : Option String
  deriving DecidableEq, Repr

/-- A message about a place in the source. -/
structure Diagnostic where
  severity : Severity
  code : Option DiagnosticCode
  message : String
  span : Option Span
  notes : List String
  deriving DecidableEq, Repr

/-- The diagnostic in one line, without its notes. -/
def Diagnostic.render (d : Diagnostic) : String :=
  let code := match d.code with
    | some c => c.code
    | none => "UNKNOWN"
  let span := match d.span with
    | some s => " @ " ++ s.render
    | none => ""
  d.severity.render ++ "[" ++ code ++ "]: " ++ d.message ++ span

end LockDiscipline
