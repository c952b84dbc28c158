import LockDiscipline.Lint.Allowance
import LockDiscipline.Lint.Config
import LockDiscipline.Report.Diagnostic

/-!
What checks report: diagnostics under a rule, at the level that suppressions and settings give it.
-/

namespace LockDiscipline

/-- Advice on how to get rid of a diagnostic. -/
structure Suggestion where
  message : String
  span : Option Span
  deriving DecidableEq, Repr

/-- A diagnostic under a rule. -/
structure LintDiagnostic where
  rule : Rule
  level : Level
  message : String
  file : String
  span : Option Span
  notes : List String
  suggestions : List Suggestion
  deriving DecidableEq, Repr

namespace LintDiagnostic

/-- The diagnostic in one line, without its notes. -/
def render (d : LintDiagnostic) : String :=
  let span := match d.span with
    | some s => ":" ++ s.render
    | none => ""
  d.level.render ++ " [" ++ d.rule.name ++ "] " ++ d.file ++ span ++ ": " ++ d.message

/-- The diagnostic for the host: it carries the rule's code, and advice becomes notes. -/
def toDiagnostic (d : LintDiagnostic) : Diagnostic :=
  { severity := if d.level = .error then .error else .warning
    code := some ⟨d.rule.code, some d.rule.category.render⟩
    message := d.message
    span := d.span
    notes := d.notes ++ d.suggestions.map fun s => "help: " ++ s.message }

end LintDiagnostic

/-- What a check is run on. -/
structure LintContext where
  unit : CompilationUnit
  config : LintConfig

namespace LintContext

/-- The level at which findings of `rule` are reported where `allowance` holds. -/
def level (cx : LintContext) (rule : Rule) (allowance : Allowance) : Level :=
  if allowance.allows rule.category rule.name then .allow
  else cx.config.levelFor rule.name rule.category rule.defaultLevel

/-- The diagnostic for a finding of `rule`, unless the finding is allowed. -/
def emit? (cx : LintContext) (rule : Rule) (allowance : Allowance) (message : String)
    (span : Option Span) (notes : List String) (suggestions : List Suggestion) :
    Option LintDiagnostic :=
  match cx.level rule allowance with
  | .allow => none
  | level => some { rule, level, message, file := cx.unit.path, span, notes, suggestions }

end LintContext

end LockDiscipline
