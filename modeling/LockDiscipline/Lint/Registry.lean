import LockDiscipline.Lint.Diagnostic
import LockDiscipline.Report.Failure
import LockDiscipline.Report.Sink

/-!
Checks by their ids, and the choice of checks, levels and flags that a run makes among them. A
choice is made only of what the registry knows.
-/

namespace LockDiscipline

/-- A check: what it reports on a unit under given settings. -/
structure Check where
  id : String
  run : LintContext → List LintDiagnostic

/-- How a check is made: from the flags, or without them. -/
inductive CheckFactory where
  | withFlags (build : Flags → Check)
  | plain (check : Check)

/-- What a check is registered with: its id, the rules it reports under, and how it is made. -/
structure Registration where
  id : String
  rules : List String
  factories : List CheckFactory

namespace Registration

/-- The first way to make the check from the flags. -/
def fromFlags? (r : Registration) : Option (Flags → Check) :=
  r.factories.findSome? fun
    | .withFlags build => some build
    | .plain _ => none

/-- The first way to make the check without flags. -/
def plain? (r : Registration) : Option Check :=
  r.factories.findSome? fun
    | .plain check => some check
    | .withFlags _ => none

/-- The check, made from the flags if there is a way to, whatever the order of registration. -/
def instantiate? (r : Registration) (flags : Flags) : Option Check :=
  (r.fromFlags?.map fun build => build flags).or r.plain?

end Registration

/-- Why a registration or a choice of checks is refused. -/
inductive RegistryError where
  | registeredTwice (id : String)
  | noConstructor (id : String)
  | reportsUnknownRule (id rule : String)
  | disablesUnknownCheck (id : String)
  | flagOfUnknownCheck (key : String)
  /-- Rules with a level which are not known; the one that is named may be any of them. -/
  | levelsOfUnknownRules (rules : List String)
  deriving DecidableEq, Repr

namespace RegistryError

/-- The error in words, which name the rule that `pick` takes from several. -/
def message (pick : List String → String) : RegistryError → String
  | .registeredTwice id => s!"check `{id}` is registered twice"
  | .noConstructor id => s!"check `{id}` has no constructor"
  | .reportsUnknownRule id rule => s!"check `{id}` reports unknown rule `{rule}`"
  | .disablesUnknownCheck id => s!"cannot disable unknown check `{id}`"
  | .flagOfUnknownCheck key => s!"flag `{key}` does not belong to a known check"
  | .levelsOfUnknownRules rules => s!"level set for unknown rule `{pick rules}`"

/-- The error as a failure. -/
def toFailure (pick : List String → String) (e : RegistryError) : Failure :=
  .registry (e.message pick)

end RegistryError

/-- Checks by id. -/
structure CheckRegistry where
  entries : OrderedMap String Registration

namespace CheckRegistry

/-- The registry without checks. -/
def empty : CheckRegistry := ⟨∅⟩

/-- Adds a check under a new id; it can be made, and reports only under known rules. -/
def register (registry : CheckRegistry) (r : Registration) :
    Except RegistryError CheckRegistry := do
  if registry.entries.contains r.id then .error (.registeredTwice r.id)
  if r.factories.isEmpty then .error (.noConstructor r.id)
  match r.rules.find? fun rule => (Rule.find? rule).isNone with
  | some rule => .error (.reportsUnknownRule r.id rule)
  | none => return ⟨registry.entries.insert r.id r⟩

/-- Whether a check has the id. -/
def contains (registry : CheckRegistry) (id : String) : Bool := registry.entries.contains id

/-- The ids in ascending order. -/
def ids (registry : CheckRegistry) : List String := registry.entries.keys

/-- Whether a check was registered with the rule, spelled exactly so. -/
def knowsRule (registry : CheckRegistry) (rule : String) : Bool :=
  registry.entries.toList.any fun entry => entry.2.rules.contains rule

end CheckRegistry

/-- A choice of checks, levels and flags. -/
structure ScannerConfig where
  levels : LintConfig
  disabled : OrderedSet String
  flags : Flags
  deriving DecidableEq

namespace ScannerConfig

/-- Every check on, at the default levels. -/
def default : ScannerConfig := ⟨.default, ∅, ∅⟩

instance : Inhabited ScannerConfig := ⟨default⟩

/-- Refuses a choice that names a check or rule which the registry does not know. -/
def validate (registry : CheckRegistry) (c : ScannerConfig) : Except RegistryError Unit := do
  if let some id := c.disabled.toList.find? fun id => !registry.contains id then
    .error (.disablesUnknownCheck id)
  if let some key := c.flags.keys.find? fun key =>
      !registry.contains (Text.firstPiece '.' key) then
    .error (.flagOfUnknownCheck key)
  let unknown := c.levels.configuredRules.filter fun rule => !registry.knowsRule rule
  if !unknown.isEmpty then .error (.levelsOfUnknownRules unknown)

/-- The choice, if the registry knows all that it names. -/
def validated (registry : CheckRegistry) (c : ScannerConfig) :
    Except RegistryError ScannerConfig := do
  c.validate registry
  return c

/-- The choice that settings make. -/
def ofLintConfig (registry : CheckRegistry) (c : LintConfig) :
    Except RegistryError ScannerConfig :=
  validated registry ⟨c, c.disabled, c.flags⟩

/-- The choice with one more check switched off. -/
def withDisabled (registry : CheckRegistry) (c : ScannerConfig) (id : String) :
    Except RegistryError ScannerConfig :=
  validated registry { c with disabled := c.disabled.insert (canonicalName id) }

/-- The choice with one flag set. -/
def withFlag (registry : CheckRegistry) (c : ScannerConfig) (key value : String) :
    Except RegistryError ScannerConfig :=
  validated registry { c with flags := c.flags.insert key value }

/-- Whether the check is not switched off. -/
def isEnabled (c : ScannerConfig) (id : String) : Bool := id ∉ c.disabled

end ScannerConfig

/-- The checks of a choice, made and ready to run. -/
structure Scanner where
  checks : List Check
  config : ScannerConfig

namespace Scanner

/-- Makes the checks that are not switched off, by ascending id. -/
def ofConfig (registry : CheckRegistry) (c : ScannerConfig) : Except RegistryError Scanner := do
  c.validate registry
  let enabled := registry.entries.toList.filter fun entry => c.isEnabled entry.1
  let checks ← enabled.mapM fun entry =>
    match entry.2.instantiate? c.flags with
    | some check => .ok check
    | none => .error (.noConstructor entry.1)
  return ⟨checks, c⟩

/-- What the checks report on a unit, check after check. -/
def scan (s : Scanner) (unit : CompilationUnit) : List LintDiagnostic :=
  s.checks.flatMap fun check => check.run ⟨unit, s.config.levels⟩

/-- Pushes what the checks report on a unit into a sink. -/
def scanInto (s : Scanner) (hash : HashFunction) (unit : CompilationUnit) (sink : DiagnosticSink) :
    DiagnosticSink :=
  (s.scan unit).foldl (fun sink d => sink.push hash d.toDiagnostic) sink

end Scanner

end LockDiscipline
