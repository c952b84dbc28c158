import LockDiscipline.Guard.UnitCheck
import LockDiscipline.Lint.Registry

/-!
The check that guarded members are accessed with their lock held, as it is registered.
-/

namespace LockDiscipline

namespace GuardedBy

/-- The id of the check. -/
def id : String := "guarded_by"

/-- The rules under which the check reports. -/
def rules : List String := ["guarded_by", "static_guard_mismatch", "unresolvable_guard"]

/-- The lock methods that the flags name; a missing flag leaves the default. -/
def lockApi (flags : Flags) : LockApi :=
  let base : LockApi := {}
  { lockTypes := (flags.getList? "guarded_by.lock_types").getD base.lockTypes
    acquireMethods := (flags.getList? "guarded_by.acquire_methods").getD base.acquireMethods
    releaseMethods := (flags.getList? "guarded_by.release_methods").getD base.releaseMethods }

/-- The rule a finding is reported under. -/
def ruleOf : FindingKind → Rule
  | .violation => .guardedBy
  | .staticMismatch => .staticGuardMismatch
  | .malformedLock => .unresolvableGuard
  | .unresolvableLock => .unresolvableGuard

/-- The attributes of the member that a finding is in: the first field of that name, or else the
first method. -/
def memberAttributes (d : TypeDecl) (member : String) : List Attribute :=
  match d.fields.find? fun f => f.name = member with
  | some f => f.attributes
  | none =>
    match d.methods.find? fun m => m.name = member with
    | some m => m.attributes
    | none => []

/-- What is allowed where a finding is: on its type, on the types around it, and on its member. -/
def allowanceFor (t : TypeTable) (finding : Finding) : Allowance :=
  match t.typeDecl? finding.owner with
  | none => {}
  | some d =>
    let outer := (t.outerTypes finding.owner).filterMap t.typeDecl?
    let onTypes := ((d :: outer).map fun d => Allowance.ofAttributes d.attributes).foldl .merge {}
    match finding.member with
    | none => onTypes
    | some member => onTypes.merge (.ofAttributes (memberAttributes d member))

/-- The advice on a guarded access without its lock. -/
def advice (finding : Finding) : List Suggestion :=
  match finding.kind with
  | .violation =>
    let declaration := finding.member.getD finding.owner
    [{ message := s!"acquire the lock first, or annotate `{declaration}` with " ++
        "`@allow(guarded_by)`"
       span := finding.span }]
  | _ => []

/-- The diagnostic for a finding, unless it is allowed. -/
def diagnose? (cx : LintContext) (t : TypeTable) (finding : Finding) : Option LintDiagnostic :=
  cx.emit? (ruleOf finding.kind) (allowanceFor t finding) finding.message finding.span
    finding.note.toList (advice finding)

/-- The check with the given lock methods. -/
def check (api : LockApi) : Check where
  id := id
  run cx :=
    let t := TypeTable.ofUnit cx.unit
    (t.check api).filterMap (diagnose? cx t)

/-- The check as it is registered: it is made from the flags if there are any. -/
def registration : Registration :=
  { id, rules, factories := [.withFlags fun flags => check (lockApi flags), .plain (check {})] }

end GuardedBy

namespace CheckRegistry

/-- The registry of the checks of this library. -/
def builtin : CheckRegistry := ⟨.ofList [(GuardedBy.id, GuardedBy.registration)]⟩

end CheckRegistry

end LockDiscipline
