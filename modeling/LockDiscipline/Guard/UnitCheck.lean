import LockDiscipline.Body.Walk

/-!
Guarded accesses made without their lock. Each method body is walked on its own, from the lock that
guards the method itself; at each access of a guarded member the lock of its guard, seen from there,
must be held.
-/

namespace LockDiscipline

/-- The finding for an access of `guarded` inside a method, made while `required` is not held. -/
def Finding.notHeld (owner method : String) (guarded : GuardedMember) (required : LockPath)
    (span : Option Span) : Finding :=
  { kind := .violation
    message := guarded.member.render ++ " is guarded by '" ++ guarded.required.text ++
      "' but no matching lock is held"
    span, owner, member := some method
    note := some s!"expected `{required.render}` to be held" }

/-- Whether an access in the body of `m` reaches the object that a constructor is making, which no
other thread can see yet. -/
def Access.isOnNewObject (m : MethodDecl) (access : Access) : Bool :=
  m.isConstructor && !access.isStatic && access.receiver = some .this

namespace TypeTable

/-- The locks held where the body of `m` starts: a guarded method is called with its lock held. -/
def entryState (t : TypeTable) (owner : String) (m : MethodDecl) : HeldSet :=
  match t.guarded? (.method owner m) with
  | none => ∅
  | some guarded =>
    match guarded.required.path.instantiate (some .this)
      (m.parameters.map fun p => some (.var p.name)) with
    | none => ∅
    | some lock => OrderedSet.insert ∅ lock

/-- The finding for an access in the body of `m`, if the accessed member is guarded and its lock is
not held. A guard whose lock has no path at the access is not checked. -/
def violation? (t : TypeTable) (owner : String) (m : MethodDecl) (access : Access)
    (held : HeldSet) : Option Finding := do
  let guarded ← t.guarded? access.member
  if access.isOnNewObject m then none
  let required ← guarded.required.path.instantiate access.receiver access.args
  if required ∈ held then none
  return .notHeld owner m.name guarded required access.span

/-- What a walk over the unit's bodies knows. -/
def walkContext (t : TypeTable) (api : LockApi) : WalkContext := ⟨api, t.bindings⟩

/-- The findings inside the body of `m`, a method of `owner`. -/
def checkMethod (t : TypeTable) (api : LockApi) (owner : String) (m : MethodDecl) : List Finding :=
  match m.body with
  | none => []
  | some body =>
    let o := (t.walkContext api).walk (.ofMethod t owner m) body (t.entryState owner m)
    o.trace.accesses.filterMap fun a => t.violation? owner m a.1 a.2

/-- The findings about a type: those about its annotations, then those inside its methods. -/
def checkType (t : TypeTable) (api : LockApi) (d : TypeDecl) : List Finding :=
  t.guardFindings d.name ++ t.effectFindings d.name ++ d.methods.flatMap (t.checkMethod api d.name)

/-- The findings about the types of the table, in its order. -/
def check (t : TypeTable) (api : LockApi) : List Finding :=
  t.types.flatMap (t.checkType api)

end TypeTable

end LockDiscipline
