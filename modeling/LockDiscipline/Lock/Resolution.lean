import LockDiscipline.Lock.Path
import LockDiscipline.Lock.Reader
import LockDiscipline.TypeTable

/-!
What a lock expression means at the declaration that carries it. A first name is looked for among
the parameters of the method, then among the fields in scope, and then among the types; each further
element is looked for on the type of what stands before it. A static member needs no instance, so a
path starts anew at the type that declares it, and a static declaration cannot be guarded by a lock
that needs an instance.
-/

namespace LockDiscipline

/-- The declaration a lock expression stands at. -/
structure DeclScope where
  owner : String
  parameters : List Parameter
  isStatic : Bool

/-- Why an expression names no lock at a declaration. -/
inductive LockLookupError where
  | unknownName (name : String)
  | noMethodInScope (method : String)
  | untypedField (path : LockPath) (member : String)
  | untypedMethod (path : LockPath) (method : String)
  | noField (type member : String)
  | noMethod (type method : String)
  | instanceField (type member : String)
  | instanceMethod (type method : String)
  | bareType
  deriving DecidableEq, Repr

/-- The error in words. -/
def LockLookupError.message : LockLookupError → String
  | .unknownName name => s!"`{name}` is not a parameter, field or type in scope"
  | .noMethodInScope method => s!"no zero-argument method `{method}` in scope"
  | .untypedField path member => s!"cannot look up `{member}` on `{path.render}`"
  | .untypedMethod path method => s!"cannot look up `{method}()` on `{path.render}`"
  | .noField type member => s!"`{type}` has no field `{member}`"
  | .noMethod type method => s!"`{type}` has no zero-argument method `{method}`"
  | .instanceField type member => s!"`{member}` is an instance field of `{type}`"
  | .instanceMethod type method => s!"`{method}()` is an instance method of `{type}`"
  | .bareType => "a type name is not a lock"

/-- Why a text does not resolve to a lock at a declaration. -/
inductive ResolutionError where
  | malformed (reason : LockSyntaxError)
  | unresolvable (reason : LockLookupError)
  | needsInstance
  deriving DecidableEq, Repr

/-- The error about the lock text `text`, in words. -/
def ResolutionError.message (text : String) : ResolutionError → String
  | .malformed reason => s!"malformed lock expression '{text}': {reason.message}"
  | .unresolvable reason => s!"unresolvable lock expression '{text}': {reason.message}"
  | .needsInstance => s!"static member guarded by instance lock '{text}'"

/-- A lock expression with the lock it means. -/
structure ResolvedLock where
  expression : LockExpr
  /-- The annotation as written. -/
  text : String
  path : LockPath
  owner : String
  /-- Whether the lock is reached without an instance of the owner. -/
  isStatic : Bool
  deriving DecidableEq, Repr

/-- A path with the type of what it leads to, where that is known. -/
structure BoundLock where
  path : LockPath
  type : Option String
  deriving DecidableEq, Repr

namespace TypeTable

/-- The path at which a member found by its simple name starts: at its type if it is static, or else
at the instance through which it was found. -/
def implicitOwner {α : Type} (found : Found α) (isStatic : Bool) : LockPath :=
  if isStatic then .static found.owner
  else match found.viaOuter with
    | some outer => .ofRoot (.outer outer)
    | none => .this

/-- What the simple name `id` means at a declaration. -/
def bindName (t : TypeTable) (scope : DeclScope) (id : String) :
    Except LockLookupError BoundLock :=
  match scope.parameters.zipIdx.find? fun p => p.1.name = id with
  | some (p, index) => .ok ⟨.ofRoot (.parameter index id), some p.type⟩
  | none =>
    match t.findFieldInScope scope.owner id with
    | some found =>
      .ok ⟨(implicitOwner found found.decl.isStatic).field id, some found.decl.type⟩
    | none =>
      if t.contains id then .ok ⟨.static id, some id⟩ else .error (.unknownName id)

/-- What the member `id` of `base` means. -/
def bindField (t : TypeTable) (base : BoundLock) (id : String) :
    Except LockLookupError BoundLock := do
  let some type := base.type | .error (.untypedField base.path id)
  let some found := t.findField type id | .error (.noField type id)
  if found.decl.isStatic then
    return ⟨(LockPath.static found.owner).field id, some found.decl.type⟩
  if base.path.isBareStatic then .error (.instanceField type id)
  return ⟨base.path.field id, some found.decl.type⟩

/-- What the call of `method` without arguments on `base` means. -/
def bindCall (t : TypeTable) (base : BoundLock) (method : String) :
    Except LockLookupError BoundLock := do
  let some type := base.type | .error (.untypedMethod base.path method)
  let some found := t.findMethod type method 0 | .error (.noMethod type method)
  if found.decl.isStatic then
    return ⟨(LockPath.static found.owner).call method, found.decl.returnType⟩
  if base.path.isBareStatic then .error (.instanceMethod type method)
  return ⟨base.path.call method, found.decl.returnType⟩

/-- What the expression means at a declaration, be it a lock or a bare type. -/
def bind (t : TypeTable) (scope : DeclScope) : LockExpr → Except LockLookupError BoundLock
  | .this => .ok ⟨.this, some scope.owner⟩
  | .name id => t.bindName scope id
  | .call method =>
    match t.findMethodInScope scope.owner method 0 with
    | some found =>
      .ok ⟨(implicitOwner found found.decl.isStatic).call method, found.decl.returnType⟩
    | none => .error (.noMethodInScope method)
  | .select base id => do t.bindField (← t.bind scope base) id
  | .invoke base method => do t.bindCall (← t.bind scope base) method

/-- Whether a lock at `path`, named at a declaration, needs no instance of the declaring type. -/
def needsNoInstance (scope : DeclScope) (path : LockPath) : Bool :=
  match path.root with
  | .static _ => true
  | .parameter .. => scope.isStatic
  | _ => false

/-- The lock that `text` names at a declaration. -/
def resolve (t : TypeTable) (scope : DeclScope) (text : String) :
    Except ResolutionError ResolvedLock := do
  let expression ← (LockExpr.read text).mapError .malformed
  let bound ← (t.bind scope expression).mapError .unresolvable
  if bound.path.isBareStatic then .error (.unresolvable .bareType)
  let isStatic := needsNoInstance scope bound.path
  if scope.isStatic && !isStatic then .error .needsInstance
  return ⟨expression, text, bound.path, scope.owner, isStatic⟩

end TypeTable

end LockDiscipline
