import LockDiscipline.Guard.Finding
import LockDiscipline.Lock.Resolution
import LockDiscipline.Text.Pieces

/-!
What the attributes of a type's members say: which lock guards a member, and which locks a method
takes or frees for its caller. An annotation that does not resolve becomes a finding, and its member
is left out of the checks.
-/

namespace LockDiscipline

/-- What a method does to a lock on behalf of its caller. -/
inductive LockEffect where
  | acquire
  | release
  deriving DecidableEq, Repr

/-- A member with the lock that guards it. -/
structure GuardedMember where
  member : MemberRef
  required : ResolvedLock
  isStatic : Bool
  deriving DecidableEq, Repr

/-- A method with one lock that it takes or frees. -/
structure LockBinding where
  method : MemberRef
  lock : ResolvedLock
  effect : LockEffect
  deriving DecidableEq, Repr

namespace Attribute

/-- Whether the last part of the attribute's dotted name is one of `names`. -/
def isNamed (a : Attribute) (names : List String) : Bool :=
  names.contains (Text.lastPiece '.' a.name)

/-- Whether the attribute names the lock that guards its member. -/
def isGuard (a : Attribute) : Bool :=
  a.isNamed ["GuardedBy", "Guard"]

/-- What the attribute says its method does to the locks it lists. -/
def lockEffect? (a : Attribute) : Option LockEffect :=
  if a.isNamed ["AcquireLock", "LockMethod"] then some .acquire
  else if a.isNamed ["ReleaseLock", "UnlockMethod"] then some .release
  else none

/-- The lock texts of an attribute: its arguments, each of which may list several with commas. -/
def lockTexts (a : Attribute) : List String :=
  (a.args.flatMap (Text.pieces ',')).map Text.trim

end Attribute

/-- The finding for a lock text that does not resolve at `member`. -/
def ResolutionError.finding (text : String) (member : MemberRef) (span : Option Span)
    (e : ResolutionError) : Finding :=
  match e with
  | .malformed reason =>
    { kind := .malformedLock, message := s!"unresolvable lock expression '{text}'", span
      owner := member.owner, member := some member.name, note := some reason.message }
  | .unresolvable reason =>
    { kind := .unresolvableLock, message := s!"unresolvable lock expression '{text}'", span
      owner := member.owner, member := some member.name, note := some reason.message }
  | .needsInstance =>
    { kind := .staticMismatch, message := s!"static member guarded by instance lock '{text}'", span
      owner := member.owner, member := some member.name
      note := some s!"`{member.render}` is static but the lock needs an instance" }

/-- The finding for a guard that lists no lock or several. -/
def Finding.notOneLock (texts : List String) (member : MemberRef) (span : Option Span) : Finding :=
  { kind := .malformedLock
    message := "unresolvable lock expression '" ++ Text.join ", " texts ++ "'"
    span, owner := member.owner, member := some member.name
    note := some "a guard names exactly one lock" }

namespace TypeTable

/-- The guard of a member with the given attributes: the lock of its first guard attribute, or the
finding that there is none. A member without a guard attribute gives nothing. -/
def guardOf (t : TypeTable) (scope : DeclScope) (member : MemberRef) (attributes : List Attribute)
    (memberSpan : Option Span) : Option (Except Finding GuardedMember) :=
  (attributes.find? (·.isGuard)).map fun a =>
    let span := a.span.or memberSpan
    match a.lockTexts with
    | [text] =>
      match t.resolve scope text with
      | .ok required => .ok ⟨member, required, scope.isStatic⟩
      | .error e => .error (e.finding text member span)
    | texts => .error (.notOneLock texts member span)

/-- The guard of a field. -/
def fieldGuard (t : TypeTable) (owner : String) (f : FieldDecl) :
    Option (Except Finding GuardedMember) :=
  t.guardOf ⟨owner, [], f.isStatic⟩ (.field owner f.name) f.attributes f.span

/-- The guard of a method. -/
def methodGuard (t : TypeTable) (owner : String) (m : MethodDecl) :
    Option (Except Finding GuardedMember) :=
  t.guardOf ⟨owner, m.parameters, m.isStatic⟩ (.method owner m) m.attributes m.span

/-- The guards of the members of `owner`, fields before methods, in the order of declaration. -/
def guards (t : TypeTable) (owner : String) : List (Except Finding GuardedMember) :=
  match t.typeDecl? owner with
  | none => []
  | some d => d.fields.filterMap (t.fieldGuard owner) ++ d.methods.filterMap (t.methodGuard owner)

/-- The guard of a member; of several members of one name and arity, the last guarded one counts. -/
def guarded? (t : TypeTable) (member : MemberRef) : Option GuardedMember :=
  ((t.guards member.owner).filterMap Except.toOption).reverse.find? fun g => g.member = member

/-- The findings about the guards of `owner`. -/
def guardFindings (t : TypeTable) (owner : String) : List Finding :=
  (t.guards owner).filterMap fun
    | .error finding => some finding
    | .ok _ => none

/-- The locks that a method of `owner` takes and frees, as its attributes list them. -/
def methodEffects (t : TypeTable) (owner : String) (m : MethodDecl) :
    List (Except Finding LockBinding) :=
  m.attributes.flatMap fun a =>
    match a.lockEffect? with
    | none => []
    | some effect => a.lockTexts.map fun text =>
      match t.resolve ⟨owner, m.parameters, m.isStatic⟩ text with
      | .ok lock => .ok ⟨.method owner m, lock, effect⟩
      | .error e => .error (e.finding text (.method owner m) (a.span.or m.span))

/-- The locks that the methods of `owner` take and free, in the order of declaration. -/
def effects (t : TypeTable) (owner : String) : List (Except Finding LockBinding) :=
  match t.typeDecl? owner with
  | none => []
  | some d => d.methods.flatMap (t.methodEffects owner)

/-- The locks that the methods with the name and arity of `method` take and free, in order. -/
def bindings (t : TypeTable) (method : MemberRef) : List LockBinding :=
  ((t.effects method.owner).filterMap Except.toOption).filter fun b => b.method = method

/-- The findings about the lock effects of the methods of `owner`. -/
def effectFindings (t : TypeTable) (owner : String) : List Finding :=
  (t.effects owner).filterMap fun
    | .error finding => some finding
    | .ok _ => none

end TypeTable

end LockDiscipline
