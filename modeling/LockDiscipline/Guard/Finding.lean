import LockDiscipline.Span
import LockDiscipline.Syntax.Decl

/-!
Members as findings name them, and the findings themselves.
-/

namespace LockDiscipline

/-- A field, or a method with its number of parameters, by declaring type and name. -/
structure MemberRef where
  owner : String
  name : String
  /-- The number of parameters; a field has none. -/
  arity : Option Nat
  deriving DecidableEq, Repr

namespace MemberRef

/-- The field `name` of `owner`. -/
def field (owner name : String) : MemberRef := ⟨owner, name, none⟩

/-- The method `m` of `owner`. -/
def method (owner : String) (m : MethodDecl) : MemberRef := ⟨owner, m.name, some m.arity⟩

theorem field_inj {owner owner' name name' : String} :
    field owner name = field owner' name' ↔ owner = owner' ∧ name = name' := by
  simp [field]

theorem method_inj {owner owner' : String} {m m' : MethodDecl} :
    method owner m = method owner' m' ↔ owner = owner' ∧ m.name = m'.name ∧ m.arity = m'.arity := by
  simp [method]

theorem field_ne_method {owner owner' name : String} {m : MethodDecl} :
    field owner name ≠ method owner' m := by
  simp [field, method]

/-- The member after its type and a dot, a method with parentheses. -/
def render (m : MemberRef) : String :=
  match m.arity with
  | none => m.owner ++ "." ++ m.name
  | some _ => m.owner ++ "." ++ m.name ++ "()"

end MemberRef

/-- What kind of problem a finding is. -/
inductive FindingKind where
  | malformedLock
  | unresolvableLock
  | staticMismatch
  | violation
  deriving DecidableEq, Repr

/-- The kind as it is printed. -/
def FindingKind.render : FindingKind → String
  | .malformedLock => "malformed-lock-expression"
  | .unresolvableLock => "unresolvable-lock-expression"
  | .staticMismatch => "static-instance-mismatch"
  | .violation => "guard-violation"

/-- A problem with a guard or with an access to a guarded member. -/
structure Finding where
  kind : FindingKind
  message : String
  span : Option Span
  /-- The type that declares the member. -/
  owner : String
  /-- The annotated member, or the method around a guarded access. -/
  member : Option String
  note : Option String
  deriving DecidableEq, Repr

/-- The finding in one line. -/
def Finding.render (f : Finding) : String :=
  let span := match f.span with
    | some s => " @ " ++ s.render
    | none => ""
  let note := match f.note with
    | some n => " (" ++ n ++ ")"
    | none => ""
  f.kind.render ++ ": " ++ f.message ++ span ++ note

end LockDiscipline
