import LockDiscipline.Lock.Resolution

/-!
Names inside a method body. A parameter or local is a root of its own, a member reached through a
place extends the place's path, and a static member starts anew at the type that declares it. What
cannot be followed from a root (a call with arguments, a new object, a literal, arithmetic) has no
path.
-/

namespace LockDiscipline

/-- A parameter or local with its type, where that is known. -/
structure Local where
  name : String
  type : Option String
  deriving DecidableEq, Repr

/-- The locals visible at a point of a body: those of the innermost block, latest first, and those
of the blocks around it, innermost first. The outermost block holds the parameters. -/
structure Locals where
  current : List Local
  enclosing : List (List Local)
  deriving DecidableEq, Repr

namespace Locals

/-- Enters a block. -/
def push (l : Locals) : Locals := ⟨[], l.current :: l.enclosing⟩

/-- Leaves a block; the outermost one is never left. -/
def pop (l : Locals) : Locals :=
  match l.enclosing with
  | [] => l
  | frame :: frames => ⟨frame, frames⟩

/-- Adds a local to the innermost block. -/
def add (l : Locals) (x : Local) : Locals := { l with current := x :: l.current }

/-- The innermost, latest local called `name`. -/
def find? (l : Locals) (name : String) : Option Local :=
  (l.current ++ l.enclosing.flatten).find? fun x => x.name = name

end Locals

/-- The names visible at a point of a body of the type `owner`. -/
structure BodyScope where
  table : TypeTable
  owner : String
  locals : Locals

/-- The path and the type of what an expression evaluates to, where they are known. -/
structure Place where
  path : Option LockPath := none
  type : Option String := none
  deriving DecidableEq, Repr

/-- A member used in a body, with the path of the object it is reached through. A static member and
a receiver that cannot be named have none. -/
structure MemberSite (α : Type) where
  owner : String
  decl : α
  receiver : Option LockPath

namespace BodyScope

/-- The scope at the start of the body of `m`, a method of `owner`. -/
def ofMethod (table : TypeTable) (owner : String) (m : MethodDecl) : BodyScope :=
  ⟨table, owner, (m.parameters.map fun p => ⟨p.name, some p.type⟩).reverse, []⟩

/-- The scope of the same body with other locals. -/
def withLocals (σ : BodyScope) (l : Locals) : BodyScope := { σ with locals := l }

/-- Enters a block. -/
def push (σ : BodyScope) : BodyScope := σ.withLocals σ.locals.push

/-- Leaves a block; the outermost one is never left. -/
def pop (σ : BodyScope) : BodyScope := σ.withLocals σ.locals.pop

/-- Adds a local to the innermost block. -/
def bindLocal (σ : BodyScope) (name : String) (type : Option String) : BodyScope :=
  σ.withLocals (σ.locals.add ⟨name, type⟩)

/-- The innermost, latest local called `name`. -/
def local? (σ : BodyScope) (name : String) : Option Local := σ.locals.find? name

/-- Whether a local is called `name`. -/
def isLocal (σ : BodyScope) (name : String) : Bool :=
  (σ.local? name).isSome

/-- The object through which a member found by its simple name is reached. -/
def implicitReceiver {α : Type} (found : Found α) (isStatic : Bool) : Option LockPath :=
  if isStatic then none
  else match found.viaOuter with
    | some outer => some (.ofRoot (.outer outer))
    | none => some .this

/-- The object through which a member of `base` is reached; a type name is no object. -/
def explicitReceiver (isStatic : Bool) (base : Option LockPath) : Option LockPath :=
  if isStatic then none else base.filter fun p => !p.isBareStatic

/-- The field that the simple name `id` means, unless a local hides it. -/
def bareField (σ : BodyScope) (id : String) : Option (MemberSite FieldDecl) :=
  if σ.isLocal id then none
  else (σ.table.findFieldInScope σ.owner id).map fun found =>
    ⟨found.owner, found.decl, implicitReceiver found found.decl.isStatic⟩

/-- The field `id` of what lies at `base`. -/
def fieldOf (σ : BodyScope) (base : Place) (id : String) : Option (MemberSite FieldDecl) := do
  let found ← σ.table.findField (← base.type) id
  return ⟨found.owner, found.decl, explicitReceiver found.decl.isStatic base.path⟩

/-- The method that the simple name `id` means with `arity` arguments; locals hide no method. -/
def bareMethod (σ : BodyScope) (id : String) (arity : Nat) : Option (MemberSite MethodDecl) :=
  (σ.table.findMethodInScope σ.owner id arity).map fun found =>
    ⟨found.owner, found.decl, implicitReceiver found found.decl.isStatic⟩

/-- The method `id` of what lies at `base`, with `arity` arguments. -/
def methodOf (σ : BodyScope) (base : Place) (id : String) (arity : Nat) :
    Option (MemberSite MethodDecl) := do
  let found ← σ.table.findMethod (← base.type) id arity
  return ⟨found.owner, found.decl, explicitReceiver found.decl.isStatic base.path⟩

section Sites

variable {σ : BodyScope} {base : Place} {id : String} {arity : Nat} {field : MemberSite FieldDecl}
  {method : MemberSite MethodDecl}

theorem bareField_eq_some_iff : σ.bareField id = some field ↔
    σ.local? id = none ∧ ∃ found, σ.table.findFieldInScope σ.owner id = some found ∧
      ⟨found.owner, found.decl, implicitReceiver found found.decl.isStatic⟩ = field := by
  cases hlocal : σ.local? id <;> simp [bareField, isLocal, hlocal]

theorem fieldOf_eq_some_iff : σ.fieldOf base id = some field ↔
    ∃ type found, base.type = some type ∧ σ.table.findField type id = some found ∧
      ⟨found.owner, found.decl, explicitReceiver found.decl.isStatic base.path⟩ = field := by
  cases htype : base.type <;> simp [fieldOf, htype, Option.bind_eq_some_iff]

theorem bareMethod_eq_some_iff : σ.bareMethod id arity = some method ↔
    ∃ found, σ.table.findMethodInScope σ.owner id arity = some found ∧
      ⟨found.owner, found.decl, implicitReceiver found found.decl.isStatic⟩ = method :=
  Option.map_eq_some_iff

theorem methodOf_eq_some_iff : σ.methodOf base id arity = some method ↔
    ∃ type found, base.type = some type ∧ σ.table.findMethod type id arity = some found ∧
      ⟨found.owner, found.decl, explicitReceiver found.decl.isStatic base.path⟩ = method := by
  cases htype : base.type <;> simp [methodOf, htype, Option.bind_eq_some_iff]

end Sites

/-- The path of a member used at a site: a static one is found at the type that declares it, any
other at its receiver. -/
def memberPath {α : Type} (site : MemberSite α) (isStatic : Bool) (s : LockStep) :
    Option LockPath :=
  if isStatic then some ((LockPath.static site.owner).step s)
  else site.receiver.map fun r => r.step s

/-- The place of a field used at a site, if there is one. -/
def fieldPlace (id : String) : Option (MemberSite FieldDecl) → Place
  | some site => ⟨memberPath site site.decl.isStatic (.field id), some site.decl.type⟩
  | none => {}

/-- The place of what a method used at a site returns. With arguments a call may return anything, so
it has no path. -/
def callPlace (id : String) (arity : Nat) : Option (MemberSite MethodDecl) → Place
  | some site =>
    ⟨if arity = 0 then memberPath site site.decl.isStatic (.call id) else none,
      site.decl.returnType⟩
  | none => {}

/-- The place that the simple name `id` means: a local, a field, or a type. -/
def namePlace (σ : BodyScope) (id : String) : Place :=
  match σ.local? id with
  | some l => ⟨some (.var id), l.type⟩
  | none =>
    match σ.bareField id with
    | some site => fieldPlace id (some site)
    | none => if σ.table.contains id then ⟨some (.static id), some id⟩ else {}

/-- The place of an expression. -/
def place (σ : BodyScope) : Expr → Place
  | .this => ⟨some .this, some σ.owner⟩
  | .name id _ => σ.namePlace id
  | .member base id _ => fieldPlace id (σ.fieldOf (σ.place base) id)
  | .call (.name id _) args _ => callPlace id args.length (σ.bareMethod id args.length)
  | .call (.member base id _) args _ =>
    callPlace id args.length (σ.methodOf (σ.place base) id args.length)
  | .new type _ => ⟨none, some type⟩
  | .assign _ value => ⟨none, (σ.place value).type⟩
  | _ => {}

/-- The field `id`, by its simple name or selected from an expression. -/
def fieldSite (σ : BodyScope) (base : Option Expr) (id : String) :
    Option (MemberSite FieldDecl) :=
  match base with
  | none => σ.bareField id
  | some e => σ.fieldOf (σ.place e) id

/-- The method `id`, called by its simple name or on an expression. -/
def methodSite (σ : BodyScope) (base : Option Expr) (id : String) (arity : Nat) :
    Option (MemberSite MethodDecl) :=
  match base with
  | none => σ.bareMethod id arity
  | some e => σ.methodOf (σ.place e) id arity

/-- Declares a local. Without a written type it has the type of its initializer. -/
def declare (σ : BodyScope) (name : String) (type : Option String) (init : Option Expr) :
    BodyScope :=
  σ.bindLocal name (type.or (init.bind fun e => (σ.place e).type))

end BodyScope

end LockDiscipline
