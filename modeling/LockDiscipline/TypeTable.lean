import LockDiscipline.Syntax.Decl

/-!
The types of a unit by name, and the members that can be found from a type. Types are listed outer
before nested, in the order of declaration; of several types of one name the first counts. A member
is looked for along the base types, and by simple name also from the enclosing types outwards.
-/

namespace LockDiscipline

/-- A declared type and the name of the type around it. -/
structure TypeEntry where
  decl : TypeDecl
  outer : Option String

/-- The name of the declared type. -/
def TypeEntry.name (e : TypeEntry) : String := e.decl.name

mutual

/-- A type followed by all types nested in it, each with the name of the type around it. -/
def TypeDecl.preorder (outer : Option String) : TypeDecl → List TypeEntry
  | ⟨name, base, fields, methods, nested, attributes⟩ =>
    ⟨⟨name, base, fields, methods, nested, attributes⟩, outer⟩ ::
      TypeDecl.preorderAll (some name) nested

/-- The types of a list, each followed by the types nested in it. -/
def TypeDecl.preorderAll (outer : Option String) : List TypeDecl → List TypeEntry
  | [] => []
  | d :: rest => d.preorder outer ++ TypeDecl.preorderAll outer rest

end

/-- The first entry of each name, in order. -/
def TypeEntry.firstOfEachName : List TypeEntry → List TypeEntry
  | [] => []
  | e :: rest => e :: (firstOfEachName rest).filter fun e' => e'.name ≠ e.name

/-- The types of a unit, at most one of each name. -/
structure TypeTable where
  entries : List TypeEntry

/-- A member that was found, with the type that declares it. -/
structure Found (α : Type) where
  owner : String
  decl : α
  /-- The enclosing type through which the member was reached, if it is not on the type that was
  asked or on a base of it. The owner may be a base of this type. -/
  viaOuter : Option String

namespace TypeTable

/-- The table of a unit. -/
def ofUnit (u : CompilationUnit) : TypeTable :=
  ⟨TypeEntry.firstOfEachName (TypeDecl.preorderAll none u.types)⟩

/-- The entry of the type `name`. -/
def entry? (t : TypeTable) (name : String) : Option TypeEntry :=
  t.entries.find? fun e => e.name = name

/-- The declaration of the type `name`. -/
def typeDecl? (t : TypeTable) (name : String) : Option TypeDecl :=
  (t.entry? name).map (·.decl)

/-- Whether the table has a type `name`. -/
def contains (t : TypeTable) (name : String) : Bool :=
  (t.entry? name).isSome

/-- The declarations in the table's order. -/
def types (t : TypeTable) : List TypeDecl :=
  t.entries.map (·.decl)

/-- The entries of other names. -/
def without (name : String) (pool : List TypeEntry) : List TypeEntry :=
  pool.filter fun e => e.name ≠ name

theorem length_without_lt {pool : List TypeEntry} {name : String} {e : TypeEntry}
    (h : pool.find? (fun e => e.name = name) = some e) :
    (without name pool).length < pool.length := by
  have hmem := List.mem_of_find?_eq_some h
  have hname : e.name = name := by simpa using List.find?_some h
  exact List.length_filter_lt_length_iff_exists.2 ⟨e, hmem, by simp [hname]⟩

/-- The entries met by going from name to name along `next`. The walk ends at a name that the pool
lacks; an entry that was met leaves the pool, so the walk also ends at the first repetition. -/
def chain (next : TypeEntry → Option String) (pool : List TypeEntry) :
    Option String → List TypeEntry
  | none => []
  | some name =>
    match h : pool.find? fun e => e.name = name with
    | none => []
    | some e =>
      have := length_without_lt h
      e :: chain next (without name pool) (next e)
termination_by pool.length

/-- The type `name` and its base types, cut before an unknown or repeated one. -/
def hierarchy (t : TypeTable) (name : String) : List TypeDecl :=
  (chain (·.decl.base) t.entries (some name)).map (·.decl)

/-- The names of the types around `name`, innermost first. -/
def outerTypes (t : TypeTable) (name : String) : List String :=
  (chain (·.outer) t.entries ((t.entry? name).bind (·.outer))).map (·.name)

/-- The field `name` on the type `type` or the nearest base type that has it. -/
def findField (t : TypeTable) (type name : String) : Option (Found FieldDecl) :=
  (t.hierarchy type).findSome? fun d =>
    (d.fields.find? fun f => f.name = name).map fun f => ⟨d.name, f, none⟩

/-- The method `name` with `arity` parameters on the type `type` or the nearest base type that has
it. -/
def findMethod (t : TypeTable) (type name : String) (arity : Nat) : Option (Found MethodDecl) :=
  (t.hierarchy type).findSome? fun d =>
    (d.methods.find? fun m => m.name = name ∧ m.arity = arity).map fun m => ⟨d.name, m, none⟩

/-- What `find` gives for `type` itself, or else for the innermost type around it where it gives
anything. -/
def inScope {α : Type} (t : TypeTable) (find : String → Option (Found α)) (type : String) :
    Option (Found α) :=
  (find type).or <|
    (t.outerTypes type).findSome? fun outer =>
      (find outer).map fun found => { found with viaOuter := some outer }

/-- The field that the simple name `name` means inside `type`. -/
def findFieldInScope (t : TypeTable) (type name : String) : Option (Found FieldDecl) :=
  t.inScope (t.findField · name) type

/-- The method that the simple name `name`, called with `arity` arguments, means inside `type`. -/
def findMethodInScope (t : TypeTable) (type name : String) (arity : Nat) :
    Option (Found MethodDecl) :=
  t.inScope (t.findMethod · name arity) type

end TypeTable

end LockDiscipline
