import LockDiscipline.Guard.Annotation
import LockDiscipline.Proofs.Names.Lookup

/-! What a lock expression means is read off signatures: attributes, bodies and places in the text
play no part in it. -/

namespace LockDiscipline

/-- The field without its attributes and its place. -/
def FieldDecl.signature (f : FieldDecl) : FieldDecl := { f with attributes := [], span := none }

/-- The method without its attributes, its body and its place. -/
def MethodDecl.signature (m : MethodDecl) : MethodDecl :=
  { m with attributes := [], body := none, span := none }

/-- The signatures of a type's own members; a table lists the types nested in it apart. -/
def TypeDecl.signature (d : TypeDecl) : TypeDecl :=
  { d with
    fields := d.fields.map FieldDecl.signature
    methods := d.methods.map MethodDecl.signature
    nested := []
    attributes := [] }

/-- The entry with its type's signature only. -/
def TypeEntry.signature (e : TypeEntry) : TypeEntry := { e with decl := e.decl.signature }

/-- The same member with its declaration seen through `g`. -/
def Found.map {α β : Type} (g : α → β) (found : Found α) : Found β :=
  ⟨found.owner, g found.decl, found.viaOuter⟩

namespace TypeTable

/-- The table with the signatures of its types only. -/
def signatures (t : TypeTable) : TypeTable := ⟨t.entries.map TypeEntry.signature⟩

variable {t : TypeTable} {scope : DeclScope}

private theorem chain_signature {next : TypeEntry → Option String}
    (hnext : ∀ e, next e.signature = next e) (pool : List TypeEntry) (start : Option String) :
    chain next (pool.map TypeEntry.signature) start =
      (chain next pool start).map TypeEntry.signature := by
  have hfind (pool : List TypeEntry) (name : String) :
      (pool.map TypeEntry.signature).find? (fun e => e.name = name) =
        (pool.find? fun e => e.name = name).map TypeEntry.signature := by
    rw [List.find?_map]
    rfl
  fun_induction chain next pool start with
  | case1 pool => rw [chain, List.map_nil]
  | case2 pool name hnone =>
    rw [chain_of_find?_none (by rw [hfind, hnone, Option.map_none]), List.map_nil]
  | case3 pool name e hsome _ ih =>
    have hrest : without name (pool.map TypeEntry.signature) =
        (without name pool).map TypeEntry.signature := List.filter_map ..
    rw [chain_of_find? (by rw [hfind, hsome, Option.map_some]), hnext, hrest, ih, List.map_cons]

theorem hierarchy_signatures (type : String) :
    t.signatures.hierarchy type = (t.hierarchy type).map TypeDecl.signature := by
  rw [hierarchy, signatures, chain_signature fun _ => rfl, hierarchy, List.map_map, List.map_map]
  rfl

theorem entry?_signatures (name : String) :
    t.signatures.entry? name = (t.entry? name).map TypeEntry.signature := List.find?_map ..

theorem contains_signatures (name : String) : t.signatures.contains name = t.contains name := by
  rw [contains, entry?_signatures, Option.isSome_map, contains]

theorem outerTypes_signatures (name : String) :
    t.signatures.outerTypes name = t.outerTypes name := by
  rw [outerTypes, entry?_signatures, signatures, chain_signature fun _ => rfl, List.map_map,
    Option.bind_map, outerTypes]
  rfl

theorem findField_signatures (type name : String) :
    t.signatures.findField type name = (t.findField type name).map (Found.map (·.signature)) := by
  rw [findField, hierarchy_signatures, List.findSome?_map, findField, List.map_findSome?]
  congr 1
  funext d
  rw [Function.comp_apply, TypeDecl.signature, List.find?_map, Option.map_map, Function.comp_apply,
    Option.map_map]
  rfl

theorem findMethod_signatures (type name : String) (arity : Nat) :
    t.signatures.findMethod type name arity =
      (t.findMethod type name arity).map (Found.map (·.signature)) := by
  rw [findMethod, hierarchy_signatures, List.findSome?_map, findMethod, List.map_findSome?]
  congr 1
  funext d
  rw [Function.comp_apply, TypeDecl.signature, List.find?_map, Option.map_map, Function.comp_apply,
    Option.map_map]
  rfl

private theorem inScope_signatures {α : Type} {g : α → α} {find find' : String → Option (Found α)}
    (hfind : ∀ type, find' type = (find type).map (Found.map g)) (type : String) :
    t.signatures.inScope find' type = (t.inScope find type).map (Found.map g) := by
  rw [inScope, inScope, hfind, outerTypes_signatures, Option.map_or, List.map_findSome?]
  congr 2
  funext outer
  rw [hfind, Option.map_map, Function.comp_apply, Option.map_map]
  rfl

theorem findFieldInScope_signatures (type name : String) :
    t.signatures.findFieldInScope type name =
      (t.findFieldInScope type name).map (Found.map (·.signature)) :=
  inScope_signatures (fun type => findField_signatures type name) type

theorem findMethodInScope_signatures (type name : String) (arity : Nat) :
    t.signatures.findMethodInScope type name arity =
      (t.findMethodInScope type name arity).map (Found.map (·.signature)) :=
  inScope_signatures (fun type => findMethod_signatures type name arity) type

theorem bindName_signatures (id : String) :
    t.signatures.bindName scope id = t.bindName scope id := by
  rw [bindName, bindName, findFieldInScope_signatures, contains_signatures]
  cases t.findFieldInScope scope.owner id with
  | none => rfl
  | some found => rfl

theorem bindField_signatures (base : BoundLock) (id : String) :
    t.signatures.bindField base id = t.bindField base id := by
  rw [bindField, bindField]
  cases base.type with
  | none => rfl
  | some type =>
    simp only [findField_signatures]
    cases t.findField type id with
    | none => rfl
    | some found => rfl

theorem bindCall_signatures (base : BoundLock) (method : String) :
    t.signatures.bindCall base method = t.bindCall base method := by
  rw [bindCall, bindCall]
  cases base.type with
  | none => rfl
  | some type =>
    simp only [findMethod_signatures]
    cases t.findMethod type method 0 with
    | none => rfl
    | some found => rfl

theorem bind_signatures (e : LockExpr) : t.signatures.bind scope e = t.bind scope e := by
  induction e with
  | this => rfl
  | name id => exact bindName_signatures id
  | call method =>
    rw [bind, bind, findMethodInScope_signatures]
    cases t.findMethodInScope scope.owner method 0 with
    | none => rfl
    | some found => rfl
  | select base id ih => simp only [bind, ih, bindField_signatures]
  | invoke base method ih => simp only [bind, ih, bindCall_signatures]

theorem resolve_signatures (text : String) :
    t.signatures.resolve scope text = t.resolve scope text := by
  simp only [resolve, bind_signatures]

/-- The guard of a method comes from its own attributes and from signatures. -/
theorem methodGuard_signatures (owner : String) (m : MethodDecl) :
    t.signatures.methodGuard owner m = t.methodGuard owner m := by
  simp only [methodGuard, guardOf, resolve_signatures]

end TypeTable

end LockDiscipline
