import LockDiscipline.Proofs.Names.LockPlace
import LockDiscipline.Proofs.Names.Lookup

/-! The fields that an expression selects on its way. A path has only their names; with the type of
its root it tells which declarations they are, for each name is looked up on the type of what stands
before it. -/

namespace LockDiscipline

namespace TypeTable

variable {t : TypeTable} {type : Option String} {a b : List LockStep}

/-- The type of what a step leads to from an object of a type. -/
def typeAfter (t : TypeTable) (type : Option String) : LockStep → Option String
  | .field id => (type.bind fun type => t.findField type id).map (·.decl.type)
  | .call id => (type.bind fun type => t.findMethod type id 0).bind (·.decl.returnType)

/-- The field that a step selects on an object of a type, with the type that declares it. A call
selects none. -/
def selected (t : TypeTable) (type : Option String) : LockStep → Option (String × FieldDecl)
  | .field id => (type.bind fun type => t.findField type id).map fun found =>
    (found.owner, found.decl)
  | .call _ => none

def typeAlong (t : TypeTable) (type : Option String) (steps : List LockStep) : Option String :=
  steps.foldl t.typeAfter type

/-- What each of the steps selects, from an object of a type. -/
def selectedAlong (t : TypeTable) (type : Option String) :
    List LockStep → List (Option (String × FieldDecl))
  | [] => []
  | s :: rest => t.selected type s :: t.selectedAlong (t.typeAfter type s) rest

theorem after_of_findField {name id : String} {found : Found FieldDecl}
    (h : t.findField name id = some found) :
    t.typeAfter (some name) (.field id) = some found.decl.type ∧
      t.selected (some name) (.field id) = some (found.owner, found.decl) := by
  simp [typeAfter, selected, h]

theorem after_of_findMethod {name id : String} {found : Found MethodDecl}
    (h : t.findMethod name id 0 = some found) :
    t.typeAfter (some name) (.call id) = found.decl.returnType ∧
      t.selected (some name) (.call id) = none := by
  simp [typeAfter, selected, h]

@[simp] theorem length_selectedAlong : (t.selectedAlong type a).length = a.length := by
  induction a generalizing type with
  | nil => rfl
  | cons s rest ih => rw [selectedAlong, List.length_cons, ih, List.length_cons]

theorem selectedAlong_append : t.selectedAlong type (a ++ b) =
    t.selectedAlong type a ++ t.selectedAlong (t.typeAlong type a) b := by
  induction a generalizing type with
  | nil => rfl
  | cons s rest ih => rw [List.cons_append, selectedAlong, ih, selectedAlong]; rfl

theorem typeAfter_field {id : String} :
    t.typeAfter type (.field id) = (t.selected type (.field id)).map (·.2.type) := by
  rw [typeAfter, selected, Option.map_map]
  rfl

/-- Steps of which the first selects a field select the same from two types exactly if the first one
does: from there on the types are the same, too. -/
theorem selectedAlong_eq_iff {type' : Option String}
    (h : ∀ s ∈ a.head?, (t.selected type' s).isSome) :
    t.selectedAlong type a = t.selectedAlong type' a ↔
      ∀ s ∈ a.head?, t.selected type s = t.selected type' s := by
  cases a with
  | nil => simp [selectedAlong]
  | cons s rest =>
    simp only [List.head?_cons, Option.mem_some_iff, forall_eq'] at h ⊢
    rw [selectedAlong, selectedAlong, List.cons.injEq]
    refine ⟨And.left, fun hs => ⟨hs, ?_⟩⟩
    cases s with
    | field id => rw [typeAfter_field, typeAfter_field, hs]
    | call id => cases h

end TypeTable

namespace BodyScope

/-- The type of what a path's root denotes, where it is known. -/
def rootType (σ : BodyScope) : LockRoot → Option String
  | .this => some σ.owner
  | .outer type | .static type => some type
  | .var name => (σ.local? name).bind (·.type)
  | .parameter .. => none

/-- The type of what lies at a path. -/
def typeAt (σ : BodyScope) (p : LockPath) : Option String :=
  σ.table.typeAlong (σ.rootType p.root) p.steps

/-- What each of the steps of a path selects. -/
def selectedAt (σ : BodyScope) (p : LockPath) : List (Option (String × FieldDecl)) :=
  σ.table.selectedAlong (σ.rootType p.root) p.steps

/-- The fields that an expression selects, from the root of its path on, each with the type that
declares it; a call selects none. -/
def selections (σ : BodyScope) : Expr → List (Option (String × FieldDecl))
  | .name id _ => (σ.bareField id).elim [] fun site => [some (site.owner, site.decl)]
  | .member base id _ => (σ.fieldOf (σ.place base) id).elim [] fun site =>
    (if site.decl.isStatic then [] else σ.selections base) ++ [some (site.owner, site.decl)]
  | .call (.name id _) args _ => (σ.bareMethod id args.length).elim [] fun _ => [none]
  | .call (.member base id _) args _ =>
    (σ.methodOf (σ.place base) id args.length).elim [] fun site =>
      (if site.decl.isStatic then [] else σ.selections base) ++ [none]
  | _ => []

variable {σ : BodyScope} {p pre : LockPath} {s : LockStep} {id : String} {arity : Nat}

theorem typeAt_step : σ.typeAt (p.step s) = σ.table.typeAfter (σ.typeAt p) s := by
  rw [typeAt, typeAt, LockPath.step, TypeTable.typeAlong, List.foldl_append]
  rfl

theorem selectedAt_step : σ.selectedAt (p.step s) =
    σ.selectedAt p ++ [σ.table.selected (σ.typeAt p) s] := by
  rw [selectedAt, selectedAt, LockPath.step, TypeTable.selectedAlong_append]
  rfl

/-- What one more field of an object has for its type, and what it selects. -/
theorem at_field {type : String} {found : Found FieldDecl} (htype : σ.typeAt p = some type)
    (hfound : σ.table.findField type id = some found) :
    σ.typeAt (p.step (.field id)) = some found.decl.type ∧
      σ.selectedAt (p.step (.field id)) = σ.selectedAt p ++ [some (found.owner, found.decl)] := by
  obtain ⟨hafter, hselected⟩ := TypeTable.after_of_findField hfound
  rw [typeAt_step, selectedAt_step, htype, hafter, hselected]
  exact ⟨rfl, rfl⟩

section Member

variable {α : Type} {found : Found α} {decl : α} {isStatic : Bool} {type : Option String}
  {field : Option (String × FieldDecl)}

/-- A member found by its simple name. -/
private theorem known_of_implicit
    (hhere : σ.table.typeAfter (some (found.viaOuter.getD σ.owner)) s = type ∧
      σ.table.selected (some (found.viaOuter.getD σ.owner)) s = field)
    (howner : σ.table.typeAfter (some found.owner) s = type ∧
      σ.table.selected (some found.owner) s = field)
    (h : memberPath ⟨found.owner, decl, implicitReceiver found isStatic⟩ isStatic s = some p) :
    type = σ.typeAt p ∧ [field] = σ.selectedAt p := by
  obtain ⟨rfl, rfl⟩ := hhere
  cases isStatic with
  | true =>
    cases h
    exact ⟨howner.1.symm, congrArg ([·]) howner.2.symm⟩
  | false =>
    rw [implicitReceiver, memberPath] at h
    cases hvia : found.viaOuter with
    | none =>
      rw [hvia] at h
      cases h
      exact ⟨rfl, rfl⟩
    | some outer =>
      rw [hvia] at h
      cases h
      exact ⟨rfl, rfl⟩

/-- A member of what lies at `base`. -/
private theorem known_of_explicit {base : Place} {fields : List (Option (String × FieldDecl))}
    (hbase : ∀ q, base.path = some q → base.type = σ.typeAt q ∧ fields = σ.selectedAt q)
    (hhere : σ.table.typeAfter base.type s = type ∧ σ.table.selected base.type s = field)
    (howner : σ.table.typeAfter (some found.owner) s = type ∧
      σ.table.selected (some found.owner) s = field)
    (h : memberPath ⟨found.owner, decl, explicitReceiver isStatic base.path⟩ isStatic s = some p) :
    type = σ.typeAt p ∧ (if isStatic then [] else fields) ++ [field] = σ.selectedAt p := by
  cases isStatic with
  | true =>
    cases h
    exact ⟨howner.1.symm, congrArg ([·]) howner.2.symm⟩
  | false =>
    obtain ⟨q, hq, rfl⟩ := Option.map_eq_some_iff.1 h
    obtain ⟨htype, rfl⟩ := hbase q (Option.filter_eq_some_iff.1 hq).1
    rw [htype] at hhere
    obtain ⟨rfl, rfl⟩ := hhere
    exact ⟨typeAt_step.symm, selectedAt_step.symm⟩

end Member

private theorem known_bareField {site : MemberSite FieldDecl} (hsite : σ.bareField id = some site)
    (h : memberPath site site.decl.isStatic (.field id) = some p) :
    some site.decl.type = σ.typeAt p ∧ [some (site.owner, site.decl)] = σ.selectedAt p := by
  obtain ⟨-, found, hfound, rfl⟩ := bareField_eq_some_iff.1 hsite
  have hfind := TypeTable.findField_of_inScope hfound
  have hhere := TypeTable.after_of_findField hfind
  have howner := TypeTable.after_of_findField (TypeTable.findField_owner hfind)
  refine known_of_implicit ?_ ?_ h
  · exact hhere
  · exact howner

private theorem known_bareMethod {site : MemberSite MethodDecl}
    (hsite : σ.bareMethod id 0 = some site)
    (h : memberPath site site.decl.isStatic (.call id) = some p) :
    site.decl.returnType = σ.typeAt p ∧ [none] = σ.selectedAt p := by
  obtain ⟨found, hfound, rfl⟩ := bareMethod_eq_some_iff.1 hsite
  have hfind := TypeTable.findMethod_of_inScope hfound
  have hhere := TypeTable.after_of_findMethod hfind
  have howner := TypeTable.after_of_findMethod (TypeTable.findMethod_owner hfind)
  refine known_of_implicit ?_ ?_ h
  · exact hhere
  · exact howner

private theorem known_name (s : Option Span) (h : (σ.namePlace id).path = some p) :
    (σ.namePlace id).type = σ.typeAt p ∧ σ.selections (.name id s) = σ.selectedAt p := by
  rw [selections]
  unfold namePlace at h ⊢
  cases hlocal : σ.local? id with
  | some l =>
    rw [hlocal] at h
    cases h
    have hnone : σ.bareField id = none := by simp [bareField, isLocal, hlocal]
    rw [hnone]
    simp [typeAt, selectedAt, rootType, hlocal, LockPath.var, LockPath.ofRoot, TypeTable.typeAlong,
      TypeTable.selectedAlong]
  | none =>
    rw [hlocal] at h
    cases hsite : σ.bareField id with
    | some site =>
      rw [hsite] at h
      exact known_bareField hsite h
    | none =>
      rw [hsite] at h
      dsimp only at h ⊢
      split at h
      · next htype =>
        cases h
        rw [if_pos htype]
        exact ⟨rfl, rfl⟩
      · cases h

theorem path_callPlace {site : Option (MemberSite MethodDecl)}
    (h : (callPlace id arity site).path = some p) :
    ∃ site', site = some site' ∧ arity = 0 ∧
      memberPath site' site'.decl.isStatic (.call id) = some p := by
  cases site with
  | none => cases h
  | some site' =>
    rw [callPlace] at h
    dsimp only at h
    split at h
    · next hzero => exact ⟨site', rfl, hzero, h⟩
    · cases h

/-- The path of an expression tells its type and what it selects. -/
theorem type_and_selections_of_path {e : Expr} (h : (σ.place e).path = some p) :
    (σ.place e).type = σ.typeAt p ∧ σ.selections e = σ.selectedAt p := by
  fun_induction σ.place e generalizing p with
  | case1 =>
    cases h
    exact ⟨rfl, rfl⟩
  | case2 id s => exact known_name s h
  | case3 base id _ ih =>
    rw [selections]
    cases hsite : σ.fieldOf (σ.place base) id with
    | none =>
      rw [hsite] at h
      cases h
    | some site =>
      rw [hsite] at h
      obtain ⟨type, found, htype, hfound, rfl⟩ := fieldOf_eq_some_iff.1 hsite
      exact known_of_explicit (fun _ => ih) (htype ▸ TypeTable.after_of_findField hfound)
        (TypeTable.after_of_findField (TypeTable.findField_owner hfound)) h
  | case4 id _ args =>
    obtain ⟨site, hsite, hargs, h⟩ := path_callPlace h
    rw [selections, hsite]
    exact known_bareMethod (hargs ▸ hsite) h
  | case5 base id _ args _ ih =>
    obtain ⟨site, hsite, hargs, h⟩ := path_callPlace h
    rw [selections, hsite]
    rw [hargs] at hsite
    obtain ⟨type, found, htype, hfound, rfl⟩ := methodOf_eq_some_iff.1 hsite
    exact known_of_explicit (fun _ => ih) (htype ▸ TypeTable.after_of_findMethod hfound)
      (TypeTable.after_of_findMethod (TypeTable.findMethod_owner hfound)) h
  | case6 => cases h
  | case7 => cases h
  | case8 => cases h

end BodyScope

end LockDiscipline
