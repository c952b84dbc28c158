import LockDiscipline.Proofs.Guards.Annotated
import LockDiscipline.Proofs.Guards.Suppression
import LockDiscipline.Proofs.Related

/-! Suppressions added to a unit. They are no annotations, so the same findings arise; and each
finding is silenced by what silenced it before, and by what was added. -/

namespace LockDiscipline

/-- Whether the attribute is a suppression with arguments: the last part of its dotted name is
`allow` or `SuppressWarnings`, in any spelling of these. -/
def Attribute.isSuppression (a : Attribute) : Bool :=
  let name := canonicalName (Text.lastPiece '.' a.name)
  name = "allow" || name = "suppresswarnings"

/-- Attributes to which suppressions are added, at any places and any number of them. -/
inductive Attribute.MoreSuppressed : List Attribute → List Attribute → Prop
  | nil : MoreSuppressed [] []
  | keep (a) {l l'} : MoreSuppressed l l' → MoreSuppressed (a :: l) (a :: l')
  | add {a l l'} : a.isSuppression = true → MoreSuppressed l l' → MoreSuppressed l (a :: l')

/-- A field to which suppressions are added. -/
def FieldDecl.MoreSuppressed (f f' : FieldDecl) : Prop :=
  ∃ attributes, Attribute.MoreSuppressed f.attributes attributes ∧ f' = { f with attributes }

/-- A method to which suppressions are added. -/
def MethodDecl.MoreSuppressed (m m' : MethodDecl) : Prop :=
  ∃ attributes, Attribute.MoreSuppressed m.attributes attributes ∧ m' = { m with attributes }

mutual

/-- A type to which, and to members and nested types of which, suppressions are added. -/
inductive TypeDecl.MoreSuppressed : TypeDecl → TypeDecl → Prop
  | mk {name base fields fields' methods methods' nested nested' attributes attributes'} :
      fields.Forall₂ FieldDecl.MoreSuppressed fields' →
      methods.Forall₂ MethodDecl.MoreSuppressed methods' →
      TypeDecl.AllMoreSuppressed nested nested' →
      Attribute.MoreSuppressed attributes attributes' →
      TypeDecl.MoreSuppressed ⟨name, base, fields, methods, nested, attributes⟩
        ⟨name, base, fields', methods', nested', attributes'⟩

/-- Types to which suppressions are added. -/
inductive TypeDecl.AllMoreSuppressed : List TypeDecl → List TypeDecl → Prop
  | nil : TypeDecl.AllMoreSuppressed [] []
  | cons {d d' ds ds'} : TypeDecl.MoreSuppressed d d' → TypeDecl.AllMoreSuppressed ds ds' →
      TypeDecl.AllMoreSuppressed (d :: ds) (d' :: ds')

end

/-- A unit to which suppressions are added, on types, fields and methods. -/
def CompilationUnit.MoreSuppressed (u u' : CompilationUnit) : Prop :=
  u.path = u'.path ∧ TypeDecl.AllMoreSuppressed u.types u'.types

/-- An entry to which suppressions are added. -/
def TypeEntry.MoreSuppressed (e e' : TypeEntry) : Prop :=
  e.decl.MoreSuppressed e'.decl ∧ e.outer = e'.outer

namespace Attribute

variable {l l' : List Attribute} {a : Attribute}

theorem not_annotates_of_isSuppression (h : a.isSuppression = true) : a.annotates = false := by
  have hnamed (names : List String) (hnames : ∀ name ∈ names,
      canonicalName name ≠ "allow" ∧ canonicalName name ≠ "suppresswarnings") :
      a.isNamed names = false := by
    rw [isNamed, List.contains_eq_mem, decide_eq_false_iff_not]
    intro hmem
    have hne := hnames _ hmem
    simp [isSuppression, hne.1, hne.2] at h
  simp only [annotates, isGuard, lockEffect?]
  rw [hnamed _ (by decide +kernel), hnamed _ (by decide +kernel), hnamed _ (by decide +kernel)]
  rfl

theorem MoreSuppressed.filter_annotates (h : MoreSuppressed l l') :
    l'.filter (·.annotates) = l.filter (·.annotates) := by
  induction h with
  | nil => rfl
  | keep a _ ih => rw [List.filter_cons, List.filter_cons, ih]
  | add ha _ ih =>
    rw [List.filter_cons_of_neg (by simp [not_annotates_of_isSuppression ha]), ih]

theorem MoreSuppressed.subset (h : MoreSuppressed l l') : l ⊆ l' := by
  induction h with
  | nil => exact List.Subset.refl []
  | keep a _ ih => exact List.cons_subset_cons a ih
  | add _ _ ih => exact List.subset_cons_of_subset _ ih

/-- What was suppressed stays so. -/
theorem MoreSuppressed.lists_ofAttributes {s : Suppression} (h : MoreSuppressed l l')
    (hs : (Allowance.ofAttributes l).Lists s) : (Allowance.ofAttributes l').Lists s := by
  simp only [Allowance.ofAttributes, Allowance.lists_foldl_merge, Allowance.not_lists_empty,
    false_or] at hs ⊢
  obtain ⟨a, ha, hs⟩ := hs
  exact ⟨a, h.subset ha, hs⟩

end Attribute

mutual

private theorem forall₂_preorder : ∀ {d d' : TypeDecl}, d.MoreSuppressed d' →
    ∀ outer, (d.preorder outer).Forall₂ TypeEntry.MoreSuppressed (d'.preorder outer)
  | _, _, .mk hfields hmethods hnested hattributes, outer => by
    rw [TypeDecl.preorder, TypeDecl.preorder]
    exact .cons ⟨.mk hfields hmethods hnested hattributes, rfl⟩ (forall₂_preorderAll hnested _)

private theorem forall₂_preorderAll : ∀ {ds ds' : List TypeDecl},
    TypeDecl.AllMoreSuppressed ds ds' → ∀ outer,
      (TypeDecl.preorderAll outer ds).Forall₂ TypeEntry.MoreSuppressed
        (TypeDecl.preorderAll outer ds')
  | _, _, .nil, _ => .nil
  | _, _, .cons hd hds, outer => by
    rw [TypeDecl.preorderAll, TypeDecl.preorderAll]
    exact List.rel_append (forall₂_preorder hd outer) (forall₂_preorderAll hds outer)

end

theorem FieldDecl.MoreSuppressed.annotated {f f' : FieldDecl} (h : f.MoreSuppressed f') :
    f'.annotated = f.annotated := by
  obtain ⟨attributes, hattributes, rfl⟩ := h
  simp only [FieldDecl.annotated, hattributes.filter_annotates]

theorem MethodDecl.MoreSuppressed.annotated {m m' : MethodDecl} (h : m.MoreSuppressed m') :
    m'.annotated = m.annotated := by
  obtain ⟨attributes, hattributes, rfl⟩ := h
  simp only [MethodDecl.annotated, hattributes.filter_annotates]

namespace TypeDecl.MoreSuppressed

variable {d d' : TypeDecl}

theorem name (h : d.MoreSuppressed d') : d'.name = d.name := by
  cases h
  rfl

theorem attributes (h : d.MoreSuppressed d') :
    Attribute.MoreSuppressed d.attributes d'.attributes := by
  cases h with
  | mk _ _ _ hattributes => exact hattributes

theorem annotated (h : d.MoreSuppressed d') : d'.annotated = d.annotated := by
  cases h with
  | mk hfields hmethods _ _ =>
    simp only [TypeDecl.annotated, map_eq_of_forall₂ hfields fun _ _ hf => hf.annotated,
      map_eq_of_forall₂ hmethods fun _ _ hm => hm.annotated]

/-- A type with more suppressions is checked with the same findings. -/
theorem checkType {t : TypeTable} {api : LockApi} (h : d.MoreSuppressed d') :
    t.checkType api d' = t.checkType api d := by
  cases h with
  | mk _ hmethods _ _ =>
    simp only [TypeTable.checkType, List.flatMap_def]
    rw [map_eq_of_forall₂ hmethods]
    rintro m _ ⟨attributes, -, rfl⟩
    rfl

/-- The attributes that a name in a finding leads to are those of the same member. -/
theorem memberAttributes (h : d.MoreSuppressed d') (name : String) :
    Attribute.MoreSuppressed (GuardedBy.memberAttributes d name)
      (GuardedBy.memberAttributes d' name) := by
  cases h with
  | @mk _ _ fields fields' methods methods' _ _ _ _ hfields hmethods _ _ =>
    have hfield : Option.Rel FieldDecl.MoreSuppressed (fields.find? fun f => f.name = name)
        (fields'.find? fun f => f.name = name) := by
      refine rel_find?_of_forall₂ hfields ?_
      rintro f _ ⟨attributes, -, rfl⟩
      rfl
    have hmethod : Option.Rel MethodDecl.MoreSuppressed (methods.find? fun m => m.name = name)
        (methods'.find? fun m => m.name = name) := by
      refine rel_find?_of_forall₂ hmethods ?_
      rintro m _ ⟨attributes, -, rfl⟩
      rfl
    simp only [GuardedBy.memberAttributes]
    generalize (fields.find? fun f => f.name = name) = field at hfield ⊢
    generalize (fields'.find? fun f => f.name = name) = field' at hfield ⊢
    generalize (methods.find? fun m => m.name = name) = method at hmethod ⊢
    generalize (methods'.find? fun m => m.name = name) = method' at hmethod ⊢
    cases hfield with
    | some hf =>
      obtain ⟨attributes, hattributes, rfl⟩ := hf
      exact hattributes
    | none =>
      cases hmethod with
      | some hm =>
        obtain ⟨attributes, hattributes, rfl⟩ := hm
        exact hattributes
      | none => exact .nil

end TypeDecl.MoreSuppressed

namespace TypeTable

/-- A table of types to which suppressions are added. -/
def MoreSuppressed (t t' : TypeTable) : Prop :=
  t.entries.Forall₂ TypeEntry.MoreSuppressed t'.entries

variable {t t' : TypeTable} {u u' : CompilationUnit} {api : LockApi}

private theorem forall₂_firstOfEachName {l l' : List TypeEntry}
    (h : l.Forall₂ TypeEntry.MoreSuppressed l') :
    (TypeEntry.firstOfEachName l).Forall₂ TypeEntry.MoreSuppressed
      (TypeEntry.firstOfEachName l') := by
  induction h with
  | nil => exact .nil
  | @cons e e' l l' he _ ih =>
    rw [TypeEntry.firstOfEachName, TypeEntry.firstOfEachName]
    refine .cons he (List.rel_filter (fun x x' hx => ?_) ih)
    have hname : x'.name = x.name := hx.1.name
    have hname' : e'.name = e.name := he.1.name
    simp [hname, hname']

theorem moreSuppressed_ofUnit (h : u.MoreSuppressed u') : (ofUnit u).MoreSuppressed (ofUnit u') :=
  forall₂_firstOfEachName (forall₂_preorderAll h.2 none)

namespace MoreSuppressed

variable (h : t.MoreSuppressed t')
include h

theorem annotated : t'.annotated = t.annotated := by
  rw [TypeTable.annotated, TypeTable.annotated]
  congr 1
  refine map_eq_of_forall₂ h fun e e' he => ?_
  rw [TypeEntry.annotated, he.1.annotated, ← he.2, TypeEntry.annotated]

/-- The same findings arise. -/
theorem check : t'.check api = t.check api := by
  rw [TypeTable.check, TypeTable.check, checkType_congr h.annotated, types, types,
    List.flatMap_map, List.flatMap_map, List.flatMap_def, List.flatMap_def]
  rw [map_eq_of_forall₂ h fun e e' he => he.1.checkType]

theorem outerTypes (name : String) : t'.outerTypes name = t.outerTypes name := by
  rw [← outerTypes_signatures, ← signatures_annotated, h.annotated, signatures_annotated,
    outerTypes_signatures]

theorem typeDecl? (name : String) :
    Option.Rel TypeDecl.MoreSuppressed (t.typeDecl? name) (t'.typeDecl? name) := by
  have hentry : Option.Rel TypeEntry.MoreSuppressed (t.entry? name) (t'.entry? name) := by
    refine rel_find?_of_forall₂ h fun e e' he => ?_
    have hname : e'.name = e.name := he.1.name
    rw [hname]
  rw [TypeTable.typeDecl?, TypeTable.typeDecl?]
  generalize t.entry? name = entry at hentry ⊢
  generalize t'.entry? name = entry' at hentry ⊢
  cases hentry with
  | none => exact .none
  | some he => exact .some he.1

/-- What silenced a finding still does. -/
theorem lists_allowanceFor {x : Finding} {s : Suppression}
    (hs : (GuardedBy.allowanceFor t x).Lists s) : (GuardedBy.allowanceFor t' x).Lists s := by
  have htype (name : String) {d : TypeDecl} (hd : t.typeDecl? name = some d) :
      ∃ d', t'.typeDecl? name = some d' ∧ d.MoreSuppressed d' := by
    have hrel := h.typeDecl? name
    rw [hd] at hrel
    generalize hd' : t'.typeDecl? name = found at hrel
    cases hrel with
    | some hd => exact ⟨_, rfl, hd⟩
  have houter : (∃ d ∈ (t.outerTypes x.owner).filterMap t.typeDecl?,
      (Allowance.ofAttributes d.attributes).Lists s) →
        ∃ d' ∈ (t'.outerTypes x.owner).filterMap t'.typeDecl?,
          (Allowance.ofAttributes d'.attributes).Lists s := by
    rintro ⟨d, hd, hs⟩
    obtain ⟨name, hname, hfound⟩ := List.mem_filterMap.1 hd
    obtain ⟨d', hfound', hmore⟩ := htype name hfound
    exact ⟨d', List.mem_filterMap.2 ⟨name, h.outerTypes _ ▸ hname, hfound'⟩,
      hmore.attributes.lists_ofAttributes hs⟩
  cases howner : t.typeDecl? x.owner with
  | none =>
    rw [GuardedBy.allowanceFor, howner] at hs
    exact absurd hs Allowance.not_lists_empty
  | some d =>
    obtain ⟨d', howner', hmore⟩ := htype _ howner
    let onTypes (l : List TypeDecl) : Allowance :=
      (l.map fun d => Allowance.ofAttributes d.attributes).foldl .merge {}
    have htypes : (onTypes (d :: (t.outerTypes x.owner).filterMap t.typeDecl?)).Lists s →
        (onTypes (d' :: (t'.outerTypes x.owner).filterMap t'.typeDecl?)).Lists s := by
      simp only [onTypes, Allowance.lists_foldl_merge, Allowance.not_lists_empty, false_or,
        List.exists_mem_cons_iff]
      exact Or.imp hmore.attributes.lists_ofAttributes houter
    simp only [GuardedBy.allowanceFor, howner] at hs
    simp only [GuardedBy.allowanceFor, howner']
    cases hmember : x.member with
    | none =>
      rw [hmember] at hs
      exact htypes hs
    | some member =>
      rw [hmember] at hs
      exact Allowance.lists_merge.2 ((Allowance.lists_merge.1 hs).imp htypes
        (hmore.memberAttributes member).lists_ofAttributes)

end MoreSuppressed

end TypeTable

end LockDiscipline
