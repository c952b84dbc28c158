import LockDiscipline.Guard.UnitCheck
import LockDiscipline.Proofs.Held.Signatures

/-! What a check reads off the declarations of a unit. Guards and lock effects are read off
annotations and signatures, and a body is walked by these and by signatures, so a body plays a part
in the check of its own method only, and an attribute that is no annotation plays none. -/

namespace LockDiscipline

/-- Whether the attribute says anything about locks. -/
def Attribute.annotates (a : Attribute) : Bool := a.isGuard || a.lockEffect?.isSome

/-- The field with its annotations only. -/
def FieldDecl.annotated (f : FieldDecl) : FieldDecl :=
  { f with attributes := f.attributes.filter (·.annotates) }

/-- The method with its annotations only and without its body. -/
def MethodDecl.annotated (m : MethodDecl) : MethodDecl :=
  { m with attributes := m.attributes.filter (·.annotates), body := none }

/-- The annotated members of a type; a table lists the types nested in it apart. -/
def TypeDecl.annotated (d : TypeDecl) : TypeDecl :=
  { d with
    fields := d.fields.map FieldDecl.annotated
    methods := d.methods.map MethodDecl.annotated
    nested := []
    attributes := [] }

/-- The entry with its type's annotated members only. -/
def TypeEntry.annotated (e : TypeEntry) : TypeEntry := { e with decl := e.decl.annotated }

theorem TypeDecl.signature_annotated (d : TypeDecl) : d.annotated.signature = d.signature := by
  simp only [annotated, signature, List.map_map]
  rfl

namespace TypeTable

/-- The table with the annotated members of its types only. -/
def annotated (t : TypeTable) : TypeTable := ⟨t.entries.map TypeEntry.annotated⟩

variable {t t' : TypeTable} {owner : String} {api : LockApi}

theorem signatures_annotated : t.annotated.signatures = t.signatures := by
  rw [signatures, annotated, List.map_map, signatures]
  congr 2
  funext e
  simp only [Function.comp_apply, TypeEntry.signature, TypeEntry.annotated,
    TypeDecl.signature_annotated]

theorem typeDecl?_annotated (name : String) :
    t.annotated.typeDecl? name = (t.typeDecl? name).map TypeDecl.annotated := by
  have hfind : t.annotated.entry? name = (t.entry? name).map TypeEntry.annotated :=
    List.find?_map ..
  rw [typeDecl?, hfind, typeDecl?, Option.map_map, Option.map_map]
  rfl

theorem resolve_annotated (scope : DeclScope) (text : String) :
    t.annotated.resolve scope text = t.resolve scope text := by
  rw [← resolve_signatures, signatures_annotated, resolve_signatures]

/-- The first guard attribute is the first one among the annotations. -/
theorem guardOf_annotated (scope : DeclScope) (member : MemberRef) (attributes : List Attribute)
    (span : Option Span) :
    t.annotated.guardOf scope member (attributes.filter (·.annotates)) span =
      t.guardOf scope member attributes span := by
  have hfind : (attributes.filter (·.annotates)).find? (·.isGuard) =
      attributes.find? (·.isGuard) := by
    rw [List.find?_filter]
    congr 1
    funext a
    cases h : a.isGuard <;> simp [Attribute.annotates, h]
  simp only [guardOf, hfind, resolve_annotated]

theorem guards_annotated (owner : String) : t.annotated.guards owner = t.guards owner := by
  rw [guards, typeDecl?_annotated, guards]
  cases t.typeDecl? owner with
  | none => rfl
  | some d =>
    have hfield (f : FieldDecl) : t.annotated.fieldGuard owner f.annotated = t.fieldGuard owner f :=
      guardOf_annotated _ _ f.attributes f.span
    have hmethod (m : MethodDecl) :
        t.annotated.methodGuard owner m.annotated = t.methodGuard owner m :=
      guardOf_annotated _ (.method owner m) m.attributes m.span
    simp only [Option.map_some, TypeDecl.annotated, List.filterMap_map, Function.comp_def, hfield,
      hmethod]

/-- An attribute without an effect adds nothing to those of its method. -/
theorem methodEffects_annotated (owner : String) (m : MethodDecl) :
    t.annotated.methodEffects owner m.annotated = t.methodEffects owner m := by
  have hfilter {β : Type} (f : Attribute → List β) (hf : ∀ a, a.lockEffect? = none → f a = []) :
      (m.attributes.filter (·.annotates)).flatMap f = m.attributes.flatMap f := by
    induction m.attributes with
    | nil => rfl
    | cons a rest ih =>
      rw [List.filter_cons, List.flatMap_cons]
      split
      · rw [List.flatMap_cons, ih]
      · next hnot =>
        have hnone : a.lockEffect? = none := by
          simp only [Attribute.annotates, Bool.or_eq_true, not_or] at hnot
          exact Option.not_isSome_iff_eq_none.1 hnot.2
        rw [hf a hnone, List.nil_append, ih]
  rw [methodEffects, methodEffects]
  simp only [resolve_annotated]
  exact hfilter _ fun a ha => by rw [ha]

theorem effects_annotated (owner : String) : t.annotated.effects owner = t.effects owner := by
  rw [effects, typeDecl?_annotated, effects]
  cases t.typeDecl? owner with
  | none => rfl
  | some d =>
    simp only [Option.map_some, TypeDecl.annotated, List.flatMap_map, methodEffects_annotated]

theorem guardFindings_annotated (owner : String) :
    t.annotated.guardFindings owner = t.guardFindings owner := by
  rw [guardFindings, guards_annotated, guardFindings]

theorem effectFindings_annotated (owner : String) :
    t.annotated.effectFindings owner = t.effectFindings owner := by
  rw [effectFindings, effects_annotated, effectFindings]

theorem guarded?_annotated (member : MemberRef) :
    t.annotated.guarded? member = t.guarded? member := by
  rw [guarded?, guards_annotated, guarded?]

theorem walkContext_annotated (api : LockApi) :
    t.annotated.walkContext api = t.walkContext api := by
  have hbindings : t.annotated.bindings = t.bindings := by
    funext method
    rw [bindings, effects_annotated, bindings]
  rw [walkContext, hbindings, walkContext]

/-- A method is checked against the annotations and signatures of the table. -/
theorem checkMethod_annotated (owner : String) (m : MethodDecl) :
    t.annotated.checkMethod api owner m = t.checkMethod api owner m := by
  have hentry : t.annotated.entryState owner m = t.entryState owner m := by
    simp only [entryState, guarded?_annotated]
  have hwalk (w : WalkContext) (body : List Stmt) (held : HeldSet) :
      w.walk (.ofMethod t.annotated owner m) body held = w.walk (.ofMethod t owner m) body held := by
    have hscope : (BodyScope.ofMethod t.annotated owner m).signatures =
        (BodyScope.ofMethod t owner m).signatures := by
      simp only [BodyScope.ofMethod, BodyScope.signatures, signatures_annotated]
    rw [← WalkContext.walk_signatures, hscope, WalkContext.walk_signatures]
  rw [checkMethod, checkMethod]
  cases m.body with
  | none => rfl
  | some body =>
    simp only [walkContext_annotated, hentry, hwalk, violation?, guarded?_annotated]

section Congr

variable (h : t'.annotated = t.annotated)
include h

theorem guardFindings_congr : t'.guardFindings = t.guardFindings := by
  funext owner
  rw [← guardFindings_annotated, h, guardFindings_annotated]

theorem effectFindings_congr : t'.effectFindings = t.effectFindings := by
  funext owner
  rw [← effectFindings_annotated, h, effectFindings_annotated]

theorem checkMethod_congr : t'.checkMethod api = t.checkMethod api := by
  funext owner m
  rw [← checkMethod_annotated, h, checkMethod_annotated]

/-- A type is checked against the annotations and signatures of the table. -/
theorem checkType_congr : t'.checkType api = t.checkType api := by
  funext d
  rw [checkType, guardFindings_congr h, effectFindings_congr h, checkMethod_congr h, checkType]

end Congr

end TypeTable

end LockDiscipline
