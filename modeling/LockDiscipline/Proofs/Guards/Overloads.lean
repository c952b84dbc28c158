import LockDiscipline.Guard.UnitCheck
import LockDiscipline.Proofs.Names.Binding
import LockDiscipline.Proofs.Names.Signature

/-! Methods of one type that share a name and an arity. What is known of such a method by its name
is the guard of the last of them that has one, and the lock effects of all of them; it is the
method's own only as far as the others add nothing. -/

namespace LockDiscipline

/-- The methods of the type with the name and the arity of `m`, in the order of declaration. -/
def TypeDecl.overloads (d : TypeDecl) (m : MethodDecl) : List MethodDecl :=
  d.methods.filter fun m' => m'.name = m.name ∧ m'.arity = m.arity

namespace TypeTable

/-- The guard that a method's own attributes give it, if they name a lock. -/
def ownGuard? (t : TypeTable) (owner : String) (m : MethodDecl) : Option GuardedMember :=
  (t.methodGuard owner m).bind Except.toOption

/-- The locks that a method's own attributes say it takes and frees, in the order of the attributes
and of the texts that they list. -/
def ownBindings (t : TypeTable) (owner : String) (m : MethodDecl) : List LockBinding :=
  m.attributes.flatMap fun a =>
    match a.lockEffect? with
    | none => []
    | some effect => a.lockTexts.filterMap fun text =>
      (t.resolve ⟨owner, m.parameters, m.isStatic⟩ text).toOption.map fun lock =>
        ⟨.method owner m, lock, effect⟩

variable {t : TypeTable} {owner : String} {d : TypeDecl} {m : MethodDecl}

private theorem method_eq_iff {m' : MethodDecl} :
    MemberRef.method owner m' = .method owner m ↔ m'.name = m.name ∧ m'.arity = m.arity := by
  simp [MemberRef.method]

/-- A guard is the lock that the only text of the first guard attribute names. -/
theorem guardOf_eq_ok_iff {scope : DeclScope} {member : MemberRef} {attributes : List Attribute}
    {span : Option Span} {guarded : GuardedMember} :
    (t.guardOf scope member attributes span).bind Except.toOption = some guarded ↔
      ∃ a text lock, attributes.find? (·.isGuard) = some a ∧ a.lockTexts = [text] ∧
        t.resolve scope text = .ok lock ∧ ⟨member, lock, scope.isStatic⟩ = guarded := by
  rw [guardOf]
  cases attributes.find? (·.isGuard) with
  | none => simp
  | some a =>
    rcases htexts : a.lockTexts with _ | ⟨text, _ | ⟨text', texts⟩⟩
    · simp [htexts, Except.toOption]
    · cases hlock : t.resolve scope text <;> simp [htexts, hlock, Except.toOption]
    · simp [htexts, Except.toOption]

theorem member_of_guardOf {scope : DeclScope} {member : MemberRef} {attributes : List Attribute}
    {span : Option Span} {guarded : GuardedMember}
    (h : (t.guardOf scope member attributes span).bind Except.toOption = some guarded) :
    guarded.member = member := by
  obtain ⟨_, _, _, _, _, _, rfl⟩ := guardOf_eq_ok_iff.1 h
  rfl

/-- Of the methods with one name and arity, the last that has a guard counts. -/
theorem guarded?_method (h : t.typeDecl? owner = some d) (m : MethodDecl) :
    t.guarded? (.method owner m) = ((d.overloads m).filterMap (t.ownGuard? owner)).getLast? := by
  have hfields : (d.fields.filterMap fun f => ((t.fieldGuard owner f).bind Except.toOption).filter
      fun g => g.member = MemberRef.method owner m) = [] := by
    refine List.filterMap_eq_nil_iff.2 fun f _ => Option.filter_eq_none_iff.2 fun g hg => ?_
    rw [member_of_guardOf hg]
    simp [MemberRef.field, MemberRef.method]
  have hmethods (m' : MethodDecl) :
      ((t.methodGuard owner m').bind Except.toOption).filter
          (fun g => g.member = MemberRef.method owner m) =
        if m'.name = m.name ∧ m'.arity = m.arity then t.ownGuard? owner m' else none := by
    rw [← ownGuard?]
    cases hown : t.ownGuard? owner m' with
    | none => rw [Option.filter_none, ite_self]
    | some g =>
      have hmember : g.member = .method owner m' := member_of_guardOf hown
      rw [Option.filter_some, hmember]
      simp only [method_eq_iff, decide_eq_true_eq]
  have hguards : ((t.guards owner).filterMap Except.toOption).filter
      (fun g => g.member = MemberRef.method owner m) =
        (d.overloads m).filterMap (t.ownGuard? owner) := by
    simp only [guards, h, List.filterMap_append, List.filterMap_filterMap, List.filter_append,
      List.filter_filterMap, hfields, List.nil_append, hmethods]
    simp only [TypeDecl.overloads, List.filterMap_filter, decide_eq_true_eq]
  rw [← hguards, guarded?, ← List.head?_filter, List.filter_reverse, List.head?_reverse]
  rfl

theorem filterMap_methodEffects (owner : String) (m : MethodDecl) :
    (t.methodEffects owner m).filterMap Except.toOption = t.ownBindings owner m := by
  rw [methodEffects, ownBindings, List.filterMap_flatMap]
  congr 1
  funext a
  cases a.lockEffect? with
  | none => rfl
  | some effect =>
    simp only [List.filterMap_map]
    congr 1
    funext text
    rw [Function.comp_apply]
    cases t.resolve ⟨owner, m.parameters, m.isStatic⟩ text <;> rfl

theorem method_of_mem_ownBindings {b : LockBinding} (h : b ∈ t.ownBindings owner m) :
    b.method = .method owner m := by
  obtain ⟨a, -, ha⟩ := List.mem_flatMap.1 h
  split at ha
  · cases ha
  · obtain ⟨text, -, htext⟩ := List.mem_filterMap.1 ha
    obtain ⟨lock, -, rfl⟩ := Option.map_eq_some_iff.1 htext
    rfl

/-- Of the methods with one name and arity, all take and free what each of them lists. -/
theorem bindings_method (h : t.typeDecl? owner = some d) (m : MethodDecl) :
    t.bindings (.method owner m) = (d.overloads m).flatMap (t.ownBindings owner) := by
  have hown (m' : MethodDecl) :
      (t.ownBindings owner m').filter (fun b => b.method = MemberRef.method owner m) =
        if m'.name = m.name ∧ m'.arity = m.arity then t.ownBindings owner m' else [] := by
    split
    · next heq =>
      refine List.filter_eq_self.2 fun b hb => ?_
      rw [method_of_mem_ownBindings hb, method_eq_iff.2 heq, decide_eq_true_eq]
    · next hne =>
      refine List.filter_eq_nil_iff.2 fun b hb => ?_
      rw [method_of_mem_ownBindings hb, decide_eq_true_eq, method_eq_iff]
      exact hne
  have hoverloads : (d.overloads m).flatMap (t.ownBindings owner) = d.methods.flatMap fun m' =>
      if m'.name = m.name ∧ m'.arity = m.arity then t.ownBindings owner m' else [] := by
    rw [TypeDecl.overloads]
    induction d.methods with
    | nil => rfl
    | cons m' rest ih =>
      rw [List.flatMap_cons, ← ih, List.filter_cons]
      split <;> simp_all
  have howner : (MemberRef.method owner m).owner = owner := rfl
  simp only [bindings, howner, effects, h, List.filterMap_flatMap, List.filter_flatMap,
    filterMap_methodEffects, hown, hoverloads]

theorem ownGuard?_signatures : t.signatures.ownGuard? owner m = t.ownGuard? owner m := by
  rw [ownGuard?, methodGuard_signatures, ownGuard?]

/-- `t.OwnEntry owner m held`: `held` is the lock of the guard of `m` itself, as the body of `m`
sees it, or no lock if `m` has no guard attribute or one that names no lock. -/
def OwnEntry (t : TypeTable) (owner : String) (m : MethodDecl) (held : HeldSet) : Prop :=
  match t.ownGuard? owner m with
  | some own => ∃ lock, own.required.path.inBody m.parameters = some lock ∧ held = .insert ∅ lock
  | none => held = ∅

private theorem insert_empty_inj {a b : LockPath} :
    (OrderedSet.insert ∅ a : HeldSet) = .insert ∅ b ↔ a = b := by
  refine ⟨fun h => ?_, fun h => h ▸ rfl⟩
  have hmem : a ∈ (OrderedSet.insert ∅ b : HeldSet) := h ▸ OrderedSet.mem_insert.2 (.inl rfl)
  simpa using hmem

private theorem insert_empty_ne {a : LockPath} : (OrderedSet.insert ∅ a : HeldSet) ≠ ∅ := fun h =>
  OrderedSet.not_mem_empty (h ▸ OrderedSet.mem_insert.2 (.inl rfl) : a ∈ (∅ : HeldSet))

/-- A body starts with the lock of its own method's guard, whatever the attributes of the others,
exactly when the last method with the name and arity that has a guard names that same lock. -/
theorem ownEntry_entryState_iff (hd : t.typeDecl? owner = some d) (hm : m ∈ d.methods) :
    t.signatures.OwnEntry owner m (t.entryState owner m) ↔
      ∀ last, ((d.overloads m).filterMap (t.ownGuard? owner)).getLast? = some last →
        ∃ own, t.ownGuard? owner m = some own ∧
          own.required.path.inBody m.parameters = last.required.path.inBody m.parameters := by
  rw [OwnEntry, ownGuard?_signatures, entryState, guarded?_method hd]
  cases hlast : ((d.overloads m).filterMap (t.ownGuard? owner)).getLast? with
  | none =>
    have hself : m ∈ d.overloads m := List.mem_filter.2 ⟨hm, by simp⟩
    have hown : t.ownGuard? owner m = none :=
      List.filterMap_eq_nil_iff.1 (List.getLast?_eq_none_iff.1 hlast) m hself
    simp [hown]
  | some last =>
    obtain ⟨m', hm', hguard⟩ := List.mem_filterMap.1 (List.mem_of_getLast? hlast)
    have hsame : m'.name = m.name ∧ m'.arity = m.arity := by simpa using (List.mem_filter.1 hm').2
    obtain ⟨_, _, _, _, _, hresolve, rfl⟩ := guardOf_eq_ok_iff.1 hguard
    obtain ⟨lock, hlock⟩ := exists_inBody_of_resolve hresolve hsame.2
    have hseen := hlock
    rw [LockPath.inBody] at hseen
    simp only [hseen, Option.some.injEq, forall_eq', hlock]
    cases t.ownGuard? owner m with
    | none => simp [insert_empty_ne]
    | some own => simp [insert_empty_inj]

end TypeTable

namespace BodyScope

variable {σ : BodyScope} {base : Option Expr} {id : String} {arity : Nat}
  {site : MemberSite MethodDecl}

theorem findMethod_of_methodSite (h : σ.methodSite base id arity = some site) :
    ∃ type via, σ.table.findMethod type id arity = some ⟨site.owner, site.decl, via⟩ := by
  cases base with
  | none =>
    obtain ⟨found, hfound, rfl⟩ := bareMethod_eq_some_iff.1 h
    exact TypeTable.inScope_eq_some hfound
  | some e =>
    obtain ⟨type, found, -, hfound, rfl⟩ := methodOf_eq_some_iff.1 h
    exact ⟨type, found.viaOuter, hfound⟩

/-- A call is taken to the first method with the name and arity. Its guard is the method's own
exactly when the last of the others that has a guard names the same lock, and its lock effects are
the method's own exactly when the others have none. -/
theorem methodSite_own_iff (h : σ.methodSite base id arity = some site) :
    ∃ d others, σ.table.typeDecl? site.owner = some d ∧
      site.decl.name = id ∧ site.decl.arity = arity ∧
      d.overloads site.decl = site.decl :: others ∧
      ((σ.table.guarded? (.method site.owner site.decl)).map (·.required) =
          (σ.table.ownGuard? site.owner site.decl).map (·.required) ↔
        ∀ last, (others.filterMap (σ.table.ownGuard? site.owner)).getLast? = some last →
          ∃ own, σ.table.ownGuard? site.owner site.decl = some own ∧
            own.required = last.required) ∧
      ∀ api, (σ.table.walkContext api).bindings (.method site.owner site.decl) =
          σ.table.ownBindings site.owner site.decl ↔
        ∀ m ∈ others, σ.table.ownBindings site.owner m = [] := by
  obtain ⟨type, via, hfound⟩ := findMethod_of_methodSite h
  obtain ⟨d, hd, hfind⟩ := TypeTable.findMethod_eq_some hfound
  have hd : σ.table.typeDecl? site.owner = some d := hd
  obtain ⟨hname, harity⟩ : site.decl.name = id ∧ site.decl.arity = arity := by
    simpa using List.find?_some hfind
  subst hname harity
  obtain ⟨others, hothers⟩ : ∃ others, d.overloads site.decl = site.decl :: others := by
    rw [← List.head?_filter] at hfind
    exact List.head?_eq_some_iff.1 hfind
  refine ⟨d, others, hd, rfl, rfl, hothers, ?_, fun api => ?_⟩
  · rw [TypeTable.guarded?_method hd, hothers, List.filterMap_cons]
    cases hlast : (others.filterMap (σ.table.ownGuard? site.owner)).getLast? with
    | none =>
      rw [List.getLast?_eq_none_iff.1 hlast]
      cases σ.table.ownGuard? site.owner site.decl <;> simp
    | some last =>
      cases σ.table.ownGuard? site.owner site.decl with
      | none => simp [hlast]
      | some own => simp [List.getLast?_cons, hlast, eq_comm]
  · change σ.table.bindings (.method site.owner site.decl) = _ ↔ _
    rw [TypeTable.bindings_method hd, hothers, List.flatMap_cons]
    simp

end BodyScope

namespace Counter

/-- `void m(int p) { }` -/
def plainOverload : MethodDecl :=
  { name := "m", isConstructor := false, parameters := [⟨"p", "int"⟩], returnType := none
    isStatic := false, attributes := [], body := some [], span := none }

/-- `@GuardedBy("a") @AcquireLock("a") void m(String p) { }` -/
def lockedOverload : MethodDecl :=
  { plainOverload with
    parameters := [⟨"p", "String"⟩]
    attributes := [⟨"GuardedBy", ["a"], none⟩, ⟨"AcquireLock", ["a"], none⟩] }

/-- `@GuardedBy("a") @AcquireLock("a") void n() { }` -/
def lockedAlone : MethodDecl := { lockedOverload with name := "n", parameters := [] }

/-- A class with a field `Lock a` and these methods. -/
def overloaded : TypeDecl :=
  { name := "Test", base := none, fields := [⟨"a", "Lock", false, [], none⟩]
    methods := [plainOverload, lockedOverload, lockedAlone], nested := [], attributes := [] }

def overloadTable : TypeTable := .ofUnit { path := "", types := [overloaded] }

theorem typeDecl?_overloaded : overloadTable.typeDecl? "Test" = some overloaded := by cbv

/-- The lock `a` of the class. -/
def lockA : ResolvedLock :=
  { expression := .name "a", text := "a", path := ⟨.this, [.field "a"]⟩, owner := "Test"
    isStatic := false }

end Counter

open Counter

theorem TypeTable.ownEntry_entryState_lockedOverload :
    overloadTable.signatures.OwnEntry "Test" lockedOverload
      (overloadTable.entryState "Test" lockedOverload) := by
  have hmem : lockedOverload ∈ overloaded.methods := .tail _ (.head _)
  refine (ownEntry_entryState_iff typeDecl?_overloaded hmem).2 fun last hlast => ?_
  have hlast' : ((overloaded.overloads lockedOverload).filterMap
      (overloadTable.ownGuard? "Test")).getLast? =
        overloadTable.ownGuard? "Test" lockedOverload := by decide +kernel
  exact ⟨last, by rw [← hlast', hlast], rfl⟩

theorem BodyScope.methodSite_own_lockedAlone :
    (overloadTable.guarded? (.method "Test" lockedAlone)).map (·.required) = some lockA ∧
      (overloadTable.walkContext {}).bindings (.method "Test" lockedAlone) =
        [⟨.method "Test" lockedAlone, lockA, .acquire⟩] := by
  have hsite : (ofMethod overloadTable "Test" plainOverload).methodSite none "n" 0 =
      some ⟨"Test", lockedAlone, some .this⟩ := by cbv
  obtain ⟨d, others, hd, -, -, hothers, hguard, heffects⟩ := methodSite_own_iff hsite
  obtain rfl : overloaded = d := Option.some.inj (typeDecl?_overloaded.symm.trans hd)
  have hsole : overloaded.overloads lockedAlone = [lockedAlone] := rfl
  obtain rfl : [] = others := (List.cons.inj (hsole.symm.trans hothers)).2
  have hown : (overloadTable.ownGuard? "Test" lockedAlone).map (·.required) = some lockA := by
    decide +kernel
  have hbindings : overloadTable.ownBindings "Test" lockedAlone =
      [⟨.method "Test" lockedAlone, lockA, .acquire⟩] := by decide +kernel
  exact ⟨(hguard.2 (by simp)).trans hown, ((heffects {}).2 (by simp)).trans hbindings⟩

namespace Counter

/-- A method without a guard starts with the lock of the other method. -/
theorem not_ownEntry_plainOverload :
    overloadTable.typeDecl? "Test" = some overloaded ∧ plainOverload ∈ overloaded.methods ∧
      overloadTable.entryState "Test" plainOverload = .insert ∅ ⟨.this, [.field "a"]⟩ ∧
      ¬ overloadTable.signatures.OwnEntry "Test" plainOverload
        (overloadTable.entryState "Test" plainOverload) := by
  have hentry : overloadTable.entryState "Test" plainOverload =
      .insert ∅ ⟨.this, [.field "a"]⟩ := by decide +kernel
  have hown : overloadTable.signatures.ownGuard? "Test" plainOverload = none := by decide +kernel
  refine ⟨typeDecl?_overloaded, .head _, hentry, fun h => ?_⟩
  rw [TypeTable.OwnEntry, hown, hentry] at h
  revert h
  decide

/-- A call of a method without annotations is held to the guard of the other method, and takes the
lock that the other method takes. -/
theorem call_plainOverload :
    (BodyScope.ofMethod overloadTable "Test" lockedAlone).methodSite none "m" 1 =
        some ⟨"Test", plainOverload, some .this⟩ ∧
      overloadTable.guarded? (.method "Test" plainOverload) =
        some ⟨.method "Test" plainOverload, lockA, false⟩ ∧
      overloadTable.ownGuard? "Test" plainOverload = none ∧
      overloadTable.bindings (.method "Test" plainOverload) =
        [⟨.method "Test" plainOverload, lockA, .acquire⟩] ∧
      overloadTable.ownBindings "Test" plainOverload = [] := by
  refine ⟨by cbv, by decide +kernel, by decide +kernel, by decide +kernel, by decide +kernel⟩

end Counter

end LockDiscipline
