import LockDiscipline.Proofs.Guards.Findings
import LockDiscipline.Proofs.Guards.Overloads
import LockDiscipline.Proofs.Names.Canonical
import LockDiscipline.Proofs.Names.LockPlace

/-! A guarded method and its calls. The body starts with the lock of the guard, named by `this` and
the parameters; a call has to hold the lock that this one becomes when the receiver of the call
stands for `this`, and each argument for the parameter it is passed to. -/

namespace LockDiscipline

variable {params : List Parameter} {receiver : Option LockPath} {args : List (Option LockPath)}

/-- `root.Passed params receiver args base`: what the body of a method with the parameters `params`
reaches from `root` lies at `base` for a caller that passes it `receiver` and `args`, if the caller
has a path for it. -/
inductive LockRoot.Passed (params : List Parameter) (receiver : Option LockPath)
    (args : List (Option LockPath)) : LockRoot → Option LockPath → Prop
  | this : Passed params receiver args .this receiver
  | var {i : Nat} {q : Parameter} {name arg} : params[i]? = some q → q.name = name →
      args[i]? = some arg → Passed params receiver args (.var name) arg
  | outer {type} : Passed params receiver args (.outer type) (some (.ofRoot (.outer type)))
  | static {type} : Passed params receiver args (.static type) (some (.static type))

namespace LockPath

/-- `entry.AtCall params receiver args required`: the lock `entry` of the body is the caller's
`required`. -/
def AtCall (entry : LockPath) (params : List Parameter) (receiver : Option LockPath)
    (args : List (Option LockPath)) (required : Option LockPath) : Prop :=
  ∃ base, entry.root.Passed params receiver args base ∧
    required = base.map fun b => ⟨b.root, b.steps ++ entry.steps⟩

variable {p entry : LockPath} {required : Option LockPath}

/-- With distinct names, a variable of the body is the parameter at one place only. -/
theorem passed_parameter_iff (hdistinct : (params.map (·.name)).Nodup) {i : Nat} {q : Parameter}
    (hq : params[i]? = some q) {base : Option LockPath} :
    LockRoot.Passed params receiver args (.var q.name) base ↔ args[i]? = some base := by
  constructor
  · intro h
    cases h with
    | @var j _ _ q' hq' hname harg =>
      have hi : (params.map (·.name))[i]? = some q.name := by rw [List.getElem?_map, hq]; rfl
      have hj : (params.map (·.name))[j]? = some q.name := by
        rw [List.getElem?_map, hq', ← hname]
        rfl
      have hlength := (List.getElem?_eq_some_iff.1 hj).1
      have hindex : j = i := (List.getElem?_inj hlength hdistinct).1 (hj.trans hi.symm)
      exact hindex ▸ harg
  · exact .var hq rfl

/-- A path for the callers of a method is the path for its body, with what the caller passes for what
the body names. -/
theorem atCall_iff_of_inBody (hdistinct : (params.map (·.name)).Nodup)
    (hargs : args.length = params.length) (hvar : ∀ name, p.root ≠ .var name)
    (hentry : p.inBody params = some entry) :
    entry.AtCall params receiver args required ↔ required = p.instantiate receiver args := by
  obtain ⟨root, steps⟩ := p
  cases root with
  | this =>
    obtain rfl : LockPath.mk .this steps = entry := by
      simpa [inBody, instantiate, LockPath.this, ofRoot] using hentry
    constructor
    · rintro ⟨_, ⟨⟩, rfl⟩
      rfl
    · rintro rfl
      exact ⟨receiver, .this, rfl⟩
  | parameter index name =>
    have hindex : index < params.length := 
      isSome_inBody_iff.1 (Option.isSome_iff_exists.2 ⟨_, hentry⟩) index name rfl
    have hq : params[index]? = some params[index] := List.getElem?_eq_getElem hindex
    have harg : args[index]? = some args[index] := List.getElem?_eq_getElem (hargs ▸ hindex)
    obtain rfl : LockPath.mk (.var params[index].name) steps = entry := by
      simpa [inBody, instantiate, hq, LockPath.var, ofRoot] using hentry
    simp only [AtCall, passed_parameter_iff hdistinct hq, harg, instantiate]
    simp
  | var name => exact absurd rfl (hvar name)
  | outer type =>
    cases hentry
    constructor
    · rintro ⟨_, ⟨⟩, rfl⟩
      rfl
    · rintro rfl
      exact ⟨_, .outer, rfl⟩
  | static type =>
    cases hentry
    constructor
    · rintro ⟨_, ⟨⟩, rfl⟩
      rfl
    · rintro rfl
      exact ⟨_, .static, rfl⟩

end LockPath

namespace TypeTable

variable {t : TypeTable} {scope : DeclScope} {owner : String} {m : MethodDecl}
  {guarded : GuardedMember}

/-- No lock of a declaration starts at a local. -/
theorem root_ne_var_of_resolve {text : String} {r : ResolvedLock}
    (h : t.resolve scope text = .ok r) (name : String) : r.path.root ≠ .var name := by
  obtain ⟨l, bound, -, hbind, -, -, rfl⟩ := resolve_eq_ok_iff.1 h
  intro hroot
  have hhas : scope.HasRoot bound.path.root := (leadsTo_of_bind hbind).has
  rw [show bound.path.root = .var name from hroot] at hhas
  exact hhas

/-- The guard that is known of a method is that of a method with as many parameters. -/
theorem exists_ownGuard_of_guarded (h : t.guarded? (.method owner m) = some guarded) :
    ∃ m', m'.arity = m.arity ∧ t.ownGuard? owner m' = some guarded := by
  cases hd : t.typeDecl? owner with
  | none => simp [guarded?, guards, MemberRef.method, hd] at h
  | some d =>
    rw [guarded?_method hd] at h
    obtain ⟨m', hm', hown⟩ := List.mem_filterMap.1 (List.mem_of_getLast? h)
    have hsame : m'.name = m.name ∧ m'.arity = m.arity := by simpa using (List.mem_filter.1 hm').2
    exact ⟨m', hsame.2, hown⟩

/-- A guarded method starts with a lock, and its calls have to hold just that lock with the receiver
for `this` and the arguments for the parameters. This holds of the method's own guard, and of the
one that is known of it; the latter is what its calls are checked against. -/
theorem entry_atCall_iff (hdistinct : (m.parameters.map (·.name)).Nodup)
    (h : t.ownGuard? owner m = some guarded ∨ t.guarded? (.method owner m) = some guarded) :
    ∃ entry, guarded.required.path.instantiate (some .this)
        (m.parameters.map fun q => some (.var q.name)) = some entry ∧
      (∀ receiver args required, args.length = m.arity →
        (entry.AtCall m.parameters receiver args required ↔
          required = guarded.required.path.instantiate receiver args)) ∧
      (t.guarded? (.method owner m) = some guarded →
        t.entryState owner m = .insert ∅ entry ∧
        ∀ owner' caller access held, access.member = .method owner m → access.args.length = m.arity →
          ((t.violation? owner' caller access held).isSome ↔
            access.isOnNewObject caller = false ∧ ∃ required,
              entry.AtCall m.parameters access.receiver access.args (some required) ∧
                required ∉ held)) := by
  obtain ⟨m', harity, hown⟩ : ∃ m', m'.arity = m.arity ∧ t.ownGuard? owner m' = some guarded := by
    rcases h with hown | hguarded
    · exact ⟨m, rfl, hown⟩
    · exact exists_ownGuard_of_guarded hguarded
  obtain ⟨_, _, lock, -, -, hresolve, rfl⟩ := guardOf_eq_ok_iff.1 hown
  obtain ⟨entry, hentry⟩ := exists_inBody_of_resolve hresolve harity
  have hcall : ∀ receiver args required, args.length = m.arity →
      (entry.AtCall m.parameters receiver args required ↔
        required = lock.path.instantiate receiver args) := fun _ _ _ hargs =>
    LockPath.atCall_iff_of_inBody hdistinct hargs (root_ne_var_of_resolve hresolve) hentry
  refine ⟨entry, hentry, hcall, fun hguarded => ⟨?_, ?_⟩⟩
  · have hseen := hentry
    rw [LockPath.inBody] at hseen
    simp only [entryState, hguarded, hseen]
  · intro owner' caller access held hmember hargs
    simp only [hcall _ _ _ hargs, Option.isSome_iff_exists, violation?_eq_some_iff, hmember, hguarded]
    constructor
    · rintro ⟨_, _, required, ⟨⟩, hnew, hrequired, hheld, -⟩
      exact ⟨hnew, required, hrequired.symm, hheld⟩
    · rintro ⟨hnew, required, hrequired, hheld⟩
      exact ⟨_, _, required, rfl, hnew, hrequired.symm, hheld, rfl⟩

end TypeTable

namespace Sample

/-- `@GuardedBy("other.lock") void m(int n, Foo other) { }` -/
def guardedByOther : MethodDecl :=
  { takesFoo with
    parameters := [⟨"n", "int"⟩, ⟨"other", "Foo"⟩]
    attributes := [⟨"GuardedBy", ["other.lock"], none⟩] }

/-- `class Foo { Lock lock; }` and a class with the guarded method. -/
def guardsParameter : TypeTable := .ofUnit
  { path := ""
    types :=
      [{ name := "Foo", base := none, fields := [⟨"lock", "Lock", false, [], none⟩], methods := []
         nested := [], attributes := [] },
       { name := "Test", base := none, fields := [], methods := [guardedByOther], nested := []
         attributes := [] }] }

/-- The guard of the method. -/
def otherGuard : GuardedMember :=
  { member := .method "Test" guardedByOther
    required :=
      { expression := .select (.name "other") "lock", text := "other.lock"
        path := ⟨.parameter 1 "other", [.field "lock"]⟩, owner := "Test", isStatic := false }
    isStatic := false }

end Sample

open Sample in
/-- Where `t` is passed for the parameter of the guard, `t.lock` is what the call has to hold. -/
theorem TypeTable.entry_atCall_iff_otherGuard :
    guardsParameter.guarded? (.method "Test" guardedByOther) = some otherGuard ∧
      guardsParameter.entryState "Test" guardedByOther =
        .insert ∅ ⟨.var "other", [.field "lock"]⟩ ∧
      (⟨.var "other", [.field "lock"]⟩ : LockPath).AtCall guardedByOther.parameters none
        [none, some (.var "t")] (some ⟨.var "t", [.field "lock"]⟩) := by
  have hguarded : guardsParameter.guarded? (.method "Test" guardedByOther) = some otherGuard := by
    decide +kernel
  obtain ⟨entry, hentry, hcall, hstart⟩ := entry_atCall_iff (by decide) (.inr hguarded)
  obtain rfl : ⟨.var "other", [.field "lock"]⟩ = entry := Option.some.inj hentry
  exact ⟨hguarded, (hstart hguarded).1, (hcall none [none, some (.var "t")] _ rfl).2 rfl⟩

end LockDiscipline
