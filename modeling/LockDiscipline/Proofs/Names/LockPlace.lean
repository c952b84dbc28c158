import LockDiscipline.Guard.UnitCheck
import LockDiscipline.Proofs.Names.Binding
import Mathlib.Data.List.Nodup

/-! A lock expression written in the body of a method means the lock that it means in the method's
annotations, seen from the body: `this` stays, and a parameter is the variable of its name. -/

namespace LockDiscipline

/-- `l.WrittenAs e`: the body's expression `e` spells the lock expression `l`. -/
inductive LockExpr.WrittenAs : LockExpr → Expr → Prop
  | this : WrittenAs .this .this
  | name {id s} : WrittenAs (.name id) (.name id s)
  | call {method s s'} : WrittenAs (.call method) (.call (.name method s) [] s')
  | select {l e id s} : WrittenAs l e → WrittenAs (.select l id) (.member e id s)
  | invoke {l e method s s'} :
      WrittenAs l e → WrittenAs (.invoke l method) (.call (.member e method s) [] s')

namespace BodyScope

variable {σ : BodyScope} {t : TypeTable} {owner id : String} {isStatic : Bool} {m : MethodDecl}
  {q : Parameter}

/-- Entering a block hides no name. -/
theorem local?_push (id : String) : σ.push.local? id = σ.local? id := by
  simp [local?, push, withLocals, Locals.find?, Locals.push]

theorem place_push (e : Expr) : σ.push.place e = σ.place e := by
  have hname (id : String) : σ.push.namePlace id = σ.namePlace id := by
    simp only [namePlace, bareField, isLocal, local?_push]
    rfl
  fun_induction σ.place e with
  | case1 => rfl
  | case2 id => exact hname id
  | case3 base id _ ih =>
    rw [place, ih]
    rfl
  | case4 => rfl
  | case5 base id _ args _ ih =>
    rw [place, ih]
    rfl
  | case6 => rfl
  | case7 _ value ih => rw [place, ih]
  | case8 e h₁ h₂ h₃ h₄ h₅ h₆ h₇ =>
    rw [place] <;> assumption

theorem local?_ofMethod (hdistinct : (m.parameters.map (·.name)).Nodup) (hq : q ∈ m.parameters) :
    (ofMethod t owner m).local? q.name = some ⟨q.name, some q.type⟩ := by
  let visible := (m.parameters.map fun q => Local.mk q.name (some q.type)).reverse
  have hlocal : (ofMethod t owner m).local? q.name = visible.find? fun x => x.name = q.name := by
    simp [local?, ofMethod, Locals.find?, visible]
  have hsome : (visible.find? fun x => x.name = q.name).isSome := by
    simpa [visible] using ⟨q, hq, rfl⟩
  obtain ⟨x, hx⟩ := Option.isSome_iff_exists.1 hsome
  have hmem : x ∈ visible := List.mem_of_find?_eq_some hx
  have hname : x.name = q.name := by simpa using List.find?_some hx
  obtain ⟨q', hq', rfl⟩ := List.mem_map.1 (List.mem_reverse.1 hmem)
  obtain rfl : q' = q := List.inj_on_of_nodup_map hdistinct hq' hq hname
  rw [hlocal, hx]

theorem local?_ofMethod_eq_none (h : ∀ q ∈ m.parameters, q.name ≠ id) :
    (ofMethod t owner m).local? id = none := by
  simpa [local?, ofMethod, Locals.find?] using h

/-- Where a member found by its simple name starts at a declaration, it starts in a body. -/
theorem memberPath_implicit {α : Type} (found : Found α) (decl : α) (isStatic : Bool) (s : LockStep)
    (params : List Parameter) :
    memberPath ⟨found.owner, decl, implicitReceiver found isStatic⟩ isStatic s =
      ((TypeTable.implicitOwner found isStatic).step s).inBody params := by
  rw [LockPath.inBody_step, memberPath, implicitReceiver, TypeTable.implicitOwner]
  cases isStatic with
  | true => simp
  | false => cases found.viaOuter <;> simp

/-- Where a member of a lock starts at a declaration, it starts in a body. -/
theorem memberPath_explicit {α : Type} {base : LockPath} {isStatic : Bool} (found : Found α)
    (decl : α) (s : LockStep) (params : List Parameter)
    (hbase : isStatic = false → base.isBareStatic = false) :
    memberPath ⟨found.owner, decl, explicitReceiver isStatic (base.inBody params)⟩ isStatic s =
      ((TypeTable.explicitOwner base found isStatic).step s).inBody params := by
  rw [LockPath.inBody_step, TypeTable.explicitOwner, memberPath, explicitReceiver]
  cases isStatic with
  | true => simp
  | false =>
    cases hlock : base.inBody params with
    | none => simp [hlock]
    | some lock => simp [hlock, LockPath.isBareStatic_inBody hlock, hbase rfl]

variable {bound base : BoundLock} {l : LockExpr} {e : Expr}

theorem place_name_of_bind (hdistinct : (m.parameters.map (·.name)).Nodup)
    (h : t.bindName ⟨owner, m.parameters, isStatic⟩ id = .ok bound) :
    (ofMethod t owner m).namePlace id = ⟨bound.path.inBody m.parameters, bound.type⟩ := by
  rcases TypeTable.bindName_eq_ok_iff.1 h with ⟨q, index, hfind, rfl⟩ | ⟨hnone, h⟩
  · have hindex : m.parameters[index]? = some q := by
      simpa using List.mem_zipIdx_iff_getElem?.1 (List.mem_of_find?_eq_some hfind)
    obtain rfl : q.name = id := by simpa using List.find?_some hfind
    rw [namePlace, local?_ofMethod hdistinct (List.mem_of_getElem? hindex)]
    simp [LockPath.inBody_parameter hindex]
  · have hlocal : (ofMethod t owner m).local? id = none := by
      refine local?_ofMethod_eq_none fun q hq hid => ?_
      obtain ⟨index, hindex⟩ := List.mem_iff_getElem?.1 hq
      have hmem : (q, index) ∈ m.parameters.zipIdx := List.mem_zipIdx_iff_getElem?.2 hindex
      simpa [hid] using List.find?_eq_none.1 hnone _ hmem
    rw [namePlace, hlocal]
    simp only [bareField, isLocal, hlocal, Option.isSome_none, Bool.false_eq_true, if_false]
    dsimp only [ofMethod]
    rcases h with ⟨found, hfield, rfl⟩ | ⟨hfield, htype, rfl⟩
    · have hpath := memberPath_implicit found found.decl found.decl.isStatic (.field id)
        m.parameters
      rw [hfield]
      simp [fieldPlace, hpath, LockPath.field]
    · rw [hfield]
      simp [htype]

/-- What a lock expression means at a method, it means in the method's body. -/
theorem place_of_bind (hdistinct : (m.parameters.map (·.name)).Nodup) (hwritten : l.WrittenAs e)
    (h : t.bind ⟨owner, m.parameters, isStatic⟩ l = .ok bound) :
    (ofMethod t owner m).place e = ⟨bound.path.inBody m.parameters, bound.type⟩ := by
  induction hwritten generalizing bound with
  | this =>
    cases h
    rfl
  | name => exact place_name_of_bind hdistinct h
  | @call method _ _ =>
    rw [TypeTable.bind] at h
    split at h
    · next found hfound =>
      cases h
      have hpath := memberPath_implicit found found.decl found.decl.isStatic (.call method)
        m.parameters
      simp [place, bareMethod, ofMethod, hfound, callPlace, hpath, LockPath.call]
    · cases h
  | @select l e id _ _ ih =>
    obtain ⟨base, hbase, h⟩ := TypeTable.bind_select_eq_ok_iff.1 h
    obtain ⟨type, found, htype, hfound, hstart, rfl⟩ := TypeTable.bindField_eq_ok_iff.1 h
    have hpath := memberPath_explicit found found.decl (.field id) m.parameters hstart
    have hfound' : (ofMethod t owner m).table.findField type id = some found := hfound
    simp [place, ih hbase, fieldOf, htype, hfound', fieldPlace, hpath, LockPath.field]
  | @invoke l e method _ _ _ ih =>
    obtain ⟨base, hbase, h⟩ := TypeTable.bind_invoke_eq_ok_iff.1 h
    obtain ⟨type, found, htype, hfound, hstart, rfl⟩ := TypeTable.bindCall_eq_ok_iff.1 h
    have hpath := memberPath_explicit found found.decl (.call method) m.parameters hstart
    have hfound' : (ofMethod t owner m).table.findMethod type method 0 = some found := hfound
    simp [place, ih hbase, methodOf, htype, hfound', callPlace, hpath, LockPath.call]

/-- In the body of a method, the text of a lock that the method's annotations name means that lock,
with the type it has there. So it is the lock held where the body starts if it guards the method,
and the lock asked for at each access through `this`, with the method's own parameters as arguments,
of a member that it guards. -/
theorem place_of_resolve {text : String} {r : ResolvedLock}
    (hdistinct : (m.parameters.map (·.name)).Nodup)
    (hresolve : t.resolve ⟨owner, m.parameters, isStatic⟩ text = .ok r)
    (hwritten : r.expression.WrittenAs e) :
    ∃ bound lock, LockExpr.read text = .ok r.expression ∧
      t.bind ⟨owner, m.parameters, isStatic⟩ r.expression = .ok bound ∧ bound.path = r.path ∧
      r.path.instantiate (some .this) (m.parameters.map fun q => some (.var q.name)) = some lock ∧
      (ofMethod t owner m).place e = ⟨some lock, bound.type⟩ ∧
      (ofMethod t owner m).push.place e = ⟨some lock, bound.type⟩ ∧
      (∀ guarded, t.guarded? (.method owner m) = some guarded → guarded.required = r →
        t.entryState owner m = OrderedSet.insert ∅ lock) ∧
      ∀ access held guarded, t.guarded? access.member = some guarded → guarded.required = r →
        access.receiver = some .this →
        access.args = (m.parameters.map fun q => some (.var q.name)) →
        access.isOnNewObject m = false →
        (t.violation? owner m access held = none ↔ lock ∈ held) := by
  obtain ⟨lock, hlock⟩ := TypeTable.exists_inBody_of_resolve hresolve rfl
  obtain ⟨l, bound, hread, hbind, -, -, rfl⟩ := TypeTable.resolve_eq_ok_iff.1 hresolve
  have hplace := place_of_bind hdistinct hwritten hbind
  rw [hlock] at hplace
  have hseen : bound.path.instantiate (some .this)
      (m.parameters.map fun q => some (.var q.name)) = some lock := hlock
  refine ⟨bound, lock, hread, hbind, rfl, hlock, hplace, by rw [place_push, hplace], ?_, ?_⟩
  · intro guarded hguarded hrequired
    simp only [TypeTable.entryState, hguarded, hrequired, hseen]
  · intro access held guarded hguarded hrequired hreceiver hargs hnew
    simp [TypeTable.violation?, hguarded, hnew, hrequired, hreceiver, hargs, hseen]

end BodyScope

namespace Sample

/-- `void m(Foo other) { }` -/
def takesFoo : MethodDecl :=
  { name := "m", isConstructor := false, parameters := [⟨"other", "Foo"⟩], returnType := none
    isStatic := false, attributes := [], body := some [], span := none }

/-- `class Foo { Lock lock; }` and `class Test { void m(Foo other) { } }` -/
def fooAndTest : TypeTable := .ofUnit
  { path := ""
    types :=
      [{ name := "Foo", base := none, fields := [⟨"lock", "Lock", false, [], none⟩], methods := []
         nested := [], attributes := [] },
       { name := "Test", base := none, fields := [], methods := [takesFoo], nested := []
         attributes := [] }] }

/-- The lock `other.lock` of `m`. -/
def otherLock : ResolvedLock :=
  { expression := .select (.name "other") "lock", text := "other.lock"
    path := ⟨.parameter 0 "other", [.field "lock"]⟩, owner := "Test", isStatic := false }

end Sample

open Sample in
theorem BodyScope.place_of_resolve_otherLock :
    fooAndTest.resolve ⟨"Test", takesFoo.parameters, false⟩ "other.lock" = .ok otherLock ∧
      (ofMethod fooAndTest "Test" takesFoo).place (.member (.name "other" none) "lock" none) =
        ⟨some ⟨.var "other", [.field "lock"]⟩, some "Lock"⟩ := by
  have hresolve : fooAndTest.resolve ⟨"Test", takesFoo.parameters, false⟩ "other.lock" =
      .ok otherLock := by decide +kernel
  have hbind : fooAndTest.bind ⟨"Test", takesFoo.parameters, false⟩ otherLock.expression =
      .ok ⟨otherLock.path, some "Lock"⟩ := by decide +kernel
  obtain ⟨bound, lock, -, hbound, -, hlock, hplace, -⟩ :=
    place_of_resolve (by decide) hresolve (.select (s := none) (.name (s := none)))
  rw [hbind] at hbound
  cases hbound
  cases hlock
  exact ⟨hresolve, hplace⟩

end LockDiscipline
