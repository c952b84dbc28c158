import LockDiscipline.Proofs.Guards.Statics
import LockDiscipline.Proofs.Names.LockPlace

/-! Locks reached through a receiver. A guard speaks of the object of its member as `this`; written
with a receiver in the place of `this` it means the same lock of that object, so holding what is
written there is what an access through the receiver asks for. -/

namespace LockDiscipline

/-- `l.Through r e`: the expression `e` spells the lock expression `l` with the receiver `r` for
`this`, and before a first name or call. -/
inductive LockExpr.Through (r : Expr) : LockExpr → Expr → Prop
  | this : Through r .this r
  | name {id : String} {s : Option Span} : Through r (.name id) (.member r id s)
  | call {method : String} {s s' : Option Span} :
      Through r (.call method) (.call (.member r method s) [] s')
  | select {l : LockExpr} {e : Expr} {id : String} {s : Option Span} :
      Through r l e → Through r (.select l id) (.member e id s)
  | invoke {l : LockExpr} {e : Expr} {method : String} {s s' : Option Span} :
      Through r l e → Through r (.invoke l method) (.call (.member e method s) [] s')

namespace TypeTable

variable {α : Type} {found : Found α} {isStatic : Bool} {base : LockPath}

/-- A member that is found at `this` by its simple name is no static one and none of a type around. -/
theorem implicitOwner_root_this (h : (implicitOwner found isStatic).root = .this) :
    isStatic = false ∧ found.viaOuter = none ∧ implicitOwner found isStatic = .this := by
  rw [implicitOwner] at h ⊢
  cases isStatic with
  | true => cases h
  | false =>
    cases hvia : found.viaOuter with
    | none => exact ⟨rfl, rfl, rfl⟩
    | some outer =>
      rw [hvia] at h
      cases h

theorem explicitOwner_root_this (h : (explicitOwner base found isStatic).root = .this) :
    isStatic = false ∧ base.root = .this ∧ explicitOwner base found isStatic = base := by
  cases isStatic with
  | true => cases h
  | false => exact ⟨rfl, h, rfl⟩

end TypeTable

namespace BodyScope

variable {σ : BodyScope} {q : LockPath} {r e : Expr} {T id : String} {isStatic : Bool}
  {l : LockExpr} {bound : BoundLock}

section Object

variable {b : Expr} {type : String} {base : LockPath}

/-- Where a member that is no static one is found from an object. -/
private theorem memberPath_object {α : Type} {owner : String} {decl : α} {s : LockStep}
    (hobject : q.isBareStatic = false) (hroot : base.root = .this) :
    memberPath ⟨owner, decl, explicitReceiver false (base.instantiate (some q) [])⟩ false s =
      (base.step s).instantiate (some q) [] := by
  have hseen : base.instantiate (some q) [] = some ⟨q.root, q.steps ++ base.steps⟩ := by
    rw [LockPath.instantiate, hroot]
    rfl
  have hbare : LockPath.isBareStatic ⟨q.root, q.steps ++ base.steps⟩ = false := by
    obtain ⟨root, steps⟩ := q
    cases root with
    | static =>
      cases steps with
      | nil => cases hobject
      | cons => rfl
    | _ => rfl
  rw [LockPath.instantiate_step, hseen]
  simp [memberPath, explicitReceiver, hbare]

private theorem place_field_of_object {found : Found FieldDecl} (s : Option Span)
    (hobject : q.isBareStatic = false) (hroot : base.root = .this)
    (hpath : (σ.place b).path = base.instantiate (some q) []) (htype : (σ.place b).type = some type)
    (hfound : σ.table.findField type id = some found) (hstatic : found.decl.isStatic = false) :
    σ.place (.member b id s) =
      ⟨(base.field id).instantiate (some q) [], some found.decl.type⟩ := by
  have hsite : σ.fieldOf (σ.place b) id = some ⟨found.owner, found.decl,
      explicitReceiver found.decl.isStatic (base.instantiate (some q) [])⟩ :=
    fieldOf_eq_some_iff.2 ⟨type, found, htype, hfound, by rw [hpath]⟩
  rw [place, hsite, fieldPlace, hstatic, memberPath_object hobject hroot]
  rfl

private theorem place_call_of_object {found : Found MethodDecl} (s s' : Option Span)
    (hobject : q.isBareStatic = false) (hroot : base.root = .this)
    (hpath : (σ.place b).path = base.instantiate (some q) []) (htype : (σ.place b).type = some type)
    (hfound : σ.table.findMethod type id 0 = some found) (hstatic : found.decl.isStatic = false) :
    σ.place (.call (.member b id s) [] s') =
      ⟨(base.call id).instantiate (some q) [], found.decl.returnType⟩ := by
  have hsite : σ.methodOf (σ.place b) id 0 = some ⟨found.owner, found.decl,
      explicitReceiver found.decl.isStatic (base.instantiate (some q) [])⟩ :=
    methodOf_eq_some_iff.2 ⟨type, found, htype, hfound, by rw [hpath]⟩
  rw [place, List.length_nil, hsite, callPlace, if_pos rfl, hstatic, memberPath_object hobject hroot]
  rfl

end Object

/-- A lock expression that starts at `this` means in a body, spelled through an object of the type
it is bound in, what it is bound to with that object for `this`. -/
theorem place_of_through (hpath : (σ.place r).path = some q) (hobject : q.isBareStatic = false)
    (htype : (σ.place r).type = some T) (hthrough : l.Through r e)
    (hbind : σ.table.bind ⟨T, [], isStatic⟩ l = .ok bound) (hroot : bound.path.root = .this) :
    σ.place e = ⟨bound.path.instantiate (some q) [], bound.type⟩ := by
  have hthis : (σ.place r).path = LockPath.this.instantiate (some q) [] := by
    rw [hpath]
    exact congrArg (fun steps => some (LockPath.mk q.root steps)) (List.append_nil _).symm
  induction hthrough generalizing bound with
  | this =>
    cases hbind
    rw [← hthis, ← htype]
  | @name id s =>
    rcases TypeTable.bindName_eq_ok_iff.1 hbind with
      ⟨_, _, hparameter, -⟩ | ⟨-, ⟨found, hfound, rfl⟩ | ⟨-, -, rfl⟩⟩
    · cases hparameter
    · obtain ⟨hstatic, hvia, howner⟩ := TypeTable.implicitOwner_root_this hroot
      have hfind := TypeTable.findField_of_inScope hfound
      rw [hvia] at hfind
      have hplace := place_field_of_object s hobject rfl hthis htype hfind hstatic
      rw [howner]
      exact hplace
    · cases hroot
  | @call method s s' =>
    obtain ⟨found, hfound, rfl⟩ := TypeTable.bind_call_eq_ok_iff.1 hbind
    obtain ⟨hstatic, hvia, howner⟩ := TypeTable.implicitOwner_root_this hroot
    have hfind := TypeTable.findMethod_of_inScope hfound
    rw [hvia] at hfind
    have hplace := place_call_of_object s s' hobject rfl hthis htype hfind hstatic
    rw [howner]
    exact hplace
  | @select l e id s _ ih =>
    obtain ⟨base, hbase, hbind⟩ := TypeTable.bind_select_eq_ok_iff.1 hbind
    obtain ⟨type, found, hbasetype, hfound, -, rfl⟩ := TypeTable.bindField_eq_ok_iff.1 hbind
    obtain ⟨hstatic, hroot, howner⟩ := TypeTable.explicitOwner_root_this hroot
    have hplace := ih hbase hroot
    rw [howner]
    refine place_field_of_object s hobject hroot ?_ ?_ hfound hstatic
    · rw [hplace]
    · rw [hplace, hbasetype]
  | @invoke l e method s s' _ ih =>
    obtain ⟨base, hbase, hbind⟩ := TypeTable.bind_invoke_eq_ok_iff.1 hbind
    obtain ⟨type, found, hbasetype, hfound, -, rfl⟩ := TypeTable.bindCall_eq_ok_iff.1 hbind
    obtain ⟨hstatic, hroot, howner⟩ := TypeTable.explicitOwner_root_this hroot
    have hplace := ih hbase hroot
    rw [howner]
    refine place_call_of_object s s' hobject hroot ?_ ?_ hfound hstatic
    · rw [hplace]
    · rw [hplace, hbasetype]

/-- A guard that starts at `this`, written with an object of its type for `this`, means the lock that
an access through that object requires. So a field that it guards may be accessed there exactly if
what is written is held. -/
theorem place_of_receiver {g : String} {lock : ResolvedLock}
    (hresolve : σ.table.resolve ⟨T, [], isStatic⟩ g = .ok lock) (hroot : lock.path.root = .this)
    (hpath : (σ.place r).path = some q) (hobject : q.isBareStatic = false)
    (htype : (σ.place r).type = some T) (hthrough : lock.expression.Through r e) :
    LockExpr.read g = .ok lock.expression ∧
      (σ.place e).path = lock.path.instantiate (some q) [] ∧
      (σ.place e).path = some ⟨q.root, q.steps ++ lock.path.steps⟩ ∧
      ∀ x span site guarded, σ.fieldSite (some r) x = some site → site.owner = T →
        σ.table.fieldGuard T site.decl = some (.ok guarded) →
        σ.table.guarded? (.field T x) = some guarded → guarded.required = lock →
        let access : Access := ⟨.field T x, some q, [], false, span⟩
        (∀ (w : WalkContext) (held : HeldSet), (w.expr σ (.member r x span) held).trace =
            (w.expr σ r held).trace ++ .ofAccess access (w.expr σ r held).held) ∧
          σ.table.required? access = (σ.place e).path ∧
          ∀ owner m held, access.isOnNewObject m = false →
            (σ.table.violation? owner m access held = none ↔
              ∃ p, (σ.place e).path = some p ∧ p ∈ held) := by
  obtain ⟨l, bound, hread, hbind, -, -, rfl⟩ := TypeTable.resolve_eq_ok_iff.1 hresolve
  have hseen : bound.path.instantiate (some q) [] = some ⟨q.root, q.steps ++ bound.path.steps⟩ := by
    rw [LockPath.instantiate, hroot]
    rfl
  have hplace : (σ.place e).path = bound.path.instantiate (some q) [] := by
    rw [place_of_through hpath hobject htype hthrough hbind hroot]
  refine ⟨hread, hplace, hplace.trans hseen, ?_⟩
  intro x span site guarded hsite howner hguard hguarded hrequired access
  have hstatic : site.decl.isStatic = false := by
    -- A static field has no guard that starts at `this`.
    have hown : (σ.table.fieldGuard T site.decl).bind Except.toOption = some guarded := by
      rw [hguard]
      rfl
    obtain ⟨_, _, lock, -, -, hlock, rfl⟩ := TypeTable.guardOf_eq_ok_iff.1 hown
    refine Bool.eq_false_iff.2 fun hstatic => ?_
    obtain rfl : lock = _ := hrequired
    rcases TypeTable.static_of_resolve hlock hstatic with ⟨_, _, -, h⟩ | ⟨_, _, _, -, h⟩
    · cases hroot.symm.trans (congrArg LockPath.root h)
    · cases hroot.symm.trans (congrArg LockPath.root h)
  have hreceiver : site.receiver = some q := by
    have hfrom : site.receiver = explicitReceiver site.decl.isStatic (σ.place r).path := by
      obtain ⟨_, _, -, -, rfl⟩ := fieldOf_eq_some_iff.1 hsite
      rfl
    rw [hfrom, hstatic, hpath]
    simp [explicitReceiver, hobject]
  have hasked : σ.table.required? access = (σ.place e).path := by
    simp [TypeTable.required?, access, hguarded, hrequired, hplace]
  refine ⟨fun w held => ?_, hasked, fun owner m held hnew => ?_⟩
  · have hfield : σ.fieldOf (σ.place r) x = some site := hsite
    rw [WalkContext.expr, hfield]
    simp only [WalkContext.fieldTrace, howner, hreceiver, hstatic, access]
  · rw [hplace, hseen]
    simp [TypeTable.violation?, access, hguarded, hnew, hrequired, hseen]

end BodyScope

namespace Sample

/-- `@GuardedBy("lock") int x;` -/
def guardedX : FieldDecl := ⟨"x", "int", false, [⟨"GuardedBy", ["lock"], none⟩], none⟩

/-- `class Foo { Lock lock; @GuardedBy("lock") int x; }` and `class Holder { Foo foo; }` -/
def fooInHolder : TypeTable := .ofUnit
  { path := ""
    types :=
      [{ name := "Foo", base := none, fields := [⟨"lock", "Lock", false, [], none⟩, guardedX]
         methods := [], nested := [], attributes := [] },
       { name := "Holder", base := none, fields := [⟨"foo", "Foo", false, [], none⟩], methods := []
         nested := [], attributes := [] }] }

/-- The lock `lock` of `Foo`. -/
def fooLock : ResolvedLock :=
  { expression := .name "lock", text := "lock", path := ⟨.this, [.field "lock"]⟩, owner := "Foo"
    isStatic := false }

/-- A body in `Holder` with the local `Holder h`. -/
def withHolder : BodyScope := ⟨fooInHolder, "Holder", [⟨"h", some "Holder"⟩], []⟩

end Sample

open Sample in
theorem BodyScope.place_of_receiver_holder :
    let receiver : Expr := .member (.name "h" none) "foo" none
    let required : LockPath := ⟨.var "h", [.field "foo", .field "lock"]⟩
    (withHolder.place (.member receiver "lock" none)).path = some required ∧
      fooInHolder.required? ⟨.field "Foo" "x", some ⟨.var "h", [.field "foo"]⟩, [], false, none⟩ =
        some required := by
  intro receiver required
  have hresolve : withHolder.table.resolve ⟨"Foo", [], false⟩ "lock" = .ok fooLock := by
    decide +kernel
  have hplace : withHolder.place receiver = ⟨some ⟨.var "h", [.field "foo"]⟩, some "Foo"⟩ := by
    decide +kernel
  have hsite : withHolder.fieldSite (some receiver) "x" =
      some ⟨"Foo", guardedX, some ⟨.var "h", [.field "foo"]⟩⟩ := by cbv
  have hguard : withHolder.table.fieldGuard "Foo" guardedX =
      some (.ok ⟨.field "Foo" "x", fooLock, false⟩) := by decide +kernel
  have hguarded : withHolder.table.guarded? (.field "Foo" "x") =
      some ⟨.field "Foo" "x", fooLock, false⟩ := by decide +kernel
  obtain ⟨-, -, hpath, haccess⟩ := place_of_receiver hresolve rfl (congrArg Place.path hplace) rfl
    (congrArg Place.type hplace) (.name (s := none))
  have hasked := (haccess "x" none _ _ hsite rfl hguard hguarded rfl).2.1
  exact ⟨hpath, hasked.trans hpath⟩

end LockDiscipline
