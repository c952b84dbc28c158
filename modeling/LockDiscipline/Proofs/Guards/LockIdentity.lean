import LockDiscipline.Proofs.Guards.Statics
import LockDiscipline.Proofs.Names.Selection

/-! Which declarations a held lock was found through. An access is approved by a lock of the path
that its guard requires; a path has names only, so the lock that a body takes need not be found
through the fields that the guard names. -/

namespace LockDiscipline

/-- `l.SelectsFields t owner fields type`: at a field of `owner`, the lock expression `l` is `this`
or selects these instance fields, each given with the type that declares it, and leads to an object
of this type. -/
inductive LockExpr.SelectsFields (t : TypeTable) (owner : String) :
    LockExpr → List (String × FieldDecl) → String → Prop
  | this : SelectsFields t owner .this [] owner
  | name {id found} :
      t.findFieldInScope owner id = some found → found.decl.isStatic = false →
        SelectsFields t owner (.name id) [(found.owner, found.decl)] found.decl.type
  | select {l fields type id found} :
      SelectsFields t owner l fields type → t.findField type id = some found →
      found.decl.isStatic = false →
        SelectsFields t owner (.select l id) (fields ++ [(found.owner, found.decl)])
          found.decl.type

section Bind

open TypeTable

variable {t : TypeTable} {owner type : String} {fields : List (String × FieldDecl)} {l : LockExpr}
  {bound : BoundLock}

/-- What such a lock expression selects is what its path selects, from the object itself or from one
around it. -/
theorem LockExpr.SelectsFields.of_bind {isStatic : Bool} (locals : Locals)
    (h : l.SelectsFields t owner fields type) (hbind : t.bind ⟨owner, [], isStatic⟩ l = .ok bound) :
    (bound.path.root = .this ∨ ∃ outer, bound.path.root = .outer outer) ∧
      bound.type = some type ∧ (BodyScope.mk t owner locals).typeAt bound.path = some type ∧
      (BodyScope.mk t owner locals).selectedAt bound.path = fields.map some := by
  induction h generalizing bound with
  | this =>
    cases hbind
    exact ⟨.inl rfl, rfl, rfl, rfl⟩
  | @name id found hfound hinstance =>
    have hbound : ⟨(implicitOwner found false).field id, some found.decl.type⟩ = bound := by
      simpa [TypeTable.bind, bindName, hfound, hinstance] using hbind
    have hfind := find_of_inScope (fun _ _ => viaOuter_of_findField) hfound
    subst hbound
    cases hvia : found.viaOuter with
    | none =>
      rw [hvia] at hfind
      have hat := BodyScope.at_field (σ := ⟨t, owner, locals⟩) (p := .this) rfl hfind
      rw [implicitOwner, hvia]
      exact ⟨.inl rfl, rfl, hat⟩
    | some outer =>
      rw [hvia] at hfind
      have hat := BodyScope.at_field (σ := ⟨t, owner, locals⟩) (p := .ofRoot (.outer outer)) rfl
        hfind
      rw [implicitOwner, hvia]
      exact ⟨.inr ⟨outer, rfl⟩, rfl, hat⟩
  | @select l fields type id found _ hfound hinstance ih =>
    obtain ⟨base, hbase, hfield⟩ := bind_select_eq_ok_iff.1 hbind
    obtain ⟨type', found', htype', hfound', -, rfl⟩ := bindField_eq_ok_iff.1 hfield
    obtain ⟨hroot, htype, hat, hselected⟩ := ih hbase
    obtain rfl := Option.some.inj (htype.symm.trans htype')
    obtain rfl := Option.some.inj (hfound.symm.trans hfound')
    obtain ⟨hnext, hselects⟩ := BodyScope.at_field hat hfound
    rw [explicitOwner, hinstance]
    refine ⟨hroot, rfl, hnext, hselects.trans ?_⟩
    rw [hselected, List.map_append]
    rfl

end Bind

namespace TypeTable

variable {t : TypeTable} {owner name type : String} {fields : List (String × FieldDecl)}
  {guarded : GuardedMember}

/-- The lock that guards a field is what its expression means at the type that declares it. -/
theorem bind_of_guarded?_field (h : t.guarded? (.field owner name) = some guarded) :
    ∃ isStatic bound, t.bind ⟨owner, [], isStatic⟩ guarded.required.expression = .ok bound ∧
      bound.path = guarded.required.path := by
  cases hd : t.typeDecl? owner with
  | none => simp [guarded?, guards, MemberRef.field, hd] at h
  | some d =>
    obtain rfl := name_of_typeDecl? hd
    obtain ⟨member, -, href, hguard⟩ := exists_of_guarded? hd rfl h
    cases member with
    | field f =>
      obtain ⟨_, _, lock, -, -, hresolve, rfl⟩ :=
        guardOf_eq_ok_iff.1 (Option.bind_eq_some_iff.2 ⟨_, hguard, rfl⟩)
      obtain ⟨_, bound, -, hbind, -, -, rfl⟩ := resolve_eq_ok_iff.1 hresolve
      exact ⟨f.isStatic, bound, hbind, rfl⟩
    | method m => exact absurd href.symm MemberRef.field_ne_method

/-- Where the lock that an access requires comes from, and when an expression that it was taken
through selects what the guard selects. From an object around the body it always does. From the
object of the access it does exactly if the first name of the guard means the same on the type that
this object has where the expression stands, as on the type that declares the accessed field. -/
theorem selections_eq_iff_of_required {api : LockApi} {caller : MethodDecl} {body : List Stmt}
    {entry held : HeldSet} {a : Access} {p : LockPath} {scope : String}
    (h : (a, held) ∈ ((t.walkContext api).walk (.ofMethod t scope caller) body
      entry).trace.accesses)
    (hmember : a.member = .field owner name) (hguard : t.guarded? a.member = some guarded)
    (hfields : guarded.required.expression.SelectsFields t owner fields type)
    (hrequired : t.required? a = some p) (happroved : p ∈ held) :
    (t.walkContext api).MayHold t scope (Stmt.allLockTargets api body) entry p ∧
      ((guarded.required.path.root = .this ∧ ∃ r, a.receiver = some r ∧
          ∀ l, ∀ e ∈ Stmt.allLockTargets api body,
            ((BodyScope.mk t scope l).place e).path = some p →
              (((BodyScope.mk t scope l).selections e).drop r.steps.length = fields.map some ↔
                ∀ s ∈ guarded.required.path.steps.head?,
                  t.selected ((BodyScope.mk t scope l).typeAt r) s = t.selected (some owner) s)) ∨
        ((∃ outer, guarded.required.path.root = .outer outer) ∧
          ∀ l, ∀ e ∈ Stmt.allLockTargets api body,
            ((BodyScope.mk t scope l).place e).path = some p →
              (BodyScope.mk t scope l).selections e = fields.map some)) := by
  refine ⟨(WalkContext.origin_of_mem_walk h).2 p happroved, ?_⟩
  obtain ⟨isStatic, bound, hbind, hpath⟩ := bind_of_guarded?_field (hmember ▸ hguard)
  rw [← hpath]
  have hlock : bound.path.instantiate a.receiver a.args = some p := by
    simpa [required?, hguard, hpath] using hrequired
  obtain ⟨⟨root, steps⟩, boundType⟩ := bound
  obtain ⟨hroot, -, -, hselected⟩ := hfields.of_bind ⟨[], []⟩ hbind
  rcases hroot with hroot | ⟨outer, hroot⟩
  · obtain rfl : root = .this := hroot
    have hselected : t.selectedAlong (some owner) steps = fields.map some := hselected
    have hfirst : ∀ s ∈ steps.head?, (t.selected (some owner) s).isSome := by
      intro s hs
      obtain ⟨rest, rfl⟩ := List.head?_eq_some_iff.1 hs
      cases fields with
      | nil => cases hselected
      | cons f fields => rw [(List.cons.inj hselected).1, Option.isSome_some]
    obtain ⟨r, hr, rfl⟩ := Option.map_eq_some_iff.1 hlock
    refine .inl ⟨rfl, r, hr, fun l e _ hplace => ?_⟩
    have htail : ((BodyScope.mk t scope l).selections e).drop r.steps.length =
        t.selectedAlong ((BodyScope.mk t scope l).typeAt r) steps := by
      rw [(BodyScope.type_and_selections_of_path hplace).2, BodyScope.selectedAt]
      dsimp only
      rw [selectedAlong_append, List.drop_left' length_selectedAlong]
      rfl
    rw [htail, ← hselected]
    exact selectedAlong_eq_iff hfirst
  · obtain rfl : root = .outer outer := hroot
    obtain rfl := Option.some.inj hlock
    refine .inr ⟨⟨outer, rfl⟩, fun l e _ hplace => ?_⟩
    rw [(BodyScope.type_and_selections_of_path hplace).2]
    exact hselected

end TypeTable

namespace Sample

/-- `Lock lock;` -/
def lockField : FieldDecl := ⟨"lock", "Lock", false, [], none⟩

/-- `void m() { lock (lock) { x; } }` -/
def lockedRead : MethodDecl :=
  { name := "m", isConstructor := false, parameters := [], returnType := none, isStatic := false
    attributes := [], span := none
    body := some [.lock (.name "lock" none) (.block [.expr (.name "x" none)])] }

/-- A class `Base` with these members and `@GuardedBy("lock") int x`, and a class `Sub` that extends
it and has a field `lock` of its own. -/
def hidingTable : TypeTable := .ofUnit
  { path := ""
    types :=
      [{ name := "Base", base := none
         fields := [lockField, ⟨"x", "int", false, [⟨"GuardedBy", ["lock"], none⟩], none⟩]
         methods := [lockedRead], nested := [], attributes := [] },
       { name := "Sub", base := some "Base", fields := [lockField], methods := [lockedRead]
         nested := [], attributes := [] }] }

/-- The accesses in the method of a class. -/
def accessesIn (owner : String) : List (Access × HeldSet) :=
  ((hidingTable.walkContext {}).walk (.ofMethod hidingTable owner lockedRead)
    (lockedRead.body.getD []) ∅).trace.accesses

/-- The read of `x`. -/
def baseRead : Access := ⟨.field "Base" "x", some .this, [], false, none⟩

/-- The guard of `x`. -/
def baseGuard : GuardedMember :=
  ⟨.field "Base" "x", ⟨.name "lock", "lock", ⟨.this, [.field "lock"]⟩, "Base", false⟩, false⟩

def thisLock : LockPath := ⟨.this, [.field "lock"]⟩

private theorem guarded?_baseRead : hidingTable.guarded? baseRead.member = some baseGuard := by
  decide +kernel

private theorem selectsFields_baseGuard :
    baseGuard.required.expression.SelectsFields hidingTable "Base" [("Base", lockField)]
      "Lock" := by
  have hfound : hidingTable.findFieldInScope "Base" "lock" = some ⟨"Base", lockField, none⟩ := by
    cbv
  exact .name hfound rfl

end Sample

open Sample

theorem TypeTable.selections_eq_iff_of_required_baseRead :
    (baseRead, .insert ∅ thisLock) ∈ accessesIn "Base" ∧
      (BodyScope.ofMethod hidingTable "Base" lockedRead).selections (.name "lock" none) =
        [some ("Base", lockField)] := by
  have hread : (baseRead, .insert ∅ thisLock) ∈ accessesIn "Base" := by decide +kernel
  have hrequired : hidingTable.required? baseRead = some thisLock := by decide +kernel
  have hplace :
      ((BodyScope.ofMethod hidingTable "Base" lockedRead).place (.name "lock" none)).path =
        some thisLock := by decide +kernel
  obtain ⟨-, ⟨-, r, hr, hselections⟩ | ⟨⟨outer, houter⟩, -⟩⟩ :=
    selections_eq_iff_of_required hread rfl guarded?_baseRead selectsFields_baseGuard hrequired
      (OrderedSet.mem_insert.2 (.inl rfl))
  · cases hr
    exact ⟨hread, (hselections _ _ (.head _) hplace).2 fun s hs => by cases hs; rfl⟩
  · cases houter

namespace Counter

/-- In the derived class the lock of that class approves the read, though the guard names the lock
of the base class. -/
theorem approved_by_hidingLock :
    hidingTable.check {} = [] ∧
      (baseRead, .insert ∅ thisLock) ∈ accessesIn "Sub" ∧
      hidingTable.required? baseRead = some thisLock ∧
      baseGuard.required.expression.SelectsFields hidingTable "Base" [("Base", lockField)] "Lock" ∧
      hidingTable.guarded? baseRead.member = some baseGuard ∧
      ((BodyScope.ofMethod hidingTable "Sub" lockedRead).place (.name "lock" none)).path =
        some thisLock ∧
      (BodyScope.ofMethod hidingTable "Sub" lockedRead).selections (.name "lock" none) =
        [some ("Sub", lockField)] := by
  refine ⟨by decide +kernel, by decide +kernel, by decide +kernel, selectsFields_baseGuard,
    guarded?_baseRead, by decide +kernel, by decide +kernel⟩

end Counter

end LockDiscipline
