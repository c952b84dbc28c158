import LockDiscipline.Lock.Resolution

/-! What a lock expression is bound to at a declaration, element by element, and how the body of a
method sees the lock: `this` stays, and a parameter is the variable of its name. -/

namespace LockDiscipline

namespace LockPath

/-- The path, named at a method with the parameters `params`, as the method's body sees it. -/
def inBody (p : LockPath) (params : List Parameter) : Option LockPath :=
  p.instantiate (some .this) (params.map fun q => some (.var q.name))

variable {p : LockPath} {params : List Parameter}

theorem instantiate_step (p : LockPath) (s : LockStep) (receiver : Option LockPath)
    (args : List (Option LockPath)) :
    (p.step s).instantiate receiver args = (p.instantiate receiver args).map (·.step s) := by
  obtain ⟨root, steps⟩ := p
  cases root with
  | this | parameter =>
    simp only [instantiate, step, Option.map_map]
    congr 1
    funext a
    simp
  | _ => rfl

theorem inBody_step (p : LockPath) (s : LockStep) (params : List Parameter) :
    (p.step s).inBody params = (p.inBody params).map (·.step s) :=
  p.instantiate_step s _ _

@[simp] theorem inBody_this : LockPath.this.inBody params = some .this := rfl

@[simp] theorem inBody_static {type : String} :
    (LockPath.static type).inBody params = some (.static type) := rfl

@[simp] theorem inBody_outer {type : String} :
    (ofRoot (.outer type)).inBody params = some (ofRoot (.outer type)) := rfl

theorem inBody_parameter {index : Nat} {name : String} {q : Parameter}
    (h : params[index]? = some q) :
    (ofRoot (.parameter index name)).inBody params = some (.var q.name) := by
  simp [inBody, instantiate, ofRoot, h, LockPath.var]

/-- Only a parameter that the method lacks cannot be seen from its body. -/
theorem isSome_inBody_iff : (p.inBody params).isSome ↔
    ∀ index name, p.root = .parameter index name → index < params.length := by
  obtain ⟨root, steps⟩ := p
  cases root with
  | parameter index name =>
    by_cases h : index < params.length <;> simp [inBody, instantiate, h]
  | _ => simp [inBody, instantiate]

theorem isBareStatic_inBody {lock : LockPath} (h : p.inBody params = some lock) :
    lock.isBareStatic = p.isBareStatic := by
  obtain ⟨root, steps⟩ := p
  cases root with
  | parameter index name =>
    cases hq : params[index]? with
    | none => simp [inBody, instantiate, hq] at h
    | some q =>
      obtain rfl : LockPath.mk (.var q.name) steps = lock := by
        simpa [inBody, instantiate, hq, LockPath.var, ofRoot] using h
      rfl
  | this =>
    obtain rfl : LockPath.mk .this steps = lock := by
      simpa [inBody, instantiate, LockPath.this, ofRoot] using h
    rfl
  | _ =>
    cases h
    rfl

end LockPath

namespace TypeTable

variable {t : TypeTable} {base bound : BoundLock} {id : String}

/-- The path at which a member of `base` starts: at its type if it is static, or else at `base`. -/
def explicitOwner {α : Type} (base : LockPath) (found : Found α) (isStatic : Bool) : LockPath :=
  if isStatic then .static found.owner else base

theorem bindField_eq_ok_iff : t.bindField base id = .ok bound ↔
    ∃ type found, base.type = some type ∧ t.findField type id = some found ∧
      (found.decl.isStatic = false → base.path.isBareStatic = false) ∧
      ⟨(explicitOwner base.path found found.decl.isStatic).field id, some found.decl.type⟩ =
        bound := by
  obtain ⟨path, type⟩ := base
  cases type with
  | none => simp [bindField]
  | some type =>
    cases hfound : t.findField type id with
    | none => simp [bindField, hfound]
    | some found =>
      cases hstatic : found.decl.isStatic <;> cases hbare : path.isBareStatic <;>
        simp [bindField, explicitOwner, hfound, hstatic, hbare, Bind.bind, pure,
          Except.bind, Except.pure]

theorem bindCall_eq_ok_iff : t.bindCall base id = .ok bound ↔
    ∃ type found, base.type = some type ∧ t.findMethod type id 0 = some found ∧
      (found.decl.isStatic = false → base.path.isBareStatic = false) ∧
      ⟨(explicitOwner base.path found found.decl.isStatic).call id, found.decl.returnType⟩ =
        bound := by
  obtain ⟨path, type⟩ := base
  cases type with
  | none => simp [bindCall]
  | some type =>
    cases hfound : t.findMethod type id 0 with
    | none => simp [bindCall, hfound]
    | some found =>
      cases hstatic : found.decl.isStatic <;> cases hbare : path.isBareStatic <;>
        simp [bindCall, explicitOwner, hfound, hstatic, hbare, Bind.bind, pure,
          Except.bind, Except.pure]

variable {scope : DeclScope} {l : LockExpr}

/-- A name is the first parameter of the name, or else a field in scope, or else a type. -/
theorem bindName_eq_ok_iff : t.bindName scope id = .ok bound ↔
    (∃ q index, (scope.parameters.zipIdx.find? fun p => p.1.name = id) = some (q, index) ∧
      ⟨.ofRoot (.parameter index id), some q.type⟩ = bound) ∨
    (scope.parameters.zipIdx.find? fun p => p.1.name = id) = none ∧
      ((∃ found, t.findFieldInScope scope.owner id = some found ∧
        ⟨(implicitOwner found found.decl.isStatic).field id, some found.decl.type⟩ = bound) ∨
      t.findFieldInScope scope.owner id = none ∧ t.contains id = true ∧
        ⟨.static id, some id⟩ = bound) := by
  rw [bindName]
  cases scope.parameters.zipIdx.find? fun p => p.1.name = id with
  | some first =>
    obtain ⟨q, index⟩ := first
    simp [and_assoc]
  | none =>
    cases t.findFieldInScope scope.owner id with
    | some found => simp
    | none => cases htype : t.contains id <;> simp

theorem bind_select_eq_ok_iff : t.bind scope (.select l id) = .ok bound ↔
    ∃ base, t.bind scope l = .ok base ∧ t.bindField base id = .ok bound := by
  rw [bind]
  cases t.bind scope l with
  | error e => exact ⟨nofun, nofun⟩
  | ok base => exact ⟨fun h => ⟨base, rfl, h⟩, fun ⟨_, hbase, h⟩ => Except.ok.inj hbase ▸ h⟩

theorem bind_invoke_eq_ok_iff : t.bind scope (.invoke l id) = .ok bound ↔
    ∃ base, t.bind scope l = .ok base ∧ t.bindCall base id = .ok bound := by
  rw [bind]
  cases t.bind scope l with
  | error e => exact ⟨nofun, nofun⟩
  | ok base => exact ⟨fun h => ⟨base, rfl, h⟩, fun ⟨_, hbase, h⟩ => Except.ok.inj hbase ▸ h⟩

theorem bind_call_eq_ok_iff : t.bind scope (.call id) = .ok bound ↔
    ∃ found, t.findMethodInScope scope.owner id 0 = some found ∧
      ⟨(implicitOwner found found.decl.isStatic).call id, found.decl.returnType⟩ = bound := by
  rw [bind]
  cases t.findMethodInScope scope.owner id 0 with
  | none => simp
  | some found => simp

private theorem root_implicitOwner_ne {α : Type} {found : Found α} {isStatic : Bool} {index : Nat}
    {name : String} : (implicitOwner found isStatic).root ≠ .parameter index name := by
  rw [implicitOwner]
  cases isStatic with
  | true => exact nofun
  | false =>
    cases found.viaOuter with
    | none => exact nofun
    | some outer => exact nofun

private theorem root_explicitOwner {α : Type} {p : LockPath} {found : Found α} {isStatic : Bool}
    {index : Nat} {name : String}
    (h : (explicitOwner p found isStatic).root = .parameter index name) :
    p.root = .parameter index name := by
  cases isStatic with
  | true => cases h
  | false => exact h

/-- A lock found through a parameter is found through one that the method has. -/
theorem index_lt_of_bind {index : Nat} {name : String} (h : t.bind scope l = .ok bound)
    (hroot : bound.path.root = .parameter index name) : index < scope.parameters.length := by
  induction l generalizing bound with
  | this =>
    cases h
    cases hroot
  | name id =>
    rcases bindName_eq_ok_iff.1 h with ⟨q, _, hfind, rfl⟩ | ⟨-, ⟨found, -, rfl⟩ | ⟨-, -, rfl⟩⟩
    · cases hroot
      have hindex : scope.parameters[index]? = some q := by
        simpa using List.mem_zipIdx_iff_getElem?.1 (List.mem_of_find?_eq_some hfind)
      exact (List.getElem?_eq_some_iff.1 hindex).1
    · exact absurd hroot root_implicitOwner_ne
    · cases hroot
  | call method =>
    obtain ⟨found, -, rfl⟩ := bind_call_eq_ok_iff.1 h
    exact absurd hroot root_implicitOwner_ne
  | select l id ih =>
    obtain ⟨base, hbase, h⟩ := bind_select_eq_ok_iff.1 h
    obtain ⟨_, _, _, _, _, rfl⟩ := bindField_eq_ok_iff.1 h
    exact ih hbase (root_explicitOwner hroot)
  | invoke l method ih =>
    obtain ⟨base, hbase, h⟩ := bind_invoke_eq_ok_iff.1 h
    obtain ⟨_, _, _, _, _, rfl⟩ := bindCall_eq_ok_iff.1 h
    exact ih hbase (root_explicitOwner hroot)

private theorem mapError_error {ε ε' α : Type} (f : ε → ε') (e : ε) :
    (.error e : Except ε α).mapError f = .error (f e) := rfl

private theorem mapError_ok {ε ε' α : Type} (f : ε → ε') (a : α) :
    (.ok a : Except ε α).mapError f = .ok a := rfl

theorem resolve_eq_ok_iff {text : String} {r : ResolvedLock} : t.resolve scope text = .ok r ↔
    ∃ l bound, LockExpr.read text = .ok l ∧ t.bind scope l = .ok bound ∧
      bound.path.isBareStatic = false ∧
      (scope.isStatic = true → needsNoInstance scope bound.path = true) ∧
      ⟨l, text, bound.path, scope.owner, needsNoInstance scope bound.path⟩ = r := by
  rw [resolve]
  cases hread : LockExpr.read text with
  | error e => simp [mapError_error, Bind.bind, Except.bind]
  | ok l =>
    cases hbind : t.bind scope l with
    | error e => simp [mapError_ok, mapError_error, Bind.bind, Except.bind, hbind]
    | ok bound =>
      cases hbare : bound.path.isBareStatic <;> cases scope.isStatic <;>
        cases hfree : needsNoInstance scope bound.path <;>
        simp [mapError_ok, Bind.bind, Except.bind, pure, Except.pure, hbind, hbare, hfree]

/-- A lock that resolves at a method is seen from the body of each method with as many parameters. -/
theorem exists_inBody_of_resolve {text : String} {r : ResolvedLock} {params : List Parameter}
    (h : t.resolve scope text = .ok r) (hparams : scope.parameters.length = params.length) :
    ∃ lock, r.path.inBody params = some lock := by
  obtain ⟨l, bound, -, hbind, -, -, rfl⟩ := resolve_eq_ok_iff.1 h
  refine Option.isSome_iff_exists.1 (LockPath.isSome_inBody_iff.2 fun index name hroot => ?_)
  exact hparams ▸ index_lt_of_bind hbind hroot

end TypeTable

end LockDiscipline
