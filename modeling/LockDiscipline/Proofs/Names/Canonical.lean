import LockDiscipline.Proofs.Except
import LockDiscipline.Proofs.Guards.Findings
import LockDiscipline.Proofs.Names.Selection

/-! The form of paths. A path that begins at a type goes on with a static member which that very type
declares, and each other step of a path names a member of an object. What stands before a static
member leaves no trace, so expressions that agree from their last static member on have one path. -/

namespace LockDiscipline

namespace Member

def isStatic : Member → Bool
  | .field f => f.isStatic
  | .method m => m.isStatic

/-- The type of what the member holds or, called without arguments, returns. -/
def type : Member → Option String
  | .field f => some f.type
  | .method m => m.returnType

/-- The step that follows the member. -/
def step : Member → LockStep
  | .field f => .field f.name
  | .method m => .call m.name

end Member

namespace TypeTable

/-- The member that a step from what has a type names, with the type that declares it. -/
def memberAt (t : TypeTable) (type : Option String) : LockStep → Option (String × Member)
  | .field id => (type.bind fun type => t.findField type id).map fun found =>
    (found.owner, .field found.decl)
  | .call id => (type.bind fun type => t.findMethod type id 0).map fun found =>
    (found.owner, .method found.decl)

/-- Each of the steps, from an object of a type on, names a member of an object. -/
def InstanceSteps (t : TypeTable) : Option String → List LockStep → Prop
  | _, [] => True
  | type, s :: rest =>
    (∃ owner m, t.memberAt type s = some (owner, m) ∧ m.isStatic = false) ∧
      t.InstanceSteps (t.typeAfter type s) rest

/-- The form of a path whose root has the type `type`: after a type comes a static member that it
declares itself, and each other step names a member of an object. -/
def Canonical (t : TypeTable) (type : Option String) (p : LockPath) : Prop :=
  match p.root, p.steps with
  | .static T, s :: rest =>
    (∃ m, t.memberAt (some T) s = some (T, m) ∧ m.isStatic = true) ∧
      t.InstanceSteps (t.typeAfter (some T) s) rest
  | _, steps => t.InstanceSteps type steps

variable {t : TypeTable} {type : Option String} {T owner : String} {m : Member} {s : LockStep}
  {p : LockPath}

theorem memberAt_field {id : String} {found : Found FieldDecl}
    (h : t.findField T id = some found) :
    t.memberAt (some T) (.field id) = some (found.owner, .field found.decl) := by
  simp [memberAt, h]

theorem memberAt_call {id : String} {found : Found MethodDecl}
    (h : t.findMethod T id 0 = some found) :
    t.memberAt (some T) (.call id) = some (found.owner, .method found.decl) := by
  simp [memberAt, h]

theorem memberAt_field_inScope {id : String} {found : Found FieldDecl}
    (h : t.findFieldInScope T id = some found) :
    t.memberAt (some (found.viaOuter.getD T)) (.field id) =
      some (found.owner, .field found.decl) := by
  simp [memberAt, findField_of_inScope h]

theorem memberAt_call_inScope {id : String} {found : Found MethodDecl}
    (h : t.findMethodInScope T id 0 = some found) :
    t.memberAt (some (found.viaOuter.getD T)) (.call id) =
      some (found.owner, .method found.decl) := by
  simp [memberAt, findMethod_of_inScope h]

/-- A member that is found is found on the type that declares it, under its own name. -/
theorem memberAt_owner (h : t.memberAt type s = some (owner, m)) :
    t.memberAt (some owner) s = some (owner, m) ∧ m.step = s := by
  cases s with
  | field id =>
    obtain ⟨found, hfound, heq⟩ := Option.map_eq_some_iff.1 h
    cases heq
    obtain ⟨type, -, hfound⟩ := Option.bind_eq_some_iff.1 hfound
    obtain ⟨d, -, hdecl⟩ := findField_eq_some hfound
    have hname : found.decl.name = id := by simpa using List.find?_some hdecl
    exact ⟨memberAt_field (findField_owner hfound), congrArg LockStep.field hname⟩
  | call id =>
    obtain ⟨found, hfound, heq⟩ := Option.map_eq_some_iff.1 h
    cases heq
    obtain ⟨type, -, hfound⟩ := Option.bind_eq_some_iff.1 hfound
    obtain ⟨d, -, hdecl⟩ := findMethod_eq_some hfound
    have hname : found.decl.name = id ∧ found.decl.arity = 0 := by
      simpa using List.find?_some hdecl
    exact ⟨memberAt_call (findMethod_owner hfound), congrArg LockStep.call hname.1⟩

theorem typeAfter_of_memberAt (h : t.memberAt type s = some (owner, m)) :
    t.typeAfter type s = m.type := by
  cases s with
  | field id =>
    obtain ⟨found, hfound, heq⟩ := Option.map_eq_some_iff.1 h
    cases heq
    rw [typeAfter, hfound]
    rfl
  | call id =>
    obtain ⟨found, hfound, heq⟩ := Option.map_eq_some_iff.1 h
    cases heq
    rw [typeAfter, hfound]
    rfl

theorem instanceSteps_step {steps : List LockStep} (h : t.InstanceSteps type steps)
    (hfind : t.memberAt (t.typeAlong type steps) s = some (owner, m)) (hm : m.isStatic = false) :
    t.InstanceSteps type (steps ++ [s]) := by
  induction steps generalizing type with
  | nil => exact ⟨⟨owner, m, hfind, hm⟩, trivial⟩
  | cons first rest ih => exact ⟨h.1, ih h.2 hfind⟩

/-- The roots of paths, where names of a body or of a declaration are looked up: which there are, and
the types of what they denote. -/
structure Roots where
  Has : LockRoot → Prop
  type : LockRoot → Option String

/-- The roots of paths inside `owner`. Only parameters and locals differ from place to place. -/
structure Roots.Inside (owner : String) (roots : Roots) : Prop where
  hasThis : roots.Has .this
  hasOuter : ∀ T, roots.Has (.outer T)
  hasStatic : ∀ T, roots.Has (.static T)
  this : roots.type .this = some owner
  outer : ∀ T, roots.type (.outer T) = some T
  static : ∀ T, roots.type (.static T) = some T

/-- A path in its form, and the type of what lies there. -/
structure LeadsTo (t : TypeTable) (roots : Roots) (p : LockPath) (type : Option String) : Prop where
  has : roots.Has p.root
  canonical : t.Canonical (roots.type p.root) p
  type_eq : type = t.typeAlong (roots.type p.root) p.steps

variable {roots : Roots} {root : LockRoot}

theorem leadsTo_ofRoot (h : roots.Has root) : t.LeadsTo roots (.ofRoot root) (roots.type root) := by
  refine ⟨h, ?_, rfl⟩
  cases root <;> exact trivial

/-- A static member is found from the type that declares it, whatever stands before it. -/
theorem Roots.Inside.leadsTo_static (hin : roots.Inside owner) {declaring : String}
    (hfind : t.memberAt type s = some (declaring, m)) (hm : m.isStatic = true) :
    t.LeadsTo roots ((LockPath.static declaring).step s) m.type := by
  obtain ⟨howner, -⟩ := memberAt_owner hfind
  refine ⟨hin.hasStatic declaring, ⟨⟨m, howner, hm⟩, trivial⟩, ?_⟩
  change _ = t.typeAfter (roots.type (.static declaring)) s
  rw [hin.static, typeAfter_of_memberAt howner]

/-- A member of an object is one more step. -/
theorem Roots.Inside.leadsTo_step (hin : roots.Inside owner) {declaring : String}
    (hp : t.LeadsTo roots p type) (hobject : p.isBareStatic = false)
    (hfind : t.memberAt type s = some (declaring, m)) (hm : m.isStatic = false) :
    t.LeadsTo roots (p.step s) m.type := by
  obtain ⟨hhas, hcanonical, rfl⟩ := hp
  refine ⟨hhas, ?_, ?_⟩
  · obtain ⟨root, steps⟩ := p
    cases root with
    | static T =>
      cases steps with
      | nil => cases hobject
      | cons first rest =>
        change t.memberAt (t.typeAlong (roots.type (.static T)) (first :: rest)) s = _ at hfind
        rw [hin.static] at hfind
        exact ⟨hcanonical.1, instanceSteps_step hcanonical.2 hfind hm⟩
    | _ => exact instanceSteps_step hcanonical hfind hm
  · rw [← typeAfter_of_memberAt hfind, LockPath.step, typeAlong, typeAlong, List.foldl_append]
    rfl

variable {α : Type} {found : Found α}

/-- A member that is found by its simple name. -/
theorem Roots.Inside.leadsTo_implicit (hin : roots.Inside owner)
    (hfind : t.memberAt (some (found.viaOuter.getD owner)) s = some (found.owner, m)) :
    t.LeadsTo roots ((implicitOwner found m.isStatic).step s) m.type := by
  cases hm : m.isStatic with
  | true => exact hin.leadsTo_static hfind hm
  | false =>
    rw [implicitOwner]
    cases hvia : found.viaOuter with
    | none =>
      rw [hvia, Option.getD_none, ← hin.this] at hfind
      exact hin.leadsTo_step (leadsTo_ofRoot hin.hasThis) rfl hfind hm
    | some outer =>
      rw [hvia, Option.getD_some, ← hin.outer] at hfind
      exact hin.leadsTo_step (leadsTo_ofRoot (hin.hasOuter outer)) rfl hfind hm

/-- A member that is found on what lies at a path. -/
theorem Roots.Inside.leadsTo_explicit (hin : roots.Inside owner) {base : LockPath}
    (hbase : t.LeadsTo roots base type) (hfind : t.memberAt type s = some (found.owner, m))
    (hobject : m.isStatic = false → base.isBareStatic = false) :
    t.LeadsTo roots ((explicitOwner base found m.isStatic).step s) m.type := by
  cases hm : m.isStatic with
  | true => exact hin.leadsTo_static hfind hm
  | false => exact hin.leadsTo_step hbase (hobject hm) hfind hm

end TypeTable

namespace DeclScope

/-- What the roots of paths denote at a declaration. -/
def rootType (scope : DeclScope) : LockRoot → Option String
  | .this => some scope.owner
  | .outer type | .static type => some type
  | .parameter index _ => scope.parameters[index]?.map (·.type)
  | .var _ => none

/-- The first parameter of a name is a root, and no local is one. -/
def HasRoot (scope : DeclScope) : LockRoot → Prop
  | .parameter index name =>
    ∃ q, (scope.parameters.zipIdx.find? fun p => p.1.name = name) = some (q, index)
  | .var _ => False
  | _ => True

def roots (scope : DeclScope) : TypeTable.Roots := ⟨scope.HasRoot, scope.rootType⟩

theorem roots_inside {scope : DeclScope} : scope.roots.Inside scope.owner where
  hasThis := trivial
  hasOuter _ := trivial
  hasStatic _ := trivial
  this := rfl
  outer _ := rfl
  static _ := rfl

end DeclScope

namespace TypeTable

variable {t : TypeTable} {scope : DeclScope} {l : LockExpr} {bound : BoundLock} {id : String}

/-- What a lock expression is bound to has the form of paths, and the type of what lies there. -/
theorem leadsTo_of_bind (h : t.bind scope l = .ok bound) :
    t.LeadsTo scope.roots bound.path bound.type := by
  induction l generalizing bound with
  | this =>
    cases h
    exact leadsTo_ofRoot trivial
  | name id =>
    rcases bindName_eq_ok_iff.1 h with
      ⟨q, index, hfind, rfl⟩ | ⟨-, ⟨found, hfound, rfl⟩ | ⟨-, -, rfl⟩⟩
    · have hindex : scope.parameters[index]? = some q := by
        simpa using List.mem_zipIdx_iff_getElem?.1 (List.mem_of_find?_eq_some hfind)
      have htype : scope.roots.type (.parameter index id) = some q.type := by
        simp [DeclScope.roots, DeclScope.rootType, hindex]
      exact htype ▸ leadsTo_ofRoot ⟨q, hfind⟩
    · exact DeclScope.roots_inside.leadsTo_implicit (memberAt_field_inScope hfound)
    · exact leadsTo_ofRoot trivial
  | call method =>
    obtain ⟨found, hfound, rfl⟩ := bind_call_eq_ok_iff.1 h
    exact DeclScope.roots_inside.leadsTo_implicit (memberAt_call_inScope hfound)
  | select l id ih =>
    obtain ⟨base, hbase, h⟩ := bind_select_eq_ok_iff.1 h
    obtain ⟨type, found, htype, hfound, hobject, rfl⟩ := bindField_eq_ok_iff.1 h
    exact DeclScope.roots_inside.leadsTo_explicit (htype ▸ ih hbase) (memberAt_field hfound) hobject
  | invoke l method ih =>
    obtain ⟨base, hbase, h⟩ := bind_invoke_eq_ok_iff.1 h
    obtain ⟨type, found, htype, hfound, hobject, rfl⟩ := bindCall_eq_ok_iff.1 h
    exact DeclScope.roots_inside.leadsTo_explicit (htype ▸ ih hbase) (memberAt_call hfound) hobject

end TypeTable

namespace BodyScope

variable {σ : BodyScope} {e b : Expr} {p q : LockPath} {id : String} {s : LockStep}

/-- The roots in a body. A parameter is there as a local. -/
def roots (σ : BodyScope) : TypeTable.Roots where
  Has root := ∀ index name, root ≠ .parameter index name
  type := σ.rootType

theorem roots_inside : σ.roots.Inside σ.owner where
  hasThis := nofun
  hasOuter _ := nofun
  hasStatic _ := nofun
  this := rfl
  outer _ := rfl
  static _ := rfl

section Member

variable {α : Type} {found : Found α} {decl : α} {m : Member}

/-- The path of a member that is found by its simple name. -/
private theorem leadsTo_of_implicit
    (hfind : σ.table.memberAt (some (found.viaOuter.getD σ.owner)) s = some (found.owner, m))
    (h : memberPath ⟨found.owner, decl, implicitReceiver found m.isStatic⟩ m.isStatic s = some p) :
    σ.table.LeadsTo σ.roots p m.type := by
  have hpath : memberPath ⟨found.owner, decl, implicitReceiver found m.isStatic⟩ m.isStatic s =
      some ((TypeTable.implicitOwner found m.isStatic).step s) := by
    rw [memberPath, implicitReceiver, TypeTable.implicitOwner]
    cases m.isStatic with
    | true => rfl
    | false => cases found.viaOuter <;> rfl
  obtain rfl := Option.some.inj (hpath.symm.trans h)
  exact roots_inside.leadsTo_implicit hfind

/-- The path of a member that is found on what an expression evaluates to. -/
private theorem leadsTo_of_explicit {base : Place}
    (hbase : ∀ q, base.path = some q → σ.table.LeadsTo σ.roots q base.type)
    (hfind : σ.table.memberAt base.type s = some (found.owner, m))
    (h : memberPath ⟨found.owner, decl, explicitReceiver m.isStatic base.path⟩ m.isStatic s =
      some p) :
    σ.table.LeadsTo σ.roots p m.type := by
  cases hm : m.isStatic with
  | true =>
    rw [hm] at h
    cases h
    exact roots_inside.leadsTo_static hfind hm
  | false =>
    rw [hm] at h
    obtain ⟨q, hq, rfl⟩ := Option.map_eq_some_iff.1 h
    obtain ⟨hpath, hobject⟩ := Option.filter_eq_some_iff.1 hq
    exact roots_inside.leadsTo_step (hbase q hpath) (by simpa using hobject) hfind hm

end Member

private theorem leadsTo_of_name (h : (σ.namePlace id).path = some p) :
    σ.table.LeadsTo σ.roots p (σ.namePlace id).type := by
  unfold namePlace at h ⊢
  cases hlocal : σ.local? id with
  | some l =>
    rw [hlocal] at h
    cases h
    have htype : σ.roots.type (.var id) = l.type := by simp [roots, rootType, hlocal]
    change σ.table.LeadsTo σ.roots (.var id) l.type
    rw [← htype]
    refine TypeTable.leadsTo_ofRoot fun index name hroot => ?_
    cases hroot
  | none =>
    rw [hlocal] at h
    cases hsite : σ.bareField id with
    | some site =>
      rw [hsite] at h
      obtain ⟨-, found, hfound, rfl⟩ := bareField_eq_some_iff.1 hsite
      exact leadsTo_of_implicit (m := .field found.decl) (TypeTable.memberAt_field_inScope hfound) h
    | none =>
      rw [hsite] at h
      dsimp only at h ⊢
      split at h
      · next htype =>
        cases h
        rw [if_pos htype]
        exact TypeTable.leadsTo_ofRoot (roots_inside.hasStatic id)
      · cases h

/-- Where an expression leads to has the form of paths, and the type of what lies there. -/
theorem leadsTo_of_place (h : (σ.place e).path = some p) :
    σ.table.LeadsTo σ.roots p (σ.place e).type := by
  fun_induction σ.place e generalizing p with
  | case1 =>
    cases h
    exact TypeTable.leadsTo_ofRoot roots_inside.hasThis
  | case2 id s => exact leadsTo_of_name h
  | case3 base id _ ih =>
    cases hsite : σ.fieldOf (σ.place base) id with
    | none =>
      rw [hsite] at h
      cases h
    | some site =>
      rw [hsite] at h
      obtain ⟨type, found, htype, hfound, rfl⟩ := fieldOf_eq_some_iff.1 hsite
      have hfind := TypeTable.memberAt_field hfound
      rw [← htype] at hfind
      exact leadsTo_of_explicit (m := .field found.decl) (fun _ => ih) hfind h
  | case4 id _ args =>
    obtain ⟨site, hsite, hargs, h⟩ := path_callPlace h
    rw [hargs] at hsite ⊢
    rw [hsite]
    obtain ⟨found, hfound, rfl⟩ := bareMethod_eq_some_iff.1 hsite
    exact leadsTo_of_implicit (m := .method found.decl) (TypeTable.memberAt_call_inScope hfound) h
  | case5 base id _ args _ ih =>
    obtain ⟨site, hsite, hargs, h⟩ := path_callPlace h
    rw [hargs] at hsite ⊢
    rw [hsite]
    obtain ⟨type, found, htype, hfound, rfl⟩ := methodOf_eq_some_iff.1 hsite
    have hfind := TypeTable.memberAt_call hfound
    rw [← htype] at hfind
    exact leadsTo_of_explicit (m := .method found.decl) (fun _ => ih) hfind h
  | case6 => cases h
  | case7 => cases h
  | case8 => cases h

end BodyScope

/-- A static member with the type that declares it, and the steps that follow it. -/
structure StaticStart where
  owner : String
  member : Member
  steps : List LockStep

namespace StaticStart

/-- Where a chain starts that goes on with one more member: at this very member if it is static, or
else where it started before. -/
def goOn (owner : String) (m : Member) (before : Option StaticStart) : Option StaticStart :=
  if m.isStatic then some ⟨owner, m, []⟩
  else before.map fun start => { start with steps := start.steps ++ [m.step] }

/-- The path that starts there. -/
def path (start : StaticStart) : LockPath := ⟨.static start.owner, start.member.step :: start.steps⟩

end StaticStart

/-- The last static member of an expression in a body, and the steps that follow it. -/
def BodyScope.lastStatic? (σ : BodyScope) : Expr → Option StaticStart
  | .name id _ => (σ.bareField id).bind fun site =>
    StaticStart.goOn site.owner (.field site.decl) none
  | .member base id _ => (σ.fieldOf (σ.place base) id).bind fun site =>
    StaticStart.goOn site.owner (.field site.decl) (σ.lastStatic? base)
  | .call (.name id _) [] _ => (σ.bareMethod id 0).bind fun site =>
    StaticStart.goOn site.owner (.method site.decl) none
  | .call (.member base id _) [] _ => (σ.methodOf (σ.place base) id 0).bind fun site =>
    StaticStart.goOn site.owner (.method site.decl) (σ.lastStatic? base)
  | _ => none

/-- The last static member of a lock expression at a declaration, and the steps that follow it. -/
def TypeTable.lastStatic? (t : TypeTable) (scope : DeclScope) : LockExpr → Option StaticStart
  | .this => none
  | .name id =>
    if scope.parameters.any fun q => q.name = id then none
    else (t.findFieldInScope scope.owner id).bind fun found =>
      StaticStart.goOn found.owner (.field found.decl) none
  | .call method => (t.findMethodInScope scope.owner method 0).bind fun found =>
    StaticStart.goOn found.owner (.method found.decl) none
  | .select base id =>
    ((t.bind scope base).toOption.bind (·.type)).bind fun type =>
      (t.findField type id).bind fun found =>
        StaticStart.goOn found.owner (.field found.decl) (t.lastStatic? scope base)
  | .invoke base method =>
    ((t.bind scope base).toOption.bind (·.type)).bind fun type =>
      (t.findMethod type method 0).bind fun found =>
        StaticStart.goOn found.owner (.method found.decl) (t.lastStatic? scope base)

namespace StaticStart

variable {owner : String} {m : Member} {before : Option StaticStart} {start : StaticStart}

theorem path_of_goOn (h : goOn owner m before = some start) :
    m.isStatic = true ∧ start.path = (LockPath.static owner).step m.step ∨
      ∃ first, m.isStatic = false ∧ before = some first ∧ start.path = first.path.step m.step := by
  rw [goOn] at h
  cases hm : m.isStatic with
  | true =>
    rw [hm, if_pos rfl] at h
    cases h
    exact .inl ⟨rfl, rfl⟩
  | false =>
    rw [hm] at h
    obtain ⟨first, hfirst, rfl⟩ := Option.map_eq_some_iff.1 h
    exact .inr ⟨first, rfl, hfirst, rfl⟩

theorem implicitOwner_of_goOn {α : Type} {found : Found α}
    (h : goOn found.owner m none = some start) :
    (TypeTable.implicitOwner found m.isStatic).step m.step = start.path := by
  rcases path_of_goOn h with ⟨hm, hpath⟩ | ⟨_, -, hnone, -⟩
  · rw [hm, hpath]
    rfl
  · cases hnone

theorem explicitOwner_of_goOn {α : Type} {found : Found α} {base : LockPath}
    (h : goOn found.owner m before = some start)
    (hbase : ∀ first, before = some first → base = first.path) :
    (m.isStatic = false → base.isBareStatic = false) ∧
      (TypeTable.explicitOwner base found m.isStatic).step m.step = start.path := by
  rcases path_of_goOn h with ⟨hm, hpath⟩ | ⟨first, hm, hfirst, hpath⟩
  · rw [hm, hpath]
    exact ⟨nofun, rfl⟩
  · rw [hm, hpath, hbase first hfirst]
    exact ⟨fun _ => rfl, rfl⟩

/-- The path of a member that is used where its chain goes on. -/
theorem memberPath_of_goOn {α : Type} {site : MemberSite α}
    (h : goOn site.owner m before = some start)
    (hreceiver : ∀ first, m.isStatic = false → before = some first →
      site.receiver = some first.path) :
    BodyScope.memberPath site m.isStatic m.step = some start.path := by
  rcases path_of_goOn h with ⟨hm, hpath⟩ | ⟨first, hm, hfirst, hpath⟩
  · rw [hm, hpath]
    rfl
  · rw [hm, hpath, BodyScope.memberPath, hreceiver first hm hfirst]
    rfl

end StaticStart

namespace BodyScope

variable {σ : BodyScope} {e : Expr} {start : StaticStart} {id : String} {isStatic : Bool}

theorem namePlace_of_bareField {site : MemberSite FieldDecl} (h : σ.bareField id = some site) :
    σ.namePlace id = fieldPlace id (some site) := by
  rw [namePlace, (bareField_eq_some_iff.1 h).1, h]

private theorem explicitReceiver_start (hm : isStatic = false) :
    explicitReceiver isStatic (some start.path) = some start.path := by
  subst hm
  rfl

/-- The path of an expression is that of its last static member, followed by the steps after it. -/
theorem place_of_lastStatic (h : σ.lastStatic? e = some start) :
    (σ.place e).path = some start.path := by
  fun_induction σ.lastStatic? e generalizing start with
  | case1 id s =>
    obtain ⟨site, hsite, h⟩ := Option.bind_eq_some_iff.1 h
    rw [place, namePlace_of_bareField hsite]
    obtain ⟨-, found, hfound, rfl⟩ := bareField_eq_some_iff.1 hsite
    have hstep := (TypeTable.memberAt_owner (TypeTable.memberAt_field_inScope hfound)).2
    rw [fieldPlace, ← hstep]
    refine StaticStart.memberPath_of_goOn h fun _ _ hnone => ?_
    cases hnone
  | case2 base id s ih =>
    obtain ⟨site, hsite, h⟩ := Option.bind_eq_some_iff.1 h
    rw [place, hsite]
    obtain ⟨type, found, htype, hfound, rfl⟩ := fieldOf_eq_some_iff.1 hsite
    have hstep := (TypeTable.memberAt_owner (TypeTable.memberAt_field hfound)).2
    rw [fieldPlace, ← hstep]
    refine StaticStart.memberPath_of_goOn h fun first hm hfirst => ?_
    rw [ih hfirst]
    exact explicitReceiver_start hm
  | case3 id =>
    obtain ⟨site, hsite, h⟩ := Option.bind_eq_some_iff.1 h
    rw [place, List.length_nil, hsite]
    obtain ⟨found, hfound, rfl⟩ := bareMethod_eq_some_iff.1 hsite
    have hstep := (TypeTable.memberAt_owner (TypeTable.memberAt_call_inScope hfound)).2
    rw [callPlace, if_pos rfl, ← hstep]
    refine StaticStart.memberPath_of_goOn h fun _ _ hnone => ?_
    cases hnone
  | case4 base id _ _ ih =>
    obtain ⟨site, hsite, h⟩ := Option.bind_eq_some_iff.1 h
    rw [place, List.length_nil, hsite]
    obtain ⟨type, found, htype, hfound, rfl⟩ := methodOf_eq_some_iff.1 hsite
    have hstep := (TypeTable.memberAt_owner (TypeTable.memberAt_call hfound)).2
    rw [callPlace, if_pos rfl, ← hstep]
    refine StaticStart.memberPath_of_goOn h fun first hm hfirst => ?_
    rw [ih hfirst]
    exact explicitReceiver_start hm
  | case5 => cases h

end BodyScope

namespace TypeTable

variable {t : TypeTable} {scope : DeclScope} {l : LockExpr} {start : StaticStart}

private theorem exists_base {base : LockExpr} {type : String}
    (htype : (t.bind scope base).toOption.bind (·.type) = some type)
    (hbase : ∀ first, t.lastStatic? scope base = some first →
      ∃ type, t.bind scope base = .ok ⟨first.path, type⟩) :
    ∃ b, t.bind scope base = .ok b ∧ b.type = some type ∧
      ∀ first, t.lastStatic? scope base = some first → b.path = first.path := by
  cases hb : t.bind scope base with
  | error e =>
    rw [hb] at htype
    cases htype
  | ok b =>
    rw [hb] at htype
    refine ⟨b, rfl, htype, fun first hfirst => ?_⟩
    obtain ⟨type', hb'⟩ := hbase first hfirst
    rw [hb] at hb'
    cases hb'
    rfl

/-- A lock expression is bound to its last static member, followed by the steps after it. -/
theorem bind_of_lastStatic (h : t.lastStatic? scope l = some start) :
    ∃ type, t.bind scope l = .ok ⟨start.path, type⟩ := by
  induction l generalizing start with
  | this => cases h
  | name id =>
    rw [lastStatic?] at h
    split at h
    · cases h
    · next hfree =>
      obtain ⟨found, hfound, h⟩ := Option.bind_eq_some_iff.1 h
      have hnone : (scope.parameters.zipIdx.find? fun p => p.1.name = id) = none := by
        refine List.find?_eq_none.2 fun (q, index) hq => ?_
        have hindex : scope.parameters[index]? = some q := by
          simpa using List.mem_zipIdx_iff_getElem?.1 hq
        have hne : ∀ q ∈ scope.parameters, ¬q.name = id := by simpa using hfree
        simpa using hne q (List.mem_of_getElem? hindex)
      have hstep := (memberAt_owner (memberAt_field_inScope hfound)).2
      have hpath := StaticStart.implicitOwner_of_goOn h
      rw [hstep] at hpath
      exact ⟨_, bindName_eq_ok_iff.2
        (.inr ⟨hnone, .inl ⟨found, hfound, congrArg (BoundLock.mk · _) hpath⟩⟩)⟩
  | call method =>
    obtain ⟨found, hfound, h⟩ := Option.bind_eq_some_iff.1 h
    have hstep := (memberAt_owner (memberAt_call_inScope hfound)).2
    have hpath := StaticStart.implicitOwner_of_goOn h
    rw [hstep] at hpath
    exact ⟨_, bind_call_eq_ok_iff.2 ⟨found, hfound, congrArg (BoundLock.mk · _) hpath⟩⟩
  | select base id ih =>
    obtain ⟨type, htype, h⟩ := Option.bind_eq_some_iff.1 h
    obtain ⟨found, hfound, h⟩ := Option.bind_eq_some_iff.1 h
    obtain ⟨b, hb, hbtype, hbase⟩ := exists_base htype fun _ => ih
    have hstep := (memberAt_owner (memberAt_field hfound)).2
    obtain ⟨hobject, hpath⟩ := StaticStart.explicitOwner_of_goOn h hbase
    rw [hstep] at hpath
    exact ⟨_, bind_select_eq_ok_iff.2 ⟨b, hb, bindField_eq_ok_iff.2
      ⟨type, found, hbtype, hfound, hobject, congrArg (BoundLock.mk · _) hpath⟩⟩⟩
  | invoke base method ih =>
    obtain ⟨type, htype, h⟩ := Option.bind_eq_some_iff.1 h
    obtain ⟨found, hfound, h⟩ := Option.bind_eq_some_iff.1 h
    obtain ⟨b, hb, hbtype, hbase⟩ := exists_base htype fun _ => ih
    have hstep := (memberAt_owner (memberAt_call hfound)).2
    obtain ⟨hobject, hpath⟩ := StaticStart.explicitOwner_of_goOn h hbase
    rw [hstep] at hpath
    exact ⟨_, bind_invoke_eq_ok_iff.2 ⟨b, hb, bindCall_eq_ok_iff.2
      ⟨type, found, hbtype, hfound, hobject, congrArg (BoundLock.mk · _) hpath⟩⟩⟩

end TypeTable

/-- What names a lock: a text at a declaration, or an expression in a body. -/
inductive Spelling where
  | declared (scope : DeclScope) (text : String)
  | inBody (owner : String) (locals : Locals) (e : Expr)

namespace Spelling

/-- The path that is named, if there is one. -/
def path? (t : TypeTable) : Spelling → Option LockPath
  | .declared scope text => (t.resolve scope text).toOption.map (·.path)
  | .inBody owner locals e => (BodyScope.place ⟨t, owner, locals⟩ e).path

/-- The last static member that is named on the way, and the steps that follow it. -/
def lastStatic? (t : TypeTable) : Spelling → Option StaticStart
  | .declared scope text => (LockExpr.read text).toOption.bind (t.lastStatic? scope)
  | .inBody owner locals e => BodyScope.lastStatic? ⟨t, owner, locals⟩ e

theorem path?_of_lastStatic {t : TypeTable} {a : Spelling} {start : StaticStart}
    (h : a.lastStatic? t = some start) : a.path? t = some start.path := by
  cases a with
  | inBody owner locals e => exact BodyScope.place_of_lastStatic h
  | declared scope text =>
    obtain ⟨l, hread, hstart⟩ := Option.bind_eq_some_iff.1 h
    obtain ⟨type, hbind⟩ := TypeTable.bind_of_lastStatic hstart
    have hresolve := TypeTable.resolve_eq_ok_iff.2
      ⟨l, _, toOption_eq_some_iff.1 hread, hbind, rfl, fun _ => rfl, rfl⟩
    rw [path?, hresolve]
    rfl

end Spelling

/-- The expression followed by one more step. -/
def LockExpr.follow (l : LockExpr) : LockStep → LockExpr
  | .field id => .select l id
  | .call id => .invoke l id

/-- The expression followed by one more step, at some place of the text. -/
def Expr.follow (e : Expr) (s s' : Option Span) : LockStep → Expr
  | .field id => .member e id s
  | .call id => .call (.member e id s) [] s'

namespace TypeTable

variable {t : TypeTable} {scope : DeclScope} {s : LockStep} {owner : String} {m : Member}

/-- A type has no members of objects, at a declaration. -/
theorem not_bind_follow {l : LockExpr} {base bound : BoundLock} (hbase : t.bind scope l = .ok base)
    (hbare : base.path.isBareStatic = true) (hfind : t.memberAt base.type s = some (owner, m))
    (hm : m.isStatic = false) : t.bind scope (l.follow s) ≠ .ok bound := by
  intro h
  cases s with
  | field id =>
    obtain ⟨base', hbase', h⟩ := bind_select_eq_ok_iff.1 h
    obtain rfl := Except.ok.inj (hbase'.symm.trans hbase)
    obtain ⟨type, found, htype, hfound, hobject, -⟩ := bindField_eq_ok_iff.1 h
    rw [htype, memberAt_field hfound] at hfind
    cases hfind
    exact Bool.eq_false_iff.1 (hobject hm) hbare
  | call id =>
    obtain ⟨base', hbase', h⟩ := bind_invoke_eq_ok_iff.1 h
    obtain rfl := Except.ok.inj (hbase'.symm.trans hbase)
    obtain ⟨type, found, htype, hfound, hobject, -⟩ := bindCall_eq_ok_iff.1 h
    rw [htype, memberAt_call hfound] at hfind
    cases hfind
    exact Bool.eq_false_iff.1 (hobject hm) hbare

/-- A type has no members of objects, in a body. -/
theorem path_follow {σ : BodyScope} {e : Expr} {p : LockPath} {at' at'' : Option Span}
    (hbase : (σ.place e).path = some p) (hbare : p.isBareStatic = true)
    (hfind : σ.table.memberAt (σ.place e).type s = some (owner, m)) (hm : m.isStatic = false) :
    (σ.place (e.follow at' at'' s)).path = none := by
  cases s with
  | field id =>
    obtain ⟨found, hfound, heq⟩ := Option.map_eq_some_iff.1 hfind
    cases heq
    obtain ⟨type, htype, hfound⟩ := Option.bind_eq_some_iff.1 hfound
    have hstatic : found.decl.isStatic = false := hm
    simp [Expr.follow, BodyScope.place, BodyScope.fieldOf, htype, hfound, BodyScope.fieldPlace,
      BodyScope.memberPath, BodyScope.explicitReceiver, hstatic, hbase, hbare]
  | call id =>
    obtain ⟨found, hfound, heq⟩ := Option.map_eq_some_iff.1 hfind
    cases heq
    obtain ⟨type, htype, hfound⟩ := Option.bind_eq_some_iff.1 hfound
    have hstatic : found.decl.isStatic = false := hm
    simp [Expr.follow, BodyScope.place, BodyScope.methodOf, htype, hfound, BodyScope.callPlace,
      BodyScope.memberPath, BodyScope.explicitReceiver, hstatic, hbase, hbare]

theorem first_parameter {index : Nat} {name : String}
    (h : scope.HasRoot (.parameter index name)) :
    ∃ q, scope.parameters[index]? = some q ∧ q.name = name ∧
      ∀ i < index, ∀ q', scope.parameters[i]? = some q' → q'.name ≠ name := by
  obtain ⟨q, hfind⟩ := h
  obtain ⟨hname, i, hi, heq, hfirst⟩ := List.find?_eq_some_iff_getElem.1 hfind
  have hlt : i < scope.parameters.length := by simpa using hi
  obtain ⟨rfl, rfl⟩ : scope.parameters[i] = q ∧ i = index := by simpa using heq
  refine ⟨_, List.getElem?_eq_getElem _, by simpa using hname, fun k hk q' hq' => ?_⟩
  obtain ⟨hlt, rfl⟩ := List.getElem?_eq_some_iff.1 hq'
  simpa using hfirst k hk

/-- The paths of locks have one form, at declarations and in bodies. What a text names there begins
neither with a local nor with a later parameter of a name, and is no bare type; in a body there are
no parameters but locals. Spellings that agree from their last static member on name one path,
whatever stands before it, and after a bare type comes no member of an object. -/
theorem paths_canonical (t : TypeTable) :
    (∀ scope text lock, t.resolve scope text = .ok lock →
      t.Canonical (scope.rootType lock.path.root) lock.path ∧
        lock.path.isBareStatic = false ∧ (∀ name, lock.path.root ≠ .var name) ∧
        ∀ index name, lock.path.root = .parameter index name →
          ∃ q, scope.parameters[index]? = some q ∧ q.name = name ∧
            ∀ i < index, ∀ q', scope.parameters[i]? = some q' → q'.name ≠ name) ∧
    (∀ σ : BodyScope, σ.table = t → ∀ e p, (σ.place e).path = some p →
      t.Canonical (σ.rootType p.root) p ∧ ∀ index name, p.root ≠ .parameter index name) ∧
    (∀ (a b : Spelling) start, a.lastStatic? t = some start → b.lastStatic? t = some start →
      a.path? t = some start.path ∧ b.path? t = a.path? t) ∧
    (∀ s owner m, m.isStatic = false →
      (∀ scope l base bound, t.bind scope l = .ok base → base.path.isBareStatic = true →
        t.memberAt base.type s = some (owner, m) → t.bind scope (l.follow s) ≠ .ok bound) ∧
      ∀ (σ : BodyScope) e p at' at'', σ.table = t → (σ.place e).path = some p →
        p.isBareStatic = true → t.memberAt (σ.place e).type s = some (owner, m) →
        (σ.place (e.follow at' at'' s)).path = none) := by
  refine ⟨?_, ?_, ?_, ?_⟩
  · intro scope text lock h
    obtain ⟨l, bound, -, hbind, hbare, -, rfl⟩ := resolve_eq_ok_iff.1 h
    have hleads := leadsTo_of_bind hbind
    refine ⟨hleads.canonical, hbare, fun name hroot => ?_, fun index name hroot => ?_⟩
    · exact (hroot ▸ hleads.has : scope.HasRoot (.var name))
    · exact first_parameter (hroot ▸ hleads.has)
  · rintro σ rfl e p h
    have hleads := BodyScope.leadsTo_of_place h
    exact ⟨hleads.canonical, hleads.has⟩
  · intro a b start ha hb
    have hpath := Spelling.path?_of_lastStatic ha
    exact ⟨hpath, (Spelling.path?_of_lastStatic hb).trans hpath.symm⟩
  · intro s owner m hm
    refine ⟨fun scope l base bound hbase hbare hfind => ?_, ?_⟩
    · exact not_bind_follow hbase hbare hfind hm
    · rintro σ e p at' at'' rfl hbase hbare hfind
      exact path_follow hbase hbare hfind hm

end TypeTable

namespace Sample

def sharedLock : FieldDecl := ⟨"LOCK", "Object", true, [], none⟩

/-- `class Utils { static Object LOCK; Utils next; }` -/
def utils : TypeTable := .ofUnit
  ⟨"", [⟨"Utils", none, [sharedLock, ⟨"next", "Utils", false, [], none⟩], [], [], []⟩]⟩

end Sample

open Sample in
/-- The lock `LOCK`, named by itself at a declaration and through another object in a body. -/
theorem TypeTable.paths_canonical_sharedLock :
    let path : LockPath := ⟨.static "Utils", [.field "LOCK"]⟩
    let named : Spelling := .declared ⟨"Utils", [], true⟩ "LOCK"
    let reached : Spelling :=
      .inBody "Utils" ⟨[], []⟩ (.member (.member .this "next" none) "LOCK" none)
    named.path? utils = some path ∧ reached.path? utils = named.path? utils ∧
      utils.Canonical (some "Utils") path := by
  intro path named reached
  have hread : LockExpr.read "LOCK" = .ok (.name "LOCK") := by decide +kernel
  have hnamed : named.lastStatic? utils = some ⟨"Utils", .field sharedLock, []⟩ := by
    rw [Spelling.lastStatic?, hread]
    cbv
  have hreached : reached.lastStatic? utils = some ⟨"Utils", .field sharedLock, []⟩ := by cbv
  have hbody : (BodyScope.place ⟨utils, "Utils", ⟨[], []⟩⟩
      (.member (.member .this "next" none) "LOCK" none)).path = some path := by cbv
  obtain ⟨-, hplaces, hsame, -⟩ := paths_canonical utils
  obtain ⟨hpath, heq⟩ := hsame named reached _ hnamed hreached
  exact ⟨hpath, heq, (hplaces _ rfl _ _ hbody).1⟩

end LockDiscipline
