import LockDiscipline.Proofs.Except
import LockDiscipline.Proofs.Guards.Findings
import LockDiscipline.Proofs.Guards.Overloads
import LockDiscipline.Proofs.Held.Origin
import Mathlib.Data.List.Nodup

/-! Static members. A lock that guards one is found without an instance, so what is required at an
access does not depend on the object, if any, through which the member is reached. -/

namespace LockDiscipline

/-- What the checks call the member. -/
def Member.ref (owner : String) : Member → MemberRef
  | .field f => .field owner f.name
  | .method m => .method owner m

theorem Member.owner_ref (owner : String) (member : Member) : (member.ref owner).owner = owner := by
  cases member <;> rfl

namespace TypeDecl

/-- Whether no two fields of the type share a name, and no two methods a name and an arity. -/
structure Distinct (d : TypeDecl) : Prop where
  fields : (d.fields.map (·.name)).Nodup
  methods : (d.methods.map fun m => (m.name, m.arity)).Nodup

/-- The members of the type, fields before methods, in the order of declaration. -/
def members (d : TypeDecl) : List Member :=
  d.fields.map .field ++ d.methods.map .method

variable {d : TypeDecl} {member member' : Member}

@[simp] theorem field_mem_members {f : FieldDecl} : .field f ∈ d.members ↔ f ∈ d.fields := by
  simp [members]

@[simp] theorem method_mem_members {m : MethodDecl} : .method m ∈ d.members ↔ m ∈ d.methods := by
  simp [members]

theorem Distinct.ref_inj (hdistinct : d.Distinct) (h : member ∈ d.members)
    (h' : member' ∈ d.members) (href : member.ref d.name = member'.ref d.name) :
    member = member' := by
  cases member with
  | field f =>
    cases member' with
    | field f' =>
      have hname := (MemberRef.field_inj.1 href).2
      rw [List.inj_on_of_nodup_map hdistinct.fields (field_mem_members.1 h)
        (field_mem_members.1 h') hname]
    | method m' => exact absurd href MemberRef.field_ne_method
  | method m =>
    cases member' with
    | field f' => exact absurd href.symm MemberRef.field_ne_method
    | method m' =>
      have hsame := (MemberRef.method_inj.1 href).2
      rw [List.inj_on_of_nodup_map hdistinct.methods (method_mem_members.1 h)
        (method_mem_members.1 h') (Prod.ext hsame.1 hsame.2)]

end TypeDecl

namespace BodyScope

variable {σ : BodyScope} {base : Option Expr} {id : String} {arity : Nat}

/-- The field that an access reaches is found on some type; a static one is reached through no
object. -/
theorem found_of_fieldSite {site : MemberSite FieldDecl} (h : σ.fieldSite base id = some site) :
    (∃ type via, σ.table.findField type id = some ⟨site.owner, site.decl, via⟩) ∧
      (site.decl.isStatic = true → site.receiver = none) := by
  cases base with
  | none =>
    obtain ⟨-, found, hfound, rfl⟩ := bareField_eq_some_iff.1 h
    exact ⟨TypeTable.inScope_eq_some hfound, fun hstatic => if_pos hstatic⟩
  | some e =>
    obtain ⟨type, found, -, hfound, rfl⟩ := fieldOf_eq_some_iff.1 h
    exact ⟨⟨type, found.viaOuter, hfound⟩, fun hstatic => if_pos hstatic⟩

theorem receiver_of_methodSite {site : MemberSite MethodDecl}
    (h : σ.methodSite base id arity = some site) (hstatic : site.decl.isStatic = true) :
    site.receiver = none := by
  cases base with
  | none =>
    obtain ⟨found, -, rfl⟩ := bareMethod_eq_some_iff.1 h
    exact if_pos hstatic
  | some e =>
    obtain ⟨type, found, -, -, rfl⟩ := methodOf_eq_some_iff.1 h
    exact if_pos hstatic

end BodyScope

namespace TypeTable

variable {t : TypeTable} {u : CompilationUnit} {d : TypeDecl} {f : FieldDecl} {m : MethodDecl}
  {guarded : GuardedMember} {a : Access} {owner : String}

private theorem eq_of_find?_field (hdistinct : d.Distinct) (hf : f ∈ d.fields) {f' : FieldDecl}
    (h : d.fields.find? (fun f' => f'.name = f.name) = some f') : f' = f :=
  List.inj_on_of_nodup_map hdistinct.fields (List.mem_of_find?_eq_some h) hf
    (by simpa using List.find?_some h)

private theorem eq_of_find?_method (hdistinct : d.Distinct) (hm : m ∈ d.methods) {m' : MethodDecl}
    (h : d.methods.find? (fun m' => m'.name = m.name ∧ m'.arity = m.arity) = some m') : m' = m := by
  have hsame : m'.name = m.name ∧ m'.arity = m.arity := by simpa using List.find?_some h
  exact List.inj_on_of_nodup_map hdistinct.methods (List.mem_of_find?_eq_some h) hm
    (Prod.ext hsame.1 hsame.2)

/-- The guard of a member. -/
def guardAt (t : TypeTable) (owner : String) : Member → Option (Except Finding GuardedMember)
  | .field f => t.fieldGuard owner f
  | .method m => t.methodGuard owner m

theorem member_of_guardAt {member : Member} (h : t.guardAt owner member = some (.ok guarded)) :
    guarded.member = member.ref owner := by
  cases member <;> exact member_of_guardOf (Option.bind_eq_some_iff.2 ⟨_, h, rfl⟩)

theorem guards_eq (hd : t.typeDecl? d.name = some d) :
    t.guards d.name = d.members.filterMap (t.guardAt d.name) := by
  simp only [guards, hd, TypeDecl.members, List.filterMap_append, List.filterMap_map]
  rfl

/-- What is known by a name is the guard of a member with the name. -/
theorem exists_of_guarded? (hd : t.typeDecl? d.name = some d) {ref : MemberRef}
    (hown : ref.owner = d.name) (h : t.guarded? ref = some guarded) :
    ∃ member ∈ d.members, member.ref d.name = ref ∧
      t.guardAt d.name member = some (.ok guarded) := by
  rw [guarded?, hown, guards_eq hd] at h
  have hmem := List.mem_reverse.1 (List.mem_of_find?_eq_some h)
  obtain ⟨result, hresult, hok⟩ := List.mem_filterMap.1 hmem
  obtain ⟨member, hmember, hguard⟩ := List.mem_filterMap.1 hresult
  obtain rfl := toOption_eq_some_iff.1 hok
  have hfound : guarded.member = ref := by simpa using List.find?_some h
  exact ⟨member, hmember, (member_of_guardAt hguard).symm.trans hfound, hguard⟩

/-- Where no two members share a name, what is known of a member is its own guard. -/
theorem guarded?_eq_some_iff (hd : t.typeDecl? d.name = some d) (hdistinct : d.Distinct)
    {member : Member} (hmember : member ∈ d.members) :
    t.guarded? (member.ref d.name) = some guarded ↔
      t.guardAt d.name member = some (.ok guarded) := by
  have hown {guarded' : GuardedMember} (h : t.guarded? (member.ref d.name) = some guarded') :
      t.guardAt d.name member = some (.ok guarded') := by
    obtain ⟨member', hmember', href, hguard⟩ := exists_of_guarded? hd (member.owner_ref d.name) h
    obtain rfl := hdistinct.ref_inj hmember' hmember href
    exact hguard
  refine ⟨hown, fun hguard => ?_⟩
  have hmem : guarded ∈ (t.guards d.name).filterMap Except.toOption := by
    rw [guards_eq hd]
    exact List.mem_filterMap.2 ⟨_, List.mem_filterMap.2 ⟨member, hmember, hguard⟩, rfl⟩
  have hfound : (t.guarded? (member.ref d.name)).isSome := by
    rw [guarded?, member.owner_ref]
    exact List.find?_isSome.2
      ⟨guarded, List.mem_reverse.2 hmem, by simpa using member_of_guardAt hguard⟩
  obtain ⟨guarded', hguarded'⟩ := Option.isSome_iff_exists.1 hfound
  cases hguard.symm.trans (hown hguarded')
  exact hguarded'

theorem guarded?_field (hd : t.typeDecl? d.name = some d) (hdistinct : d.Distinct)
    (hf : f ∈ d.fields) (hguard : t.fieldGuard d.name f = some (.ok guarded)) :
    t.guarded? (.field d.name f.name) = some guarded :=
  (guarded?_eq_some_iff hd hdistinct (TypeDecl.field_mem_members.2 hf)).2 hguard

theorem guarded?_sole_method (hd : t.typeDecl? d.name = some d) (hdistinct : d.Distinct)
    (hm : m ∈ d.methods) (hguard : t.methodGuard d.name m = some (.ok guarded)) :
    t.guarded? (.method d.name m) = some guarded :=
  (guarded?_eq_some_iff hd hdistinct (TypeDecl.method_mem_members.2 hm)).2 hguard

/-- The lock of a static member is found from a type or, at a method, from a parameter. -/
theorem static_of_resolve {scope : DeclScope} {text : String} {r : ResolvedLock}
    (h : t.resolve scope text = .ok r) (hstatic : scope.isStatic = true) :
    (∃ type steps, steps ≠ [] ∧ r.path = ⟨.static type, steps⟩) ∨
      ∃ index name steps, index < scope.parameters.length ∧
        r.path = ⟨.parameter index name, steps⟩ := by
  obtain ⟨l, bound, -, hbind, hbare, hfree, rfl⟩ := resolve_eq_ok_iff.1 h
  have hfree := hfree hstatic
  obtain ⟨⟨root, steps⟩, type⟩ := bound
  cases root with
  | static S =>
    refine .inl ⟨S, steps, ?_, rfl⟩
    rintro rfl
    cases hbare
  | parameter index name => exact .inr ⟨index, name, steps, index_lt_of_bind hbind rfl, rfl⟩
  | _ => cases hfree

/-- The lock that is required at an access: that of the member's guard, seen from the access. -/
def required? (t : TypeTable) (a : Access) : Option LockPath :=
  (t.guarded? a.member).bind fun guarded => guarded.required.path.instantiate a.receiver a.args

/-- An access of a static member is approved if the lock required there is held. -/
theorem violation?_of_isStatic (owner : String) (m : MethodDecl) (held : HeldSet)
    (hstatic : a.isStatic = true)
    (hguard : t.guarded? a.member = some guarded) {required : LockPath}
    (hrequired : t.required? a = some required) :
    t.violation? owner m a held =
      if required ∈ held then none else some (.notHeld owner m.name guarded required a.span) := by
  have hlock : guarded.required.path.instantiate a.receiver a.args = some required := by
    simpa [required?, hguard] using hrequired
  simp [violation?, hguard, hlock, Access.isOnNewObject, hstatic]

/-- A static field is accessed through no object. -/
theorem MayAccess.of_static_field (h : t.MayAccess owner a) (hd : t.typeDecl? d.name = some d)
    (hdistinct : d.Distinct) (hf : f ∈ d.fields) (hstatic : f.isStatic = true)
    (hmember : a.member = .field d.name f.name) : a.isStatic = true ∧ a.receiver = none := by
  cases h with
  | @field l base id site span hsite =>
    obtain ⟨howner, hid⟩ := MemberRef.field_inj.1 hmember
    obtain ⟨⟨type, via, hfound⟩, hreceiver⟩ := BodyScope.found_of_fieldSite hsite
    obtain ⟨d', hd', hfind⟩ := findField_eq_some hfound
    rw [howner, hd] at hd'
    cases hd'
    rw [hid] at hfind
    obtain rfl := eq_of_find?_field hdistinct hf hfind
    exact ⟨hstatic, hreceiver hstatic⟩
  | method => exact absurd hmember.symm MemberRef.field_ne_method

/-- A static method is called through no object, with as many arguments as it has parameters. -/
theorem MayAccess.of_static_method (h : t.MayAccess owner a) (hd : t.typeDecl? d.name = some d)
    (hdistinct : d.Distinct) (hm : m ∈ d.methods) (hstatic : m.isStatic = true)
    (hmember : a.member = .method d.name m) :
    a.isStatic = true ∧ a.receiver = none ∧ a.args.length = m.parameters.length := by
  cases h with
  | field => exact absurd hmember MemberRef.field_ne_method
  | @method l base id args site span hsite =>
    obtain ⟨type, via, hfound⟩ := BodyScope.findMethod_of_methodSite hsite
    obtain ⟨d', hd', hfind⟩ := findMethod_eq_some hfound
    obtain ⟨hid, hargs⟩ : site.decl.name = id ∧ site.decl.arity = args.length := by
      simpa using List.find?_some hfind
    obtain ⟨howner, hname, hlength⟩ := MemberRef.method_inj.1 hmember
    rw [howner, hd] at hd'
    cases hd'
    rw [← hid, ← hargs, hname, hlength] at hfind
    have hdecl : site.decl = m := eq_of_find?_method hdistinct hm hfind
    have hstatic : site.decl.isStatic = true := hdecl ▸ hstatic
    exact ⟨hstatic, BodyScope.receiver_of_methodSite hsite hstatic, hargs.symm.trans hlength⟩

/-- What is required at an access of a static field is the lock of its guard, which is found from a
type, whichever way the field was reached; so no lock of an instance approves the access. At a call
of a static method it is such a lock, or one found from an argument. -/
theorem required?_static {api : LockApi} {caller : MethodDecl} {body : List Stmt}
    {entry held : HeldSet} (hd : d ∈ (ofUnit u).types) (hdistinct : d.Distinct)
    (h : (a, held) ∈ (((ofUnit u).walkContext api).walk (.ofMethod (ofUnit u) owner caller) body
      entry).trace.accesses) :
    (∀ f ∈ d.fields, f.isStatic = true → ∀ guarded,
      (ofUnit u).fieldGuard d.name f = some (.ok guarded) → a.member = .field d.name f.name →
        a.receiver = none ∧ ∃ type steps, steps ≠ [] ∧
          guarded.required.path = ⟨.static type, steps⟩ ∧
          (ofUnit u).required? a = some guarded.required.path ∧
          ((ofUnit u).violation? owner caller a held = none ↔ guarded.required.path ∈ held) ∧
          ((∀ p ∈ held, ∀ type', p.root ≠ .static type') →
            ((ofUnit u).violation? owner caller a held).isSome)) ∧
    ∀ m ∈ d.methods, m.isStatic = true → ∀ guarded,
      (ofUnit u).methodGuard d.name m = some (.ok guarded) → a.member = .method d.name m →
        a.receiver = none ∧
          ((∃ type steps, steps ≠ [] ∧ guarded.required.path = ⟨.static type, steps⟩ ∧
            (ofUnit u).required? a = some guarded.required.path) ∨
          ∃ index name steps arg, guarded.required.path = ⟨.parameter index name, steps⟩ ∧
            a.args[index]? = some arg ∧
            (ofUnit u).required? a = arg.map fun p => ⟨p.root, p.steps ++ steps⟩) := by
  have hd := typeDecl?_of_mem_types hd
  have hsite : (ofUnit u).MayAccess owner a := (WalkContext.origin_of_mem_walk h).1
  constructor
  · intro f hf hstatic guarded hguard hmember
    obtain ⟨ha, hreceiver⟩ := hsite.of_static_field hd hdistinct hf hstatic hmember
    have hguarded := guarded?_field hd hdistinct hf hguard
    rw [← hmember] at hguarded
    have hown : ((ofUnit u).fieldGuard d.name f).bind Except.toOption = some guarded := by
      rw [hguard]
      rfl
    obtain ⟨_, _, lock, -, -, hresolve, rfl⟩ := guardOf_eq_ok_iff.1 hown
    obtain ⟨type, steps, hsteps, hpath⟩ | ⟨_, _, _, hindex, -⟩ := static_of_resolve hresolve hstatic
    · have hrequired : (ofUnit u).required? a = some lock.path := by
        simp [required?, hguarded, hpath, LockPath.instantiate]
      have hviolation := violation?_of_isStatic owner caller held ha hguarded hrequired
      refine ⟨hreceiver, type, steps, hsteps, hpath, hrequired, ?_, fun hheld => ?_⟩
      · rw [hviolation]
        by_cases hheld : lock.path ∈ held <;> simp [hheld]
      · have hfree : lock.path ∉ held := fun hmem => hheld lock.path hmem type (by rw [hpath])
        rw [hviolation, if_neg hfree]
        rfl
    · cases hindex
  · intro m hm hstatic guarded hguard hmember
    obtain ⟨ha, hreceiver, hargs⟩ := hsite.of_static_method hd hdistinct hm hstatic hmember
    have hguarded := guarded?_sole_method hd hdistinct hm hguard
    rw [← hmember] at hguarded
    have hown : (ofUnit u).ownGuard? d.name m = some guarded := by
      rw [ownGuard?, hguard]
      rfl
    obtain ⟨_, _, lock, -, -, hresolve, rfl⟩ := guardOf_eq_ok_iff.1 hown
    obtain ⟨type, steps, hsteps, hpath⟩ | ⟨index, name, steps, hindex, hpath⟩ :=
      static_of_resolve hresolve hstatic
    · refine ⟨hreceiver, .inl ⟨type, steps, hsteps, hpath, ?_⟩⟩
      simp [required?, hguarded, hpath, LockPath.instantiate]
    · have harg : index < a.args.length := hargs ▸ hindex
      refine ⟨hreceiver, .inr ⟨index, name, steps, a.args[index], hpath,
        List.getElem?_eq_getElem harg, ?_⟩⟩
      simp [required?, hguarded, hpath, LockPath.instantiate, harg]

end TypeTable

namespace Sample

/-- `@GuardedBy("mutex") static int total;` -/
def total : FieldDecl := ⟨"total", "int", true, [⟨"GuardedBy", ["mutex"], none⟩], none⟩

/-- `@GuardedBy("other.own") static void add(Tally other);` -/
def add : MethodDecl :=
  { name := "add", isConstructor := false, parameters := [⟨"other", "Tally"⟩], returnType := none
    isStatic := true, attributes := [⟨"GuardedBy", ["other.own"], none⟩], body := none
    span := none }

/-- `void run(Tally t) { lock (own) { t.total; add(t); } }` -/
def run : MethodDecl :=
  { name := "run", isConstructor := false, parameters := [⟨"t", "Tally"⟩], returnType := none
    isStatic := false, attributes := [], span := none
    body := some [.lock (.name "own" none) (.block
      [.expr (.member (.name "t" none) "total" none),
       .expr (.call (.name "add" none) [.name "t" none] none)])] }

/-- A class with these members and the fields `static Lock mutex` and `Lock own`. -/
def tally : TypeDecl :=
  { name := "Tally", base := none
    fields := [⟨"mutex", "Lock", true, [], none⟩, ⟨"own", "Lock", false, [], none⟩, total]
    methods := [add, run], nested := [], attributes := [] }

def tallyUnit : CompilationUnit := { path := "", types := [tally] }

/-- The accesses in `run`. -/
def tallyAccesses : List (Access × HeldSet) :=
  (((TypeTable.ofUnit tallyUnit).walkContext {}).walk (.ofMethod (.ofUnit tallyUnit) "Tally" run)
    (run.body.getD []) ∅).trace.accesses

end Sample

open Sample in
theorem TypeTable.required?_static_tally :
    ∃ read call held, (read, held) ∈ tallyAccesses ∧ (call, held) ∈ tallyAccesses ∧
      held = .insert ∅ ⟨.this, [.field "own"]⟩ ∧
      (ofUnit tallyUnit).required? read = some ⟨.static "Tally", [.field "mutex"]⟩ ∧
      ((ofUnit tallyUnit).violation? "Tally" run read held).isSome ∧
      (ofUnit tallyUnit).required? call = some ⟨.var "t", [.field "own"]⟩ := by
  let held : HeldSet := .insert ∅ ⟨.this, [.field "own"]⟩
  let read : Access := ⟨.field "Tally" "total", none, [], true, none⟩
  let call : Access := ⟨.method "Tally" add, none, [some (.var "t")], true, none⟩
  let mutex : GuardedMember := ⟨.field "Tally" "total",
    ⟨.name "mutex", "mutex", ⟨.static "Tally", [.field "mutex"]⟩, "Tally", true⟩, true⟩
  let own : GuardedMember := ⟨.method "Tally" add,
    ⟨.select (.name "other") "own", "other.own", ⟨.parameter 0 "other", [.field "own"]⟩, "Tally",
      true⟩, true⟩
  have htype : tally ∈ (ofUnit tallyUnit).types := by
    rw [show (ofUnit tallyUnit).types = [tally] by cbv]
    exact .head _
  have hdistinct : tally.Distinct := ⟨by decide, by decide⟩
  have hread : (read, held) ∈ tallyAccesses := by decide +kernel
  have hcall : (call, held) ∈ tallyAccesses := by decide +kernel
  have hmutex : (ofUnit tallyUnit).fieldGuard "Tally" total = some (.ok mutex) := by
    decide +kernel
  have hown : (ofUnit tallyUnit).methodGuard "Tally" add = some (.ok own) := by decide +kernel
  obtain ⟨-, _, _, -, -, hrequired, -, hviolation⟩ :=
    (required?_static htype hdistinct hread).1 total (by decide) rfl mutex hmutex rfl
  obtain ⟨-, ⟨_, _, -, hpath, -⟩ | ⟨_, _, _, _, hpath, harg, hcalled⟩⟩ :=
    (required?_static htype hdistinct hcall).2 add (.head _) rfl own hown rfl
  · cases hpath
  · cases hpath
    cases harg
    refine ⟨read, call, held, hread, hcall, rfl, hrequired, hviolation ?_, hcalled⟩
    intro p hp type
    obtain rfl : p = ⟨.this, [.field "own"]⟩ := by simpa [held] using hp
    simp

end LockDiscipline
