import LockDiscipline.Guard.UnitCheck
import LockDiscipline.Proofs.Names.Lookup

/-! Where findings arise: each is about an annotation of a member, or about an access in a method's
body, and it names that member and its type. -/

namespace LockDiscipline

/-- A member as it is declared. -/
inductive Member where
  | field (f : FieldDecl)
  | method (m : MethodDecl)

namespace Member

def name : Member → String
  | .field f => f.name
  | .method m => m.name

def attributes : Member → List Attribute
  | .field f => f.attributes
  | .method m => m.attributes

end Member

namespace Finding

/-- What is reported of an annotation that does not resolve. -/
def ofResult? {α : Type} : Except Finding α → Option Finding
  | .error x => some x
  | .ok _ => none

theorem mem_filterMap_ofResult {α : Type} {x : Finding} {l : List (Except Finding α)} :
    x ∈ l.filterMap ofResult? ↔ .error x ∈ l := by
  rw [List.mem_filterMap]
  constructor
  · rintro ⟨result, hresult, hx⟩
    cases result with
    | error => cases hx; exact hresult
    | ok => cases hx
  · exact fun h => ⟨_, h, rfl⟩

end Finding

namespace TypeTable

variable {t : TypeTable} {api : LockApi} {u : CompilationUnit} {d : TypeDecl} {member : Member}
  {x : Finding}

/-- `t.ArisesAt api d member x`: the finding `x` is about an annotation of this member of `d`, or
about an access in its body. -/
inductive ArisesAt (t : TypeTable) (api : LockApi) (d : TypeDecl) : Member → Finding → Prop
  | fieldGuard {f x} :
      f ∈ d.fields → t.fieldGuard d.name f = some (.error x) → ArisesAt t api d (.field f) x
  | methodGuard {m x} :
      m ∈ d.methods → t.methodGuard d.name m = some (.error x) → ArisesAt t api d (.method m) x
  | effect {m x} :
      m ∈ d.methods → .error x ∈ t.methodEffects d.name m → ArisesAt t api d (.method m) x
  | access {m x} :
      m ∈ d.methods → x ∈ t.checkMethod api d.name m → ArisesAt t api d (.method m) x

private theorem finding_owner_member (text : String) (at' : MemberRef) (span : Option Span)
    (e : ResolutionError) :
    (e.finding text at' span).owner = at'.owner ∧
      (e.finding text at' span).member = some at'.name := by
  cases e <;> exact ⟨rfl, rfl⟩

private theorem owner_member_of_guardOf {scope : DeclScope} {at' : MemberRef}
    {attributes : List Attribute} {span : Option Span}
    (h : t.guardOf scope at' attributes span = some (.error x)) :
    x.owner = at'.owner ∧ x.member = some at'.name := by
  obtain ⟨a, -, ha⟩ := Option.map_eq_some_iff.1 h
  dsimp only at ha
  split at ha
  · split at ha
    · cases ha
    · cases ha
      exact finding_owner_member ..
  · cases ha
    exact ⟨rfl, rfl⟩

private theorem owner_member_of_methodEffects {owner : String} {m : MethodDecl}
    (h : .error x ∈ t.methodEffects owner m) : x.owner = owner ∧ x.member = some m.name := by
  obtain ⟨a, -, ha⟩ := List.mem_flatMap.1 h
  split at ha
  · cases ha
  · obtain ⟨text, -, htext⟩ := List.mem_map.1 ha
    split at htext
    · cases htext
    · cases htext
      exact finding_owner_member ..

/-- An access is a violation if the accessed member is guarded and the lock of the guard, seen from
the access, is not held. -/
theorem violation?_eq_some_iff {owner : String} {m : MethodDecl} {access : Access}
    {held : HeldSet} :
    t.violation? owner m access held = some x ↔
      ∃ guarded required, t.guarded? access.member = some guarded ∧
        access.isOnNewObject m = false ∧
        guarded.required.path.instantiate access.receiver access.args = some required ∧
        required ∉ held ∧ .notHeld owner m.name guarded required access.span = x := by
  rw [violation?]
  cases t.guarded? access.member with
  | none => simp
  | some guarded =>
    cases hnew : access.isOnNewObject m with
    | true => simp
    | false =>
      cases hlock : guarded.required.path.instantiate access.receiver access.args with
      | none => simp [hlock]
      | some required => by_cases hheld : required ∈ held <;> simp [hlock, hheld]

private theorem owner_member_of_checkMethod {owner : String} {m : MethodDecl}
    (h : x ∈ t.checkMethod api owner m) : x.owner = owner ∧ x.member = some m.name := by
  rw [checkMethod] at h
  split at h
  · cases h
  · obtain ⟨a, -, ha⟩ := List.mem_filterMap.1 h
    obtain ⟨_, _, _, _, _, _, rfl⟩ := violation?_eq_some_iff.1 ha
    exact ⟨rfl, rfl⟩

/-- A finding names the member that it arises at, and its type. -/
theorem ArisesAt.owner_member (h : t.ArisesAt api d member x) :
    x.owner = d.name ∧ x.member = some member.name := by
  cases h with
  | fieldGuard _ h => exact owner_member_of_guardOf h
  | methodGuard _ h => exact owner_member_of_guardOf h
  | effect _ h => exact owner_member_of_methodEffects h
  | access _ h => exact owner_member_of_checkMethod h

theorem guardFindings_eq (owner : String) :
    t.guardFindings owner = (t.guards owner).filterMap Finding.ofResult? := by
  rw [guardFindings]
  congr 1
  funext result
  cases result <;> rfl

theorem effectFindings_eq (owner : String) :
    t.effectFindings owner = (t.effects owner).filterMap Finding.ofResult? := by
  rw [effectFindings]
  congr 1
  funext result
  cases result <;> rfl

theorem mem_checkType_iff (hd : t.typeDecl? d.name = some d) :
    x ∈ t.checkType api d ↔ ∃ member, t.ArisesAt api d member x := by
  simp only [checkType, List.mem_append, guardFindings_eq, effectFindings_eq,
    Finding.mem_filterMap_ofResult]
  simp only [guards, effects, hd, List.mem_append, List.mem_filterMap, List.mem_flatMap]
  constructor
  · rintro (((⟨f, hf, h⟩ | ⟨m, hm, h⟩) | ⟨m, hm, h⟩) | ⟨m, hm, h⟩)
    · exact ⟨.field f, .fieldGuard hf h⟩
    · exact ⟨.method m, .methodGuard hm h⟩
    · exact ⟨.method m, .effect hm h⟩
    · exact ⟨.method m, .access hm h⟩
  · rintro ⟨_, h⟩
    cases h with
    | fieldGuard hf h => exact .inl (.inl (.inl ⟨_, hf, h⟩))
    | methodGuard hm h => exact .inl (.inl (.inr ⟨_, hm, h⟩))
    | effect hm h => exact .inl (.inr ⟨_, hm, h⟩)
    | access hm h => exact .inr ⟨_, hm, h⟩

/-- Every finding of a unit arises at a member of one of its types. -/
theorem mem_check_iff : x ∈ (ofUnit u).check api ↔
    ∃ d ∈ (ofUnit u).types, ∃ member, (ofUnit u).ArisesAt api d member x := by
  rw [check, List.mem_flatMap]
  exact exists_congr fun d => and_congr_right fun hd =>
    mem_checkType_iff (typeDecl?_of_mem_types hd)

end TypeTable

end LockDiscipline
