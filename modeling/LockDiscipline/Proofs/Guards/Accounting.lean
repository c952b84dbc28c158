import LockDiscipline.Proofs.Guards.Statics
import LockDiscipline.Proofs.Names.Canonical
import Mathlib.Data.List.Forall2

/-! Every annotation of a type is accounted for: it ends as what the checks know of its member or as
a finding about it, and never as both. The findings keep the order in which the annotations stand. -/

namespace LockDiscipline

/-- `a.HasTexts texts`: these are the arguments of `a`, each cut at its commas, without the white space
at the ends of the parts. A part may be empty. -/
def Attribute.HasTexts (a : Attribute) (texts : List String) : Prop :=
  ∃ raw : List (List String), a.args = raw.map (Text.join ",") ∧
    (∀ parts ∈ raw, parts ≠ [] ∧ ∀ part ∈ parts, ',' ∉ part.toList) ∧
    texts = raw.flatten.map Text.trim

theorem Attribute.hasTexts_lockTexts (a : Attribute) : a.HasTexts a.lockTexts := by
  refine ⟨a.args.map (Text.pieces ','), ?_, ?_, rfl⟩
  · have hjoin : Text.join "," ∘ Text.pieces ',' = id := funext (Text.join_pieces ',')
    rw [List.map_map, hjoin, List.map_id]
  · intro parts hparts
    obtain ⟨arg, -, rfl⟩ := List.mem_map.1 hparts
    refine ⟨by simp [Text.pieces, Text.splitOn_ne_nil], fun part hpart => ?_⟩
    obtain ⟨run, hrun, rfl⟩ := List.mem_map.1 hpart
    rw [String.toList_ofList]
    exact Text.not_mem_of_mem_splitOn hrun

/-- `a.IsFirstGuard attributes`: of these attributes, `a` is the first that names a guard. -/
def Attribute.IsFirstGuard (a : Attribute) (attributes : List Attribute) : Prop :=
  ∃ before after, attributes = before ++ a :: after ∧ a.isGuard = true ∧
    ∀ b ∈ before, b.isGuard = false

/-- A text listed by an attribute that says what its method does to locks. -/
structure ListedLock where
  listedBy : Attribute
  effect : LockEffect
  text : String

/-- The lock texts that the attributes of a method list, in order. -/
def MethodDecl.listedLocks (m : MethodDecl) : List ListedLock :=
  m.attributes.flatMap fun a =>
    a.lockEffect?.toList.flatMap fun effect => a.lockTexts.map fun text => ⟨a, effect, text⟩

namespace Member

/-- Where the locks of the member's annotations are named. -/
def scope (owner : String) : Member → DeclScope
  | .field f => ⟨owner, [], f.isStatic⟩
  | .method m => ⟨owner, m.parameters, m.isStatic⟩

def span : Member → Option Span
  | .field f => f.span
  | .method m => m.span

theorem isStatic_scope (owner : String) (member : Member) :
    (member.scope owner).isStatic = member.isStatic := by
  cases member <;> rfl

end Member

/-- Whether the lock is marked as one that needs no instance, and begins at a type or a parameter. -/
def ResolvedLock.Instanceless (r : ResolvedLock) : Prop :=
  r.isStatic = true ∧
    ((∃ type, r.path.root = .static type) ∨ ∃ index name, r.path.root = .parameter index name)

namespace TypeTable

/-- `t.Guarding owner member outcome`: what the guard attributes of a member of `owner` come to. Only
the first of them counts. -/
inductive Guarding (t : TypeTable) (owner : String) (member : Member) :
    Option (Except Finding GuardedMember) → Prop
  | unguarded : (∀ a ∈ member.attributes, a.isGuard = false) → Guarding t owner member none
  | resolved {a : Attribute} {text lock} : a.IsFirstGuard member.attributes → a.lockTexts = [text] →
      t.resolve (member.scope owner) text = .ok lock →
      Guarding t owner member (some (.ok ⟨member.ref owner, lock, member.isStatic⟩))
  | unresolved {a : Attribute} {text e} : a.IsFirstGuard member.attributes → a.lockTexts = [text] →
      t.resolve (member.scope owner) text = .error e →
      Guarding t owner member
        (some (.error (e.finding text (member.ref owner) (a.span.or member.span))))
  | notOneLock {a : Attribute} : a.IsFirstGuard member.attributes → a.lockTexts.length ≠ 1 →
      Guarding t owner member
        (some (.error (.notOneLock a.lockTexts (member.ref owner) (a.span.or member.span))))

/-- `t.Binding owner m listed outcome`: what a lock that the method `m` lists comes to. -/
inductive Binding (t : TypeTable) (owner : String) (m : MethodDecl) (listed : ListedLock) :
    Except Finding LockBinding → Prop
  | resolved {lock} : t.resolve ⟨owner, m.parameters, m.isStatic⟩ listed.text = .ok lock →
      Binding t owner m listed (.ok ⟨.method owner m, lock, listed.effect⟩)
  | unresolved {e} : t.resolve ⟨owner, m.parameters, m.isStatic⟩ listed.text = .error e →
      Binding t owner m listed
        (.error (e.finding listed.text (.method owner m) (listed.listedBy.span.or m.span)))

/-- What the checks know of the annotations of the type and what is reported of them, annotation by
annotation. -/
structure Accounted (t : TypeTable) (d : TypeDecl) : Prop where
  guards : ∃ outcomes,
    d.members.Forall₂ (fun member outcome => t.Guarding d.name member outcome ∧
      t.guarded? (member.ref d.name) = outcome.bind Except.toOption) outcomes ∧
    t.guardFindings d.name = outcomes.filterMap fun outcome => outcome.bind Finding.ofResult?
  effects : ∃ outcomes : List (List (Except Finding LockBinding)),
    d.methods.Forall₂ (fun m outcome => m.listedLocks.Forall₂ (t.Binding d.name m) outcome ∧
      t.bindings (.method d.name m) = outcome.filterMap Except.toOption) outcomes ∧
    t.effectFindings d.name = outcomes.flatten.filterMap Finding.ofResult?
  texts : ∀ member ∈ d.members, ∀ a ∈ member.attributes, a.HasTexts a.lockTexts
  no_other : ∀ ref, ref.owner = d.name → (t.guarded? ref).isSome ∨ t.bindings ref ≠ [] →
    ∃ member ∈ d.members, member.ref d.name = ref
  static : ∀ member ∈ d.members, member.isStatic = true →
    (∀ guarded, t.guarded? (member.ref d.name) = some guarded → guarded.required.Instanceless) ∧
      ∀ binding ∈ t.bindings (member.ref d.name), binding.lock.Instanceless

variable {t : TypeTable} {u : CompilationUnit} {d : TypeDecl} {owner : String} {member : Member}
  {m : MethodDecl}

theorem guardAt_eq (member : Member) : t.guardAt owner member =
    t.guardOf (member.scope owner) (member.ref owner) member.attributes member.span := by
  cases member <;> rfl

theorem isFirstGuard_of_find? {a : Attribute} {attributes : List Attribute}
    (h : attributes.find? (·.isGuard) = some a) : a.IsFirstGuard attributes := by
  obtain ⟨ha, before, after, hattributes, hbefore⟩ := List.find?_eq_some_iff_append.1 h
  exact ⟨before, after, hattributes, ha, by simpa using hbefore⟩

theorem guarding_guardAt (t : TypeTable) (owner : String) (member : Member) :
    t.Guarding owner member (t.guardAt owner member) := by
  rw [guardAt_eq, guardOf]
  cases hfind : member.attributes.find? (·.isGuard) with
  | none => exact .unguarded (by simpa using hfind)
  | some a =>
    have hfirst := isFirstGuard_of_find? hfind
    rw [Option.map_some]
    dsimp only
    split
    case h_1 text htexts =>
      split
      case h_1 lock hlock => exact member.isStatic_scope owner ▸ .resolved hfirst htexts hlock
      case h_2 e he => exact .unresolved hfirst htexts he
    case h_2 htexts =>
      exact .notOneLock hfirst fun hlength => by
        obtain ⟨text, htext⟩ := List.length_eq_one_iff.1 hlength
        exact htexts text htext

theorem guarded?_ref (hd : t.typeDecl? d.name = some d) (hdistinct : d.Distinct)
    (hmember : member ∈ d.members) :
    t.guarded? (member.ref d.name) = (t.guardAt d.name member).bind Except.toOption := by
  refine Option.ext fun guarded => ?_
  rw [guarded?_eq_some_iff hd hdistinct hmember, Option.bind_eq_some_iff]
  constructor
  · exact fun h => ⟨_, h, rfl⟩
  · rintro ⟨result, hresult, hok⟩
    obtain rfl := toOption_eq_some_iff.1 hok
    exact hresult

theorem overloads_eq (hdistinct : d.Distinct) (hm : m ∈ d.methods) : d.overloads m = [m] := by
  obtain ⟨before, after, hmethods⟩ := List.append_of_mem hm
  have hkeys := hdistinct.methods
  rw [hmethods, List.map_append, List.map_cons, List.nodup_middle, ← List.map_append] at hkeys
  have hother : ∀ m' ∈ before ++ after, ¬ (m'.name = m.name ∧ m'.arity = m.arity) :=
    fun m' hm' hsame => (List.nodup_cons.1 hkeys).1
      (List.mem_map.2 ⟨m', hm', Prod.ext hsame.1 hsame.2⟩)
  obtain ⟨hbefore, hafter⟩ := List.forall_mem_append.1 hother
  rw [TypeDecl.overloads, hmethods, List.filter_append,
    List.filter_eq_nil_iff.2 fun m' hm' => by simpa using hbefore m' hm',
    List.filter_cons_of_pos (by simp),
    List.filter_eq_nil_iff.2 fun m' hm' => by simpa using hafter m' hm', List.nil_append]

/-- Each lock that a method lists comes to a binding or a finding, in the order of listing. -/
theorem forall₂_methodEffects (t : TypeTable) (owner : String) (m : MethodDecl) :
    m.listedLocks.Forall₂ (t.Binding owner m) (t.methodEffects owner m) := by
  rw [methodEffects, MethodDecl.listedLocks]
  generalize m.attributes = attributes
  induction attributes with
  | nil => exact .nil
  | cons a rest ih =>
    rw [List.flatMap_cons, List.flatMap_cons]
    refine List.rel_append ?_ ih
    cases a.lockEffect? with
    | none => exact .nil
    | some effect =>
      rw [Option.toList_some, List.flatMap_singleton, List.forall₂_map_left_iff,
        List.forall₂_map_right_iff, List.forall₂_same]
      intro text _
      split
      case h_1 lock hlock => exact .resolved hlock
      case h_2 e he => exact .unresolved he

theorem bindings_ref (hd : t.typeDecl? d.name = some d) (hdistinct : d.Distinct)
    (hm : m ∈ d.methods) : t.bindings (.method d.name m) =
      (t.methodEffects d.name m).filterMap Except.toOption := by
  rw [bindings_method hd, overloads_eq hdistinct hm, filterMap_methodEffects]
  simp

/-- A binding is known of a method that lists its lock. -/
theorem exists_of_mem_bindings (hd : t.typeDecl? d.name = some d) {ref : MemberRef}
    {binding : LockBinding} (hown : ref.owner = d.name) (h : binding ∈ t.bindings ref) :
    ∃ m ∈ d.methods, .method d.name m = ref ∧
      ∃ text, t.resolve ⟨d.name, m.parameters, m.isStatic⟩ text = .ok binding.lock := by
  obtain ⟨hmem, href⟩ := List.mem_filter.1 h
  obtain ⟨result, hresult, hok⟩ := List.mem_filterMap.1 hmem
  obtain rfl := toOption_eq_some_iff.1 hok
  simp only [hown, effects, hd, List.mem_flatMap] at hresult
  obtain ⟨m, hm, hresult⟩ := hresult
  obtain ⟨a, -, ha⟩ := List.mem_flatMap.1 hresult
  split at ha
  · cases ha
  · obtain ⟨text, -, htext⟩ := List.mem_map.1 ha
    split at htext
    case h_1 lock hlock =>
      cases htext
      exact ⟨m, hm, by simpa using href, text, hlock⟩
    case h_2 => cases htext

theorem instanceless_of_resolve {scope : DeclScope} {text : String} {r : ResolvedLock}
    (h : t.resolve scope text = .ok r) (hstatic : scope.isStatic = true) : r.Instanceless := by
  have hfree : r.isStatic = true := by
    obtain ⟨_, _, -, -, -, hfree, rfl⟩ := resolve_eq_ok_iff.1 h
    exact hfree hstatic
  refine ⟨hfree, ?_⟩
  obtain ⟨type, _, -, hpath⟩ | ⟨index, name, _, -, hpath⟩ := static_of_resolve h hstatic
  · exact .inl ⟨type, by rw [hpath]⟩
  · exact .inr ⟨index, name, by rw [hpath]⟩

/-- Every annotation of a type is accounted for. -/
theorem accounted_of_mem_types (hd : d ∈ (ofUnit u).types) (hdistinct : d.Distinct) :
    (ofUnit u).Accounted d := by
  have hd := typeDecl?_of_mem_types hd
  constructor
  case guards =>
    refine ⟨d.members.map ((ofUnit u).guardAt d.name), ?_, ?_⟩
    · rw [List.forall₂_map_right_iff, List.forall₂_same]
      exact fun member hmember => ⟨guarding_guardAt _ _ _, guarded?_ref hd hdistinct hmember⟩
    · rw [guardFindings_eq, guards_eq hd, List.filterMap_filterMap, List.filterMap_map]
      rfl
  case effects =>
    refine ⟨d.methods.map ((ofUnit u).methodEffects d.name), ?_, ?_⟩
    · rw [List.forall₂_map_right_iff, List.forall₂_same]
      exact fun m hm => ⟨forall₂_methodEffects _ _ _, bindings_ref hd hdistinct hm⟩
    · simp only [effectFindings_eq, effects, hd, List.flatMap_def]
  case texts => exact fun member _ a _ => a.hasTexts_lockTexts
  case no_other =>
    rintro ref hown (hguarded | hbindings)
    · obtain ⟨guarded, hguarded⟩ := Option.isSome_iff_exists.1 hguarded
      obtain ⟨member, hmember, href, -⟩ := exists_of_guarded? hd hown hguarded
      exact ⟨member, hmember, href⟩
    · obtain ⟨binding, hbinding⟩ := List.exists_mem_of_ne_nil _ hbindings
      obtain ⟨m, hm, href, -⟩ := exists_of_mem_bindings hd hown hbinding
      exact ⟨.method m, TypeDecl.method_mem_members.2 hm, href⟩
  case static =>
    intro member hmember hstatic
    constructor
    · intro guarded hguarded
      obtain ⟨member', hmember', href, hguard⟩ :=
        exists_of_guarded? hd (member.owner_ref d.name) hguarded
      obtain rfl := hdistinct.ref_inj hmember' hmember href
      rw [guardAt_eq] at hguard
      obtain ⟨_, _, _, -, -, hresolve, rfl⟩ := guardOf_eq_ok_iff.1 (by rw [hguard]; rfl)
      exact instanceless_of_resolve hresolve (member'.isStatic_scope d.name ▸ hstatic)
    · intro binding hbinding
      obtain ⟨m, hm, href, _, hresolve⟩ :=
        exists_of_mem_bindings hd (member.owner_ref d.name) hbinding
      obtain rfl := hdistinct.ref_inj (TypeDecl.method_mem_members.2 hm) hmember href
      exact instanceless_of_resolve hresolve hstatic

end TypeTable

namespace Sample

/-- `@GuardedBy("lock") static int count;` -/
def count : FieldDecl := ⟨"count", "int", true, [⟨"GuardedBy", ["lock"], none⟩], none⟩

/-- `@AcquireLock({"lock, ", "missing"}) void open();` -/
def openLedger : MethodDecl :=
  { name := "open", isConstructor := false, parameters := [], returnType := none, isStatic := false
    attributes := [⟨"AcquireLock", ["lock, ", "missing"], none⟩], body := none, span := none }

/-- A class with these members and the field `Lock lock`. -/
def ledger : TypeDecl :=
  { name := "Ledger", base := none, fields := [⟨"lock", "Lock", false, [], none⟩, count]
    methods := [openLedger], nested := [], attributes := [] }

def ledgerUnit : CompilationUnit := { path := "", types := [ledger] }

end Sample

open Sample in
/-- The static field has no lock but a finding, and of the three texts that the method lists one is
bound, and the empty one and the other are reported. -/
theorem TypeTable.accounted_of_mem_types_ledger :
    (ofUnit ledgerUnit).Accounted ledger ∧
      (ofUnit ledgerUnit).guarded? (.field "Ledger" "count") = none ∧
      ((ofUnit ledgerUnit).guardFindings "Ledger").length = 1 ∧
      openLedger.listedLocks.map (·.text) = ["lock", "", "missing"] ∧
      ((ofUnit ledgerUnit).bindings (.method "Ledger" openLedger)).map (·.lock.text) = ["lock"] ∧
      ((ofUnit ledgerUnit).effectFindings "Ledger").length = 2 := by
  have htype : ledger ∈ (ofUnit ledgerUnit).types := by
    rw [show (ofUnit ledgerUnit).types = [ledger] by cbv]
    exact .head _
  have hdistinct : ledger.Distinct := ⟨by decide, by decide⟩
  exact ⟨accounted_of_mem_types htype hdistinct, by decide +kernel, by decide +kernel,
    by decide +kernel, by decide +kernel, by decide +kernel⟩

end LockDiscipline
