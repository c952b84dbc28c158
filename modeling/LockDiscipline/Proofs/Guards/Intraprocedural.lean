import LockDiscipline.Proofs.Guards.Annotated

/-! A method body is checked on its own. If a method of a unit gets another body, or none, the
findings inside that method may change, and no others do. -/

namespace LockDiscipline

mutual

/-- The type with another list of methods for the first type called `name` in it, outer before
nested; none if there is no such type. -/
def TypeDecl.withMethods? (name : String) (f : List MethodDecl → List MethodDecl) :
    TypeDecl → Option TypeDecl
  | ⟨name', base, fields, methods, nested, attributes⟩ =>
    if name' = name then some ⟨name', base, fields, f methods, nested, attributes⟩
    else (TypeDecl.withMethodsIn? name f nested).map fun nested =>
      ⟨name', base, fields, methods, nested, attributes⟩

/-- The same for the first type called `name` in a list of types. -/
def TypeDecl.withMethodsIn? (name : String) (f : List MethodDecl → List MethodDecl) :
    List TypeDecl → Option (List TypeDecl)
  | [] => none
  | d :: rest =>
    match d.withMethods? name f with
    | some d => some (d :: rest)
    | none => (TypeDecl.withMethodsIn? name f rest).map (d :: ·)

end

/-- The unit with another body for a method, given by its place in its type. -/
def CompilationUnit.withBody (u : CompilationUnit) (owner : String) (i : Nat)
    (body : Option (List Stmt)) : CompilationUnit :=
  { u with
    types := (TypeDecl.withMethodsIn? owner (·.modify i fun m => { m with body }) u.types).getD
      u.types }

/-- The type without the types nested in it. -/
def TypeDecl.own (d : TypeDecl) : TypeDecl := { d with nested := [] }

/-- The entry without the types nested in its type. -/
def TypeEntry.own (e : TypeEntry) : TypeEntry := { e with decl := e.decl.own }

/-- The entry with another list of methods. -/
def TypeEntry.withMethods (f : List MethodDecl → List MethodDecl) (e : TypeEntry) : TypeEntry :=
  { e with decl := { e.decl with methods := f e.decl.methods } }

variable {name : String} {f : List MethodDecl → List MethodDecl}

/-- `EditsFirst name f l l'`: in the list of the entries `l'`, the first entry called `name` has
other methods than in `l`. Nothing is said of nested types. -/
def EditsFirst (name : String) (f : List MethodDecl → List MethodDecl)
    (l l' : List TypeEntry) : Prop :=
  ∃ before e after, l = before ++ e :: after ∧ e.name = name ∧ (∀ x ∈ before, x.name ≠ name) ∧
    l'.map TypeEntry.own = (before ++ e.withMethods f :: after).map TypeEntry.own

namespace EditsFirst

variable {l l' m : List TypeEntry}

theorem append_right (h : EditsFirst name f l l') (m : List TypeEntry) :
    EditsFirst name f (l ++ m) (l' ++ m) := by
  obtain ⟨before, e, after, rfl, he, hbefore, hl'⟩ := h
  refine ⟨before, e, after ++ m, by simp, he, hbefore, ?_⟩
  rw [List.map_append, hl', ← List.map_append, List.append_assoc, List.cons_append]

theorem append_left {m m' : List TypeEntry} (hown : m'.map TypeEntry.own = m.map TypeEntry.own)
    (hm : ∀ x ∈ m, x.name ≠ name) (h : EditsFirst name f l l') :
    EditsFirst name f (m ++ l) (m' ++ l') := by
  obtain ⟨before, e, after, rfl, he, hbefore, hl'⟩ := h
  refine ⟨m ++ before, e, after, by simp, he, fun x hx => ?_, ?_⟩
  · rcases List.mem_append.1 hx with hx | hx
    · exact hm x hx
    · exact hbefore x hx
  · rw [List.map_append, hl', hown, ← List.map_append, List.append_assoc]

end EditsFirst

mutual

/-- A type in which methods are replaced is listed with the others unchanged. -/
private theorem preorder_withMethods? : ∀ (d : TypeDecl) (outer : Option String),
    (∀ d', d.withMethods? name f = some d' →
        EditsFirst name f (d.preorder outer) (d'.preorder outer)) ∧
      (d.withMethods? name f = none → ∀ x ∈ d.preorder outer, x.name ≠ name)
  | ⟨name', base, fields, methods, nested, attributes⟩, outer => by
    obtain ⟨hsome, hnone⟩ := preorderAll_withMethodsIn? nested (some name')
    rw [TypeDecl.withMethods?, TypeDecl.preorder]
    split
    · next hname =>
      refine ⟨?_, nofun⟩
      rintro _ ⟨⟩
      exact ⟨[], _, _, rfl, hname, nofun, rfl⟩
    · next hname =>
      refine ⟨fun d' hd' => ?_, fun hd' x hx => ?_⟩
      · obtain ⟨nested', hnested, rfl⟩ := Option.map_eq_some_iff.1 hd'
        have hself : ∀ x ∈ [TypeEntry.mk ⟨name', base, fields, methods, nested, attributes⟩ outer],
            x.name ≠ name := by simpa [TypeEntry.name] using hname
        exact (hsome nested' hnested).append_left rfl hself
      · rcases List.mem_cons.1 hx with rfl | hx
        · exact hname
        · exact hnone (Option.map_eq_none_iff.1 hd') x hx

private theorem preorderAll_withMethodsIn? : ∀ (ds : List TypeDecl) (outer : Option String),
    (∀ ds', TypeDecl.withMethodsIn? name f ds = some ds' →
        EditsFirst name f (TypeDecl.preorderAll outer ds) (TypeDecl.preorderAll outer ds')) ∧
      (TypeDecl.withMethodsIn? name f ds = none →
        ∀ x ∈ TypeDecl.preorderAll outer ds, x.name ≠ name)
  | [], outer => ⟨nofun, fun _ _ hx => by cases hx⟩
  | d :: rest, outer => by
    obtain ⟨hsome, hnone⟩ := preorder_withMethods? d outer
    obtain ⟨hsomes, hnones⟩ := preorderAll_withMethodsIn? rest outer
    rw [TypeDecl.withMethodsIn?, TypeDecl.preorderAll]
    cases hd : d.withMethods? name f with
    | some d' =>
      refine ⟨?_, nofun⟩
      rintro _ ⟨⟩
      exact (hsome d' hd).append_right _
    | none =>
      refine ⟨fun ds' hds' => ?_, fun hds' x hx => ?_⟩
      · obtain ⟨rest', hrest, rfl⟩ := Option.map_eq_some_iff.1 hds'
        exact (hsomes rest' hrest).append_left rfl (hnone hd)
      · rcases List.mem_append.1 hx with hx | hx
        · exact hnone hd x hx
        · exact hnones (Option.map_eq_none_iff.1 hds') x hx

end

namespace TypeEntry

theorem firstOfEachName_map_own (l : List TypeEntry) :
    (firstOfEachName l).map own = firstOfEachName (l.map own) := by
  induction l with
  | nil => rfl
  | cons e rest ih =>
    rw [firstOfEachName, List.map_cons, List.map_cons, firstOfEachName, ← ih, List.filter_map]
    rfl

/-- The first entry of a name is kept, and which others are kept is read off names. -/
theorem firstOfEachName_append_cons {before after : List TypeEntry} {e : TypeEntry}
    (hbefore : ∀ x ∈ before, x.name ≠ e.name) : ∃ kept kept',
      ∀ e' : TypeEntry, e'.name = e.name →
        firstOfEachName (before ++ e' :: after) = kept ++ e' :: kept' := by
  induction before with
  | nil =>
    refine ⟨[], (firstOfEachName after).filter fun x => x.name ≠ e.name, fun e' he' => ?_⟩
    rw [List.nil_append, firstOfEachName, he', List.nil_append]
  | cons x rest ih =>
    obtain ⟨kept, kept', hkept⟩ := ih fun y hy => hbefore y (List.mem_cons_of_mem _ hy)
    refine ⟨x :: kept.filter fun y => y.name ≠ x.name, kept'.filter fun y => y.name ≠ x.name,
      fun e' he' => ?_⟩
    have hne : e'.name ≠ x.name := fun h => hbefore x (List.mem_cons_self ..) (h.symm.trans he')
    rw [List.cons_append, firstOfEachName, hkept e' he', List.filter_append,
      List.filter_cons_of_pos (by simpa using hne), List.cons_append]

theorem firstOfEachName_sublist (l : List TypeEntry) : (firstOfEachName l).Sublist l := by
  induction l with
  | nil => exact .slnil
  | cons e rest ih => exact (List.filter_sublist.trans ih).cons_cons e

end TypeEntry

/-- The type with another body for the method at the given place. -/
def TypeDecl.withBody (d : TypeDecl) (i : Nat) (body : Option (List Stmt)) : TypeDecl :=
  { d with methods := d.methods.modify i fun m => { m with body } }

theorem TypeDecl.annotated_withBody (d : TypeDecl) (i : Nat) (body : Option (List Stmt)) :
    (d.withBody i body).annotated = d.annotated := by
  have hmethods : (d.methods.modify i fun m => { m with body }).map MethodDecl.annotated =
      d.methods.map MethodDecl.annotated := by
    refine List.ext_getElem? fun j => ?_
    rw [List.getElem?_map, List.getElem?_map, List.getElem?_modify]
    cases d.methods[j]? with
    | none => rfl
    | some m => by_cases h : i = j <;> simp [h, MethodDecl.annotated]
  simp only [annotated, withBody, hmethods]

namespace TypeTable

variable {t t' : TypeTable} {u : CompilationUnit} {d : TypeDecl} {m : MethodDecl}
  {owner : String} {i : Nat} {api : LockApi}

/-- The unit's table has another body for the method, and it is unchanged apart from that. -/
theorem exists_entries_withBody (hd : (ofUnit u).typeDecl? owner = some d) (i : Nat)
    (body : Option (List Stmt)) : ∃ before after outer,
      (ofUnit u).entries = before ++ ⟨d, outer⟩ :: after ∧
        (ofUnit (u.withBody owner i body)).entries.map TypeEntry.own =
          (before ++ ⟨d.withBody i body, outer⟩ :: after).map TypeEntry.own := by
  obtain ⟨hsome, hnone⟩ := @preorderAll_withMethodsIn? owner
    (·.modify i fun m => { m with body }) u.types none
  cases hedit : TypeDecl.withMethodsIn? owner (·.modify i fun m => { m with body }) u.types with
  | none =>
    obtain ⟨e, hentry, rfl⟩ := Option.map_eq_some_iff.1 hd
    have hmem := (TypeEntry.firstOfEachName_sublist _).subset (List.mem_of_find?_eq_some hentry)
    exact absurd (name_of_typeDecl? hd) (hnone hedit e hmem)
  | some types =>
    obtain ⟨before, e, after, hsplit, he, hbefore, hown⟩ := hsome types hedit
    obtain ⟨kept, kept', hkept⟩ :=
      @TypeEntry.firstOfEachName_append_cons before after e fun x hx => he ▸ hbefore x hx
    have hentries : (ofUnit u).entries = kept ++ e :: kept' := by
      rw [ofUnit, hsplit, hkept e rfl]
    have hmem : e.decl ∈ (ofUnit u).types := List.mem_map_of_mem (by simp [hentries])
    have hname : e.decl.name = owner := he
    obtain rfl : e.decl = d :=
      Option.some.inj ((typeDecl?_of_mem_types hmem).symm.trans (hname ▸ hd))
    refine ⟨kept, kept', e.outer, hentries, ?_⟩
    rw [ofUnit, CompilationUnit.withBody, hedit, Option.getD_some,
      TypeEntry.firstOfEachName_map_own, hown, ← TypeEntry.firstOfEachName_map_own]
    exact congrArg _ (hkept (e.withMethods _) rfl)

theorem annotated_map_own (h : t'.entries.map TypeEntry.own = t.entries.map TypeEntry.own) :
    t'.annotated = t.annotated := by
  have hown (t : TypeTable) :
      t.annotated = ⟨(t.entries.map TypeEntry.own).map TypeEntry.annotated⟩ := by
    rw [List.map_map]
    rfl
  rw [hown, hown, h]

/-- The findings that come before those inside the method at place `i` of `d`, a type that comes
after the types `before`. -/
def findingsBefore (t : TypeTable) (api : LockApi) (before : List TypeDecl) (d : TypeDecl)
    (i : Nat) : List Finding :=
  before.flatMap (t.checkType api) ++ (t.guardFindings d.name ++ t.effectFindings d.name ++
    (d.methods.take i).flatMap (t.checkMethod api d.name))

/-- The findings that come after those inside the method at place `i` of `d`, a type that comes
before the types `after`. -/
def findingsAfter (t : TypeTable) (api : LockApi) (d : TypeDecl) (i : Nat)
    (after : List TypeDecl) : List Finding :=
  (d.methods.drop (i + 1)).flatMap (t.checkMethod api d.name) ++ after.flatMap (t.checkType api)

/-- The findings inside one method lie next to each other. -/
theorem flatMap_checkType (before after : List TypeDecl) (hm : d.methods[i]? = some m) :
    (before ++ d :: after).flatMap (t.checkType api) =
      t.findingsBefore api before d i ++ t.checkMethod api d.name m ++
        t.findingsAfter api d i after := by
  obtain ⟨hi, rfl⟩ := List.getElem?_eq_some_iff.1 hm
  have hsplit : d.methods = d.methods.take i ++ d.methods[i] :: d.methods.drop (i + 1) := by
    rw [List.getElem_cons_drop, List.take_append_drop]
  have hmethods : d.methods.flatMap (t.checkMethod api d.name) =
      (d.methods.take i).flatMap (t.checkMethod api d.name) ++
        (t.checkMethod api d.name d.methods[i] ++
          (d.methods.drop (i + 1)).flatMap (t.checkMethod api d.name)) := by
    conv => lhs; rw [hsplit]
    rw [List.flatMap_append, List.flatMap_cons]
  rw [List.flatMap_append, List.flatMap_cons, checkType, hmethods, findingsBefore, findingsAfter]
  simp only [List.append_assoc]

theorem findingsBefore_withBody (before : List TypeDecl) (body : Option (List Stmt)) :
    t.findingsBefore api before (d.withBody i body) i = t.findingsBefore api before d i := by
  have htake : (d.withBody i body).methods.take i = d.methods.take i := by
    rw [TypeDecl.withBody, List.take_modify, List.modify_eq_self (List.length_take_le ..)]
  rw [findingsBefore, htake, findingsBefore]
  rfl

theorem findingsAfter_withBody (body : Option (List Stmt)) (after : List TypeDecl) :
    t.findingsAfter api (d.withBody i body) i after = t.findingsAfter api d i after := by
  have hdrop : (d.withBody i body).methods.drop (i + 1) = d.methods.drop (i + 1) := by
    rw [TypeDecl.withBody, List.drop_modify_of_lt _ _ _ _ (Nat.lt_succ_self i)]
  rw [findingsAfter, hdrop, findingsAfter]
  rfl

/-- What is found in types does not come from the types nested in them. -/
theorem flatMap_checkType_own (types : List TypeDecl) :
    (types.map TypeDecl.own).flatMap (t.checkType api) = types.flatMap (t.checkType api) := by
  rw [List.flatMap_map]
  rfl

theorem annotated_withBody (hd : (ofUnit u).typeDecl? owner = some d) (i : Nat)
    (body : Option (List Stmt)) :
    (ofUnit (u.withBody owner i body)).annotated = (ofUnit u).annotated := by
  obtain ⟨before, after, outer, hentries, hown⟩ := exists_entries_withBody hd i body
  have hentry : (⟨d.withBody i body, outer⟩ : TypeEntry).annotated =
      (⟨d, outer⟩ : TypeEntry).annotated := by
    rw [TypeEntry.annotated, TypeDecl.annotated_withBody, TypeEntry.annotated]
  rw [annotated_map_own (t := ⟨before ++ ⟨d.withBody i body, outer⟩ :: after⟩) hown, annotated,
    annotated, hentries, List.map_append, List.map_cons, hentry, List.map_append, List.map_cons]

/-- A method body is checked on its own. With another body for the method `m`, or with none, the
findings about declarations are the same ones, and so are those inside each method that has not
changed; the findings inside `m` lie next to each other, and those before and after them stay as
they are. -/
theorem check_withBody (hd : (ofUnit u).typeDecl? owner = some d) (hm : d.methods[i]? = some m)
    (body : Option (List Stmt)) (api : LockApi) :
    let t := ofUnit u
    let t' := ofUnit (u.withBody owner i body)
    (∀ type, t'.guardFindings type = t.guardFindings type ∧
      t'.effectFindings type = t.effectFindings type) ∧
    (∀ type m', t'.checkMethod api type m' = t.checkMethod api type m') ∧
    ∃ before after, t.types = before ++ d :: after ∧
      t'.types.map TypeDecl.own = (before ++ d.withBody i body :: after).map TypeDecl.own ∧
      t.check api = t.findingsBefore api before d i ++ t.checkMethod api owner m ++
        t.findingsAfter api d i after ∧
      t'.check api = t.findingsBefore api before d i ++ t.checkMethod api owner { m with body } ++
        t.findingsAfter api d i after := by
  intro t t'
  have hannotated : t'.annotated = t.annotated := annotated_withBody hd i body
  obtain ⟨before, after, outer, hentries, hown⟩ := exists_entries_withBody hd i body
  have htypes : t.types = before.map (·.decl) ++ d :: after.map (·.decl) := by
    rw [types, show t.entries = _ from hentries, List.map_append, List.map_cons]
  have htypes' : t'.types.map TypeDecl.own =
      ((before ++ ⟨d.withBody i body, outer⟩ :: after).map (·.decl)).map TypeDecl.own := by
    have hdecl := congrArg (List.map TypeEntry.decl) hown
    rw [List.map_map, List.map_map] at hdecl
    rw [types, List.map_map, List.map_map]
    exact hdecl
  rw [List.map_append, List.map_cons] at htypes'
  have hm' : (d.withBody i body).methods[i]? = some { m with body } := by
    rw [TypeDecl.withBody, List.getElem?_modify_eq, hm]
    rfl
  refine ⟨fun type => ?_, fun type m' => ?_, _, _, htypes, htypes', ?_, ?_⟩
  · exact ⟨congrFun (guardFindings_congr hannotated) type,
      congrFun (effectFindings_congr hannotated) type⟩
  · rw [checkMethod_congr hannotated]
  · rw [check, htypes, flatMap_checkType _ _ hm, name_of_typeDecl? hd]
  · rw [check, ← flatMap_checkType_own, htypes', checkType_congr hannotated,
      flatMap_checkType_own, flatMap_checkType _ _ hm', findingsBefore_withBody, findingsAfter_withBody,
      ← name_of_typeDecl? hd]
    rfl

end TypeTable

namespace Sample

/-- `void read() { x; }` -/
def readsX : MethodDecl :=
  { name := "read", isConstructor := false, parameters := [], returnType := none
    isStatic := false, attributes := [], body := some [.expr (.name "x" none)], span := none }

/-- A class with a field `x` that its field `lock` guards, and two methods that read it without the
lock. -/
def twoReaders : TypeDecl :=
  { name := "Inner", base := none
    fields := [⟨"lock", "Lock", false, [], none⟩,
      ⟨"x", "int", false, [⟨"GuardedBy", ["lock"], none⟩], none⟩]
    methods := [readsX, { readsX with name := "readAgain" }], nested := [], attributes := [] }

/-- The class is nested in another one. -/
def nestedReaders : CompilationUnit :=
  { path := ""
    types := [{ name := "Outer", base := none, fields := [], methods := [], nested := [twoReaders]
                attributes := [] }] }

end Sample

open Sample

/-- Without the body of one of two methods only the finding of the other is left. -/
theorem TypeTable.check_withBody_nestedReaders :
    let t := ofUnit nestedReaders
    let t' := ofUnit (nestedReaders.withBody "Inner" 0 none)
    (t.checkMethod {} "Inner" readsX).length = 1 ∧
      ∃ before after, t.types = before ++ twoReaders :: after ∧
        t.check {} = t.findingsBefore {} before twoReaders 0 ++ t.checkMethod {} "Inner" readsX ++
          t.findingsAfter {} twoReaders 0 after ∧
        t'.check {} = t.findingsBefore {} before twoReaders 0 ++
          t.findingsAfter {} twoReaders 0 after := by
  intro t t'
  have hd : t.typeDecl? "Inner" = some twoReaders := by cbv
  obtain ⟨-, -, before, after, htypes, -, hcheck, hcheck'⟩ :=
    check_withBody (m := readsX) (i := 0) hd rfl none {}
  have hnone : t.checkMethod {} "Inner" { readsX with body := none } = [] := rfl
  rw [hnone, List.append_nil] at hcheck'
  exact ⟨by decide +kernel, before, after, htypes, hcheck, hcheck'⟩

end LockDiscipline
