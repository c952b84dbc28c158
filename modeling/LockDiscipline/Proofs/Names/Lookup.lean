import LockDiscipline.TypeTable
import Mathlib.Logic.Relation

/-! Looking types and members up. A walk from name to name comes to the table's own entries, and it
leaves out none that its steps lead to. -/

namespace LockDiscipline

open Relation

theorem TypeEntry.firstOfEachName_pairwise (l : List TypeEntry) :
    (firstOfEachName l).Pairwise fun a b => a.name ≠ b.name := by
  induction l with
  | nil => exact .nil
  | cons e rest ih =>
    refine List.pairwise_cons.2 ⟨fun e' he' => ?_, ih.sublist List.filter_sublist⟩
    have hne : e'.name ≠ e.name := by simpa using (List.mem_filter.1 he').2
    exact hne.symm

namespace TypeTable

/-- `Leads next pool a b`: the entry of the name `a` has `next` lead to the name `b`. -/
def Leads (next : TypeEntry → Option String) (pool : List TypeEntry) (a b : String) : Prop :=
  ∃ e, pool.find? (fun e => e.name = a) = some e ∧ next e = some b

variable {t : TypeTable} {u : CompilationUnit} {next : TypeEntry → Option String}
  {pool : List TypeEntry} {start : Option String} {e e' : TypeEntry} {d : TypeDecl}
  {type name : String} {arity : Nat}

theorem chain_of_find?_none (h : pool.find? (fun e => e.name = name) = none) :
    chain next pool (some name) = [] := by
  rw [chain]
  split
  · rfl
  · next hsome => rw [h] at hsome; cases hsome

theorem chain_of_find? (h : pool.find? (fun e => e.name = name) = some e) :
    chain next pool (some name) = e :: chain next (without name pool) (next e) := by
  rw [chain]
  split
  · next hnone => rw [h] at hnone; cases hnone
  · next hsome =>
    rw [h] at hsome
    cases hsome
    rfl

theorem find?_without (h : type ≠ name) :
    (without name pool).find? (fun e => e.name = type) = pool.find? fun e => e.name = type := by
  rw [without, List.find?_filter]
  congr 1
  funext x
  by_cases hx : x.name = type <;> simp [hx, h]

theorem find?_of_find?_without
    (h : (without name pool).find? (fun e => e.name = type) = some e) :
    pool.find? (fun e => e.name = type) = some e := by
  have hname : e.name = type := by simpa using List.find?_some h
  have hne : e.name ≠ name := by
    simpa [without] using (List.mem_filter.1 (List.mem_of_find?_eq_some h)).2
  rwa [find?_without (hname ▸ hne)] at h

private theorem find?_of_mem_chain (h : e ∈ chain next pool start) :
    pool.find? (fun e' => e'.name = e.name) = some e := by
  fun_induction chain next pool start with
  | case1 => cases h
  | case2 => cases h
  | case3 pool name e' hfind _ ih =>
    have hname : e'.name = name := by simpa using List.find?_some hfind
    rcases List.mem_cons.1 h with rfl | h
    · simpa only [hname] using hfind
    · exact find?_of_find?_without (ih h)

private theorem leads_of_mem_chain (h : e ∈ chain next pool start) :
    ∃ first, start = some first ∧ ReflTransGen (Leads next pool) first e.name := by
  fun_induction chain next pool start with
  | case1 => cases h
  | case2 => cases h
  | case3 pool name e' hfind _ ih =>
    refine ⟨name, rfl, ?_⟩
    rcases List.mem_cons.1 h with rfl | h
    · have hname : e.name = name := by simpa using List.find?_some hfind
      rw [hname]
    · obtain ⟨second, hnext, hleads⟩ := ih h
      refine .head ⟨e', hfind, hnext⟩ (ReflTransGen.mono (fun a b => ?_) _ _ hleads)
      rintro ⟨e, he, hb⟩
      exact ⟨e, find?_of_find?_without he, hb⟩

private theorem mem_chain_start (h : pool.find? (fun e => e.name = name) = some e) :
    e ∈ chain next pool (some name) := by
  rw [chain_of_find? h]
  exact List.mem_cons_self

private theorem mem_chain_next (he : e ∈ chain next pool start) (hnext : next e = some name)
    (hfind : pool.find? (fun e => e.name = name) = some e') : e' ∈ chain next pool start := by
  fun_induction chain next pool start with
  | case1 => cases he
  | case2 => cases he
  | case3 pool first e₀ hfirst _ ih =>
    by_cases hback : name = first
    · subst hback
      rw [hfirst] at hfind
      cases hfind
      exact List.mem_cons_self
    · refine List.mem_cons_of_mem _ ?_
      have hfind' : (without first pool).find? (fun e => e.name = name) = some e' := by
        rw [find?_without hback, hfind]
      rcases List.mem_cons.1 he with rfl | he
      · rw [hnext]
        exact mem_chain_start hfind'
      · exact ih he hfind'

/-- A walk comes to the pool's entries of the names that its steps lead to. -/
theorem mem_chain_iff : e ∈ chain next pool start ↔
    pool.find? (fun e' => e'.name = e.name) = some e ∧
      ∃ first, start = some first ∧ ReflTransGen (Leads next pool) first e.name := by
  refine ⟨fun h => ⟨find?_of_mem_chain h, leads_of_mem_chain h⟩, ?_⟩
  rintro ⟨hfind, first, rfl, hleads⟩
  generalize e.name = last at hfind hleads
  induction hleads generalizing e with
  | refl => exact mem_chain_start hfind
  | tail _ hstep ih =>
    obtain ⟨e', he', hnext⟩ := hstep
    exact mem_chain_next (ih he') hnext hfind

/-- The base types of a type are the table's own declarations. -/
theorem typeDecl?_of_mem_hierarchy (h : d ∈ t.hierarchy type) : t.typeDecl? d.name = some d := by
  obtain ⟨e, he, rfl⟩ := List.mem_map.1 h
  have hfind : t.entry? e.decl.name = some e := (mem_chain_iff.1 he).1
  rw [typeDecl?, hfind, Option.map_some]

theorem name_of_typeDecl? (h : t.typeDecl? name = some d) : d.name = name := by
  obtain ⟨e, he, rfl⟩ := Option.map_eq_some_iff.1 h
  have hname : e.name = name := by simpa using List.find?_some he
  exact hname

theorem hierarchy_eq_cons (h : t.typeDecl? d.name = some d) :
    ∃ rest, t.hierarchy d.name = d :: rest := by
  obtain ⟨e, he, rfl⟩ := Option.map_eq_some_iff.1 h
  exact ⟨_, by rw [hierarchy, chain_of_find? he, List.map_cons]⟩

/-- What is found along the base types is found first on the type that declares it. -/
theorem exists_of_findSome?_hierarchy {β : Type} {find : TypeDecl → Option β} {b : β}
    (h : (t.hierarchy type).findSome? find = some b) :
    ∃ d, t.typeDecl? d.name = some d ∧ find d = some b ∧
      (t.hierarchy d.name).findSome? find = some b := by
  obtain ⟨d, hmem, hfind⟩ := List.exists_of_findSome?_eq_some h
  have hd := typeDecl?_of_mem_hierarchy hmem
  obtain ⟨rest, hrest⟩ := hierarchy_eq_cons hd
  exact ⟨d, hd, hfind, by rw [hrest, List.findSome?_cons, hfind]⟩

/-- A field that is found is the first of its name on the type that declares it. -/
theorem findField_eq_some {found : Found FieldDecl} (h : t.findField type name = some found) :
    ∃ d, t.typeDecl? found.owner = some d ∧
      d.fields.find? (fun f => f.name = name) = some found.decl := by
  obtain ⟨d, hd, hfind, -⟩ := exists_of_findSome?_hierarchy h
  obtain ⟨f, hf, rfl⟩ := Option.map_eq_some_iff.1 hfind
  exact ⟨d, hd, hf⟩

theorem findField_owner {found : Found FieldDecl} (h : t.findField type name = some found) :
    t.findField found.owner name = some found := by
  obtain ⟨d, hd, hfind, hown⟩ := exists_of_findSome?_hierarchy h
  obtain ⟨f, hf, rfl⟩ := Option.map_eq_some_iff.1 hfind
  exact hown

theorem findMethod_owner {found : Found MethodDecl}
    (h : t.findMethod type name arity = some found) :
    t.findMethod found.owner name arity = some found := by
  obtain ⟨d, hd, hfind, hown⟩ := exists_of_findSome?_hierarchy h
  obtain ⟨m, hm, rfl⟩ := Option.map_eq_some_iff.1 hfind
  exact hown

theorem viaOuter_of_findField {found : Found FieldDecl} (h : t.findField type name = some found) :
    found.viaOuter = none := by
  obtain ⟨d, -, hfind, -⟩ := exists_of_findSome?_hierarchy h
  obtain ⟨f, -, rfl⟩ := Option.map_eq_some_iff.1 hfind
  rfl

theorem viaOuter_of_findMethod {found : Found MethodDecl}
    (h : t.findMethod type name arity = some found) : found.viaOuter = none := by
  obtain ⟨d, -, hfind, -⟩ := exists_of_findSome?_hierarchy h
  obtain ⟨m, -, rfl⟩ := Option.map_eq_some_iff.1 hfind
  rfl

/-- A method that is found is the first of its name and arity on the type that declares it. -/
theorem findMethod_eq_some {found : Found MethodDecl}
    (h : t.findMethod type name arity = some found) :
    ∃ d, t.typeDecl? found.owner = some d ∧
      d.methods.find? (fun m => m.name = name ∧ m.arity = arity) = some found.decl := by
  obtain ⟨d, hd, hfind⟩ := List.exists_of_findSome?_eq_some h
  obtain ⟨m, hm, rfl⟩ := Option.map_eq_some_iff.1 hfind
  exact ⟨d, typeDecl?_of_mem_hierarchy hd, hm⟩

/-- What is found in scope is found on some type, by the type itself or by one around it. -/
theorem inScope_eq_some {α : Type} {find : String → Option (Found α)} {found : Found α}
    (h : t.inScope find type = some found) :
    ∃ asked via, find asked = some { found with viaOuter := via } := by
  rcases Option.or_eq_some_iff.1 h with h | ⟨_, h⟩
  · exact ⟨type, found.viaOuter, h⟩
  · obtain ⟨outer, _, hfind⟩ := List.exists_of_findSome?_eq_some h
    obtain ⟨found', hfound, rfl⟩ := Option.map_eq_some_iff.1 hfind
    exact ⟨outer, found'.viaOuter, hfound⟩

/-- What is found in scope is found on the type that it was reached through. -/
theorem find_of_inScope {α : Type} {find : String → Option (Found α)} {found : Found α}
    (hvia : ∀ type found, find type = some found → found.viaOuter = none)
    (h : t.inScope find type = some found) :
    find (found.viaOuter.getD type) = some { found with viaOuter := none } := by
  rcases Option.or_eq_some_iff.1 h with h | ⟨_, h⟩
  · obtain ⟨owner, decl, via⟩ := found
    obtain rfl : via = none := hvia type _ h
    exact h
  · obtain ⟨outer, _, hfind⟩ := List.exists_of_findSome?_eq_some h
    obtain ⟨⟨owner, decl, via⟩, hfound, rfl⟩ := Option.map_eq_some_iff.1 hfind
    obtain rfl : via = none := hvia outer _ hfound
    exact hfound

theorem findField_of_inScope {found : Found FieldDecl}
    (h : t.findFieldInScope type name = some found) :
    t.findField (found.viaOuter.getD type) name = some { found with viaOuter := none } := by
  have hfind := find_of_inScope (fun _ _ => viaOuter_of_findField) h
  exact hfind

theorem findMethod_of_inScope {found : Found MethodDecl}
    (h : t.findMethodInScope type name arity = some found) :
    t.findMethod (found.viaOuter.getD type) name arity = some { found with viaOuter := none } := by
  have hfind := find_of_inScope (fun _ _ => viaOuter_of_findMethod) h
  exact hfind

/-- A unit's table lists one declaration for each name. -/
theorem typeDecl?_of_mem_types (h : d ∈ (ofUnit u).types) :
    (ofUnit u).typeDecl? d.name = some d := by
  obtain ⟨e, he, rfl⟩ := List.mem_map.1 h
  have hfind : entry? (ofUnit u) e.name = some e := by
    obtain ⟨before, after, hsplit⟩ := List.append_of_mem he
    have hdistinct : (ofUnit u).entries.Pairwise fun a b => a.name ≠ b.name :=
      TypeEntry.firstOfEachName_pairwise _
    refine List.find?_eq_some_iff_append.2 ⟨by simp, before, after, hsplit, fun e' he' => ?_⟩
    have hne : e'.name ≠ e.name :=
      (List.pairwise_append.1 (hsplit ▸ hdistinct)).2.2 e' he' e List.mem_cons_self
    simpa using hne
  rw [typeDecl?, ← TypeEntry.name, hfind, Option.map_some]

/-- `t.Within name outer`: the type `name` is declared right inside the type `outer`. -/
def Within (t : TypeTable) : String → String → Prop := Leads (·.outer) t.entries

/-- The types around a type are those that it is declared in, at any depth. -/
theorem mem_outerTypes_iff {outer : String} (h : t.typeDecl? outer = some d) :
    outer ∈ t.outerTypes name ↔ TransGen t.Within name outer := by
  obtain ⟨e, he, -⟩ := Option.map_eq_some_iff.1 h
  have hname : e.name = outer := by simpa using List.find?_some he
  have hmem : outer ∈ t.outerTypes name ↔
      e ∈ chain (·.outer) t.entries ((t.entry? name).bind (·.outer)) := by
    refine ⟨fun hout => ?_, fun he' => List.mem_map.2 ⟨e, he', hname⟩⟩
    obtain ⟨e', he', hname'⟩ := List.mem_map.1 hout
    have hfind : t.entry? e'.name = some e' := (mem_chain_iff.1 he').1
    rw [hname', he] at hfind
    cases hfind
    exact he'
  rw [hmem, mem_chain_iff, TransGen.head'_iff, hname]
  simp only [Option.bind_eq_some_iff]
  exact and_iff_right he

end TypeTable

end LockDiscipline
