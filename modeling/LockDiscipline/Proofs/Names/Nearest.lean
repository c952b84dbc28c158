import LockDiscipline.Proofs.Names.Lookup

/-! Members by name. From a type, a member is found on the first of its base types that declares one,
and there it is the first declared; by simple name, the enclosing types are asked in turn if no base
type has one. A chain of bases is followed as long as it leads to a type that was not met before, so
a search ends whatever the bases are. -/

namespace LockDiscipline

/-- `IsFirst p l a`: of the members of `l`, `a` is the first that satisfies `p`. -/
def IsFirst {α : Type} (p : α → Prop) (l : List α) (a : α) : Prop :=
  ∃ before after, l = before ++ a :: after ∧ p a ∧ ∀ b ∈ before, ¬ p b

theorem find?_eq_some_iff_isFirst {α : Type} {p : α → Prop} [DecidablePred p] {l : List α} {a : α} :
    l.find? (fun b => p b) = some a ↔ IsFirst p l a := by
  rw [List.find?_eq_some_iff_append, IsFirst]
  constructor
  · rintro ⟨hp, before, after, hl, hbefore⟩
    exact ⟨before, after, hl, by simpa using hp, by simpa using hbefore⟩
  · rintro ⟨before, after, hl, hp, hbefore⟩
    exact ⟨by simpa using hp, before, after, hl, by simpa using hbefore⟩

namespace TypeTable

/-- The type at a place in the chain of bases that starts with a name, however often it was met. -/
def nthBase (t : TypeTable) : Option String → Nat → Option TypeDecl
  | start, 0 => start.bind t.typeDecl?
  | start, n + 1 => (start.bind t.typeDecl?).bind fun d => t.nthBase d.base n

/-- Whether the list is the chain of bases that starts with a name, cut before the first place where
it leads to no type, or to one that the list has. -/
structure IsBaseChain (t : TypeTable) (start : Option String) (l : List TypeDecl) : Prop where
  follows : ∀ n, n < l.length → t.nthBase start n = l[n]?
  distinct : (l.map (·.name)).Nodup
  cut : ∀ d, t.nthBase start l.length = some d → d ∈ l

/-- Whether one of the types declares a member that satisfies `p`. -/
def Declares {α : Type} (members : TypeDecl → List α) (p : α → Prop) (l : List TypeDecl) : Prop :=
  ∃ d ∈ l, ∃ m ∈ members d, p m

/-- `Nearest members p l found`: of the types in `l`, the owner is the first that declares a member
which satisfies `p`, and this member is the first such one there. -/
def Nearest {α : Type} (members : TypeDecl → List α) (p : α → Prop) (l : List TypeDecl)
    (found : Found α) : Prop :=
  ∃ d, IsFirst (fun d => ∃ m ∈ members d, p m) l d ∧ IsFirst p (members d) found.decl ∧
    found.owner = d.name

/-- What is found from a type: on the type itself or on a base of it, and in the scope of the type. -/
structure FindsNearest {α : Type} (t : TypeTable) (type : String) (members : TypeDecl → List α)
    (p : α → Prop) (onType inScope : Option (Found α)) : Prop where
  onType_isSome : onType.isSome = true ↔ Declares members p (t.hierarchy type)
  onType_eq_some : ∀ found, onType = some found ↔
    found.viaOuter = none ∧ Nearest members p (t.hierarchy type) found
  inScope_isSome : inScope.isSome = true ↔
    Declares members p (t.hierarchy type) ∨
      ∃ outer ∈ t.outerTypes type, Declares members p (t.hierarchy outer)
  inScope_eq_some : ∀ found, inScope = some found ↔
    (found.viaOuter = none ∧ Nearest members p (t.hierarchy type) found) ∨
    (¬ Declares members p (t.hierarchy type) ∧ ∃ outer, found.viaOuter = some outer ∧
      IsFirst (fun outer => Declares members p (t.hierarchy outer)) (t.outerTypes type) outer ∧
      Nearest members p (t.hierarchy outer) found)
  owner : ∀ found, onType = some found ∨ inScope = some found →
    ∃ d, t.typeDecl? found.owner = some d ∧ found.decl ∈ members d

variable {t : TypeTable} {next : TypeEntry → Option String} {pool : List TypeEntry}
  {start : Option String} {type : String}

theorem nodup_chain : ((chain next pool start).map (·.name)).Nodup := by
  fun_induction chain next pool start with
  | case1 => exact List.nodup_nil
  | case2 => exact List.nodup_nil
  | case3 pool name e hfind _ ih =>
    refine List.nodup_cons.2 ⟨fun hmem => ?_, ih⟩
    have hname : e.name = name := by simpa using List.find?_some hfind
    obtain ⟨e', he', hsame⟩ := List.mem_map.1 hmem
    have hin := List.mem_of_find?_eq_some (mem_chain_iff.1 he').1
    have hne : e'.name ≠ name := by simpa [without] using (List.mem_filter.1 hin).2
    exact hne (hsame.trans hname)

/-- A walk along the bases through what is left of the table goes on to a type that was left out, or
to none. -/
theorem nthBase_chain (t : TypeTable) (pool : List TypeEntry) (start : Option String)
    (seen : List TypeDecl)
    (hin : ∀ name e, pool.find? (fun e => e.name = name) = some e → t.entry? name = some e)
    (hout : ∀ name d, pool.find? (fun e => e.name = name) = none → t.typeDecl? name = some d →
      d ∈ seen) :
    let l := (chain (·.decl.base) pool start).map (·.decl)
    (∀ n, n < l.length → t.nthBase start n = l[n]?) ∧
      ∀ d, t.nthBase start l.length = some d → d ∈ seen ++ l := by
  fun_induction chain (·.decl.base) pool start generalizing seen with
  | case1 => exact ⟨fun n hn => by simp at hn, fun d hd => by simp [nthBase] at hd⟩
  | case2 pool name hnone =>
    exact ⟨fun n hn => by simp at hn, fun d hd => List.mem_append_left _ (hout name d hnone hd)⟩
  | case3 pool name e hfind _ ih =>
    have hdecl : t.typeDecl? name = some e.decl := by
      rw [typeDecl?, hin name e hfind, Option.map_some]
    have hstep (n : Nat) : t.nthBase (some name) (n + 1) = t.nthBase e.decl.base n := by
      rw [nthBase, Option.bind_some, hdecl, Option.bind_some]
    have hin' : ∀ x e', (without name pool).find? (fun e => e.name = x) = some e' →
        t.entry? x = some e' :=
      fun x e' h => hin x e' (find?_of_find?_without h)
    have hout' : ∀ x d, (without name pool).find? (fun e => e.name = x) = none →
        t.typeDecl? x = some d → d ∈ e.decl :: seen := by
      intro x d hnone hd
      by_cases hx : x = name
      · rw [hx, hdecl] at hd
        cases hd
        exact List.mem_cons_self
      · rw [find?_without hx] at hnone
        exact List.mem_cons_of_mem _ (hout x d hnone hd)
    obtain ⟨hfollows, hcut⟩ := ih _ hin' hout'
    refine ⟨fun n hn => ?_, fun d hd => ?_⟩
    · cases n with
      | zero => exact hdecl
      | succ n =>
        rw [hstep]
        exact hfollows n (Nat.lt_of_succ_lt_succ hn)
    · rw [List.map_cons, List.length_cons, hstep] at hd
      have hd := hcut d hd
      simp only [List.cons_append, List.mem_cons, List.mem_append, List.map_cons] at hd ⊢
      exact hd.elim (fun h => .inr (.inl h)) (Or.imp_right .inr)

theorem isBaseChain_hierarchy (t : TypeTable) (type : String) :
    t.IsBaseChain (some type) (t.hierarchy type) := by
  have hchain := nthBase_chain t t.entries (some type) [] (fun _ _ h => h)
    fun name d hnone hd => by simp [typeDecl?, entry?, hnone] at hd
  refine ⟨hchain.1, ?_, hchain.2⟩
  rw [hierarchy, List.map_map]
  exact nodup_chain

section Search

variable {α : Type} {members : TypeDecl → List α} {p : α → Prop} [DecidablePred p]
  {l : List TypeDecl} {found : Found α}

/-- The first member that satisfies `p` on the first of the types that has one. -/
def firstMember (members : TypeDecl → List α) (p : α → Prop) [DecidablePred p]
    (l : List TypeDecl) : Option (Found α) :=
  l.findSome? fun d => ((members d).find? fun m => p m).map fun m => ⟨d.name, m, none⟩

theorem firstMember_isSome : (firstMember members p l).isSome = true ↔ Declares members p l := by
  simp [firstMember, Declares]

theorem firstMember_eq_none : firstMember members p l = none ↔ ¬ Declares members p l := by
  rw [← firstMember_isSome, Bool.not_eq_true, Option.isSome_eq_false_iff, Option.isNone_iff_eq_none]

theorem firstMember_eq_some : firstMember members p l = some found ↔
    found.viaOuter = none ∧ Nearest members p l found := by
  have hdeclares (d : TypeDecl) : (members d).find? (fun m => p m) = none ↔
      ¬ ∃ m ∈ members d, p m := by simp
  rw [firstMember, List.findSome?_eq_some_iff]
  constructor
  · rintro ⟨before, d, after, hl, hfind, hbefore⟩
    obtain ⟨m, hm, rfl⟩ := Option.map_eq_some_iff.1 hfind
    have hfirst := find?_eq_some_iff_isFirst.1 hm
    have hhas : ∃ m ∈ members d, p m := ⟨m, List.mem_of_find?_eq_some hm, by
      simpa using List.find?_some hm⟩
    refine ⟨rfl, d, ⟨before, after, hl, hhas, fun d' hd' => ?_⟩, hfirst, rfl⟩
    exact (hdeclares d').1 (Option.map_eq_none_iff.1 (hbefore d' hd'))
  · rintro ⟨hvia, d, ⟨before, after, hl, -, hbefore⟩, hfirst, howner⟩
    refine ⟨before, d, after, hl, ?_, fun d' hd' => ?_⟩
    · obtain ⟨owner, decl, via⟩ := found
      obtain rfl : owner = d.name := howner
      obtain rfl : via = none := hvia
      rw [find?_eq_some_iff_isFirst.2 hfirst, Option.map_some]
    · exact Option.map_eq_none_iff.2 ((hdeclares d').2 (hbefore d' hd'))

theorem inScope_isSome {find : String → Option (Found α)} : (t.inScope find type).isSome = true ↔
    (find type).isSome = true ∨ ∃ outer ∈ t.outerTypes type, (find outer).isSome = true := by
  simp [inScope]

/-- In scope, a type goes before the types around it, and an inner one of these before an outer one. -/
theorem inScope_eq_some_iff {find : String → Option (Found α)} :
    t.inScope find type = some found ↔ find type = some found ∨
      (find type = none ∧ ∃ outer via, found.viaOuter = some outer ∧
        IsFirst (fun outer => (find outer).isSome = true) (t.outerTypes type) outer ∧
        find outer = some { found with viaOuter := via }) := by
  rw [inScope, Option.or_eq_some_iff, List.findSome?_eq_some_iff]
  refine or_congr_right (and_congr_right fun _ => ?_)
  constructor
  · rintro ⟨before, outer, after, houters, hfind, hbefore⟩
    obtain ⟨found', hfound, rfl⟩ := Option.map_eq_some_iff.1 hfind
    refine ⟨outer, found'.viaOuter, rfl, ⟨before, after, houters, by simp [hfound], ?_⟩, hfound⟩
    intro outer' houter'
    simpa using hbefore outer' houter'
  · rintro ⟨outer, via, hvia, ⟨before, after, houters, -, hbefore⟩, hfound⟩
    refine ⟨before, outer, after, houters, ?_, fun outer' houter' => ?_⟩
    · rw [hfound, Option.map_some, ← hvia]
    · simpa using hbefore outer' houter'

theorem findsNearest (t : TypeTable) (type : String) (members : TypeDecl → List α) (p : α → Prop)
    [DecidablePred p] : t.FindsNearest type members p (firstMember members p (t.hierarchy type))
      (t.inScope (fun type => firstMember members p (t.hierarchy type)) type) := by
  have hfound (type : String) (found : Found α)
      (h : firstMember members p (t.hierarchy type) = some found) :
      ∃ d, t.typeDecl? found.owner = some d ∧ found.decl ∈ members d := by
    obtain ⟨-, d, ⟨before, after, hl, -⟩, ⟨before', after', hm, -⟩, howner⟩ :=
      firstMember_eq_some.1 h
    have hd : d ∈ t.hierarchy type := by simp [hl]
    exact ⟨d, howner ▸ typeDecl?_of_mem_hierarchy hd, by simp [hm]⟩
  refine ⟨firstMember_isSome, fun _ => firstMember_eq_some, ?_, fun found => ?_, ?_⟩
  · simp only [inScope_isSome, firstMember_isSome]
  · simp only [inScope_eq_some_iff, firstMember_eq_some, firstMember_eq_none, firstMember_isSome]
    refine or_congr_right (and_congr_right fun _ => exists_congr fun outer => ?_)
    constructor
    · rintro ⟨_, hvia, hfirst, -, hnearest⟩
      exact ⟨hvia, hfirst, hnearest⟩
    · rintro ⟨hvia, hfirst, hnearest⟩
      exact ⟨none, hvia, hfirst, rfl, hnearest⟩
  · rintro found (h | h)
    · exact hfound type found h
    · obtain ⟨asked, via, hasked⟩ := inScope_eq_some h
      exact hfound asked { found with viaOuter := via } hasked

end Search

/-- The base types of a type are those that going from base to base comes to, up to an unknown type or
one that was met, each once. A member is found exactly if one of them declares one, and then it is the
first one on the nearest that does, a type of the table. By simple name, a member of a base type goes
before all members of the types around; of these the innermost counts that finds a member, and it is
the one named, also where the member is declared on a base of it. -/
theorem members_found_nearest (t : TypeTable) (type : String) :
    t.IsBaseChain (some type) (t.hierarchy type) ∧
    (∀ name, t.FindsNearest type (·.fields) (fun f => f.name = name) (t.findField type name)
      (t.findFieldInScope type name)) ∧
    ∀ name arity, t.FindsNearest type (·.methods) (fun m => m.name = name ∧ m.arity = arity)
      (t.findMethod type name arity) (t.findMethodInScope type name arity) :=
  ⟨t.isBaseChain_hierarchy type, fun _ => t.findsNearest type _ _, fun _ _ => t.findsNearest type _ _⟩

end TypeTable

end LockDiscipline
