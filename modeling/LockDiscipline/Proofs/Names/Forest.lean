import LockDiscipline.Proofs.Names.Lookup

/-! The types of a unit form a forest. A type comes into the table behind the type that it is declared
in. That type may have lost its name to an earlier one, so nesting says nothing of this; but then the
earlier one has the name, and stands before it. So the way outwards goes up the table's list, and
comes to an end by itself. -/

namespace LockDiscipline

open Relation

namespace TypeTable

/-- The names of the types, in the table's order. -/
def names (t : TypeTable) : List String := t.entries.map (·.name)

/-- Adds an entry at the end, unless its name is taken. -/
def addEntry (t : TypeTable) (e : TypeEntry) : TypeTable :=
  if t.contains e.name then t else ⟨t.entries ++ [e]⟩

mutual

/-- Adds a type and then the types nested in it. Also those in a type whose name is taken are added,
as types in the one that has the name. -/
def insertType (t : TypeTable) (outer : Option String) : TypeDecl → TypeTable
  | ⟨name, base, fields, methods, nested, attributes⟩ =>
    insertTypes (t.addEntry ⟨⟨name, base, fields, methods, nested, attributes⟩, outer⟩) (some name) nested

def insertTypes (t : TypeTable) (outer : Option String) : List TypeDecl → TypeTable
  | [] => t
  | d :: rest => insertTypes (t.insertType outer d) outer rest

end

variable {t : TypeTable} {u : CompilationUnit} {e : TypeEntry} {l : List TypeEntry}
  {outer name : String}

theorem contains_iff : t.contains name = true ↔ name ∈ t.names := by
  simp [contains, entry?, TypeTable.names]

theorem contains_addEntry (x : String) :
    (t.addEntry e).contains x = (t.contains x || decide (x = e.name)) := by
  rw [Bool.eq_iff_iff, Bool.or_eq_true, decide_eq_true_iff]
  unfold addEntry
  split
  · next h => exact ⟨.inl, fun hx => hx.elim id fun hx => hx ▸ h⟩
  · simp [contains_iff, TypeTable.names]

/-- Adding entries one after another adds the first of each name that is not taken. -/
theorem foldl_addEntry (l : List TypeEntry) (t : TypeTable) : l.foldl addEntry t =
    ⟨t.entries ++ (TypeEntry.firstOfEachName l).filter fun e => !t.contains e.name⟩ := by
  induction l generalizing t with
  | nil => simp [TypeEntry.firstOfEachName]
  | cons e rest ih =>
    rw [List.foldl_cons, ih, TypeEntry.firstOfEachName]
    simp only [contains_addEntry]
    cases h : t.contains e.name with
    | true | false => simp [addEntry, h, List.filter_filter]

mutual

theorem insertType_eq_foldl : ∀ (d : TypeDecl) (t : TypeTable) (outer : Option String),
    t.insertType outer d = (d.preorder outer).foldl addEntry t
  | ⟨name, _, _, _, nested, _⟩, t, outer => by
    rw [insertType, TypeDecl.preorder, List.foldl_cons]
    exact insertTypes_eq_foldl nested _ (some name)

theorem insertTypes_eq_foldl : ∀ (l : List TypeDecl) (t : TypeTable) (outer : Option String),
    t.insertTypes outer l = (TypeDecl.preorderAll outer l).foldl addEntry t
  | [], t, outer => rfl
  | d :: rest, t, outer => by
    rw [insertTypes, TypeDecl.preorderAll, List.foldl_append, insertType_eq_foldl d]
    exact insertTypes_eq_foldl rest _ outer

end

/-- The table of a unit is what adding its types one after another comes to. -/
theorem insertTypes_eq_ofUnit : insertTypes ⟨[]⟩ none u.types = ofUnit u := by
  rw [insertTypes_eq_foldl, foldl_addEntry]
  simp [contains, entry?, ofUnit]

end TypeTable

namespace TypeEntry

variable {l : List TypeEntry} {x : String}

theorem firstOfEachName_filter (l : List TypeEntry) (x : String) :
    firstOfEachName (l.filter fun e => e.name ≠ x) =
      (firstOfEachName l).filter fun e => e.name ≠ x := by
  induction l with
  | nil => rfl
  | cons e rest ih =>
    by_cases hx : e.name = x
    · simp [firstOfEachName, hx, List.filter_filter] at ih ⊢
      exact ih
    · simp only [firstOfEachName, List.filter_cons, hx, ne_eq, not_false_eq_true, decide_true,
        if_true] at ih ⊢
      rw [ih, List.filter_filter, List.filter_filter]
      simp only [Bool.and_comm]

/-- The names of the first entries are all names, each where it comes first. -/
theorem names_firstOfEachName (l : List TypeEntry) :
    (firstOfEachName l).map (·.name) = (l.map (·.name)).eraseDups := by
  induction hn : l.length using Nat.strongRecOn generalizing l with
  | ind n ih =>
    subst hn
    cases l with
    | nil => rfl
    | cons e rest =>
      have hshorter : (rest.filter fun e' => e'.name ≠ e.name).length < (e :: rest).length :=
        Nat.lt_succ_of_le (List.length_filter_le ..)
      rw [firstOfEachName, ← firstOfEachName_filter, List.map_cons, ih _ hshorter _ rfl,
        List.map_cons, List.eraseDups_cons, List.filter_map]
      have hsame : (fun e' : TypeEntry => decide (e'.name ≠ e.name)) =
          (fun b => !b == e.name) ∘ TypeEntry.name := by
        funext e'
        by_cases h : e'.name = e.name <;> simp [h]
      rw [hsame]

theorem find?_firstOfEachName (l : List TypeEntry) (x : String) :
    (firstOfEachName l).find? (fun e => e.name = x) = l.find? fun e => e.name = x := by
  induction l with
  | nil => rfl
  | cons e rest ih =>
    rw [firstOfEachName, List.find?_cons, List.find?_cons]
    by_cases hx : e.name = x
    · simp [hx]
    · simp only [hx, decide_false]
      rw [← ih, List.find?_filter]
      congr 1
      funext e'
      by_cases h' : e'.name = x <;> simp [h', Ne.symm hx]

/-- `OuterFirst seen l`: the type around an entry of the list is one of those seen before, or its
name comes earlier in the list. -/
def OuterFirst (seen : List String) : List TypeEntry → Prop
  | [] => True
  | e :: rest => (∀ outer, e.outer = some outer → outer ∈ seen) ∧ OuterFirst (e.name :: seen) rest

variable {seen seen' : List String} {l' : List TypeEntry}

theorem OuterFirst.mono (h : OuterFirst seen l) (hseen : seen ⊆ seen') : OuterFirst seen' l := by
  induction l generalizing seen seen' with
  | nil => trivial
  | cons e rest ih =>
    exact ⟨fun outer ho => hseen (h.1 outer ho), ih h.2 (List.cons_subset_cons _ hseen)⟩

theorem OuterFirst.append (h : OuterFirst seen l) (h' : OuterFirst seen l') :
    OuterFirst seen (l ++ l') := by
  induction l generalizing seen with
  | nil => exact h'
  | cons e rest ih => exact ⟨h.1, ih h.2 (h'.mono (List.subset_cons_self ..))⟩

/-- Entries of a name that was seen before may be left out. -/
theorem OuterFirst.filter (h : OuterFirst seen l) (hx : x ∈ seen) :
    OuterFirst seen (l.filter fun e => e.name ≠ x) := by
  induction l generalizing seen with
  | nil => trivial
  | cons e rest ih =>
    by_cases he : e.name = x
    · have hrest : OuterFirst seen rest := h.2.mono (List.cons_subset.2 ⟨he ▸ hx, List.Subset.refl _⟩)
      simpa [he] using ih hrest hx
    · rw [List.filter_cons_of_pos (by simpa using he)]
      exact ⟨h.1, ih h.2 (List.mem_cons_of_mem _ hx)⟩

theorem OuterFirst.firstOfEachName (h : OuterFirst seen l) :
    OuterFirst seen (firstOfEachName l) := by
  induction l generalizing seen with
  | nil => trivial
  | cons e rest ih => exact ⟨h.1, (ih h.2).filter List.mem_cons_self⟩

theorem OuterFirst.mem_before {before after : List TypeEntry} {e : TypeEntry} {outer : String}
    (h : OuterFirst seen (before ++ e :: after)) (ho : e.outer = some outer) :
    outer ∈ seen ∨ outer ∈ before.map (·.name) := by
  induction before generalizing seen with
  | nil => exact .inl (h.1 outer ho)
  | cons e' before ih =>
    rcases ih h.2 with hseen | hbefore
    · rcases List.mem_cons.1 hseen with rfl | hseen
      · exact .inr List.mem_cons_self
      · exact .inl hseen
    · exact .inr (List.mem_cons_of_mem _ hbefore)

end TypeEntry

mutual

/-- A type is listed before the types nested in it. -/
theorem TypeDecl.outerFirst_preorder : ∀ (d : TypeDecl) {outer : Option String} {seen : List String},
    (∀ name, outer = some name → name ∈ seen) → TypeEntry.OuterFirst seen (d.preorder outer)
  | ⟨name, _, _, _, nested, _⟩, outer, seen, h => by
    rw [preorder]
    refine ⟨h, outerFirst_preorderAll nested ?_⟩
    rintro _ ⟨⟩
    exact List.mem_cons_self

theorem TypeDecl.outerFirst_preorderAll : ∀ (l : List TypeDecl) {outer : Option String}
    {seen : List String}, (∀ name, outer = some name → name ∈ seen) →
      TypeEntry.OuterFirst seen (TypeDecl.preorderAll outer l)
  | [], _, _, _ => trivial
  | d :: rest, _, _, h => (outerFirst_preorder d h).append (outerFirst_preorderAll rest h)

end

namespace TypeTable

variable {t : TypeTable} {u : CompilationUnit} {next : TypeEntry → Option String}
  {pool : List TypeEntry} {start : Option String} {e : TypeEntry} {outer name x : String}

/-- Whether each type in the table stands behind the type around it. -/
def Ordered (t : TypeTable) : Prop :=
  ∀ e ∈ t.entries, ∀ outer, e.outer = some outer → t.names.idxOf outer < t.names.idxOf e.name

theorem nodup_names : (ofUnit u).names.Nodup :=
  List.pairwise_map.2 (TypeEntry.firstOfEachName_pairwise _)

theorem ordered_ofUnit : (ofUnit u).Ordered := by
  intro e he outer ho
  obtain ⟨before, after, hsplit⟩ := List.append_of_mem he
  have hfirst : TypeEntry.OuterFirst [] (ofUnit u).entries :=
    (TypeDecl.outerFirst_preorderAll u.types (by rintro _ ⟨⟩)).firstOfEachName
  have hnames : (ofUnit u).names = before.map (·.name) ++ e.name :: after.map (·.name) := by
    rw [names, hsplit, List.map_append, List.map_cons]
  have hbefore : outer ∈ before.map (·.name) := by
    rw [hsplit] at hfirst
    exact (hfirst.mem_before ho).resolve_left List.not_mem_nil
  have hnew : e.name ∉ before.map (·.name) := by
    have hdistinct := hnames ▸ nodup_names (u := u)
    exact fun h => (List.nodup_append.1 hdistinct).2.2 _ h _ List.mem_cons_self rfl
  calc (ofUnit u).names.idxOf outer
      = (before.map (·.name)).idxOf outer := by rw [hnames, List.idxOf_append, if_pos hbefore]
    _ < (before.map (·.name)).length := List.idxOf_lt_length_of_mem hbefore
    _ ≤ (ofUnit u).names.idxOf e.name := by
        rw [hnames, List.idxOf_append, if_neg hnew]
        exact Nat.le_add_left ..

/-- A walk that does not come to a name goes the same way without its entries. -/
theorem chain_without (h : ∀ e ∈ chain next pool start, e.name ≠ x) :
    chain next (without x pool) start = chain next pool start := by
  fun_induction chain next pool start with
  | case1 => rw [chain]
  | case2 pool name hnone =>
    refine chain_of_find?_none (List.find?_eq_none.2 fun e he => ?_)
    exact List.find?_eq_none.1 hnone e (List.mem_filter.1 he).1
  | case3 pool name e hfind _ ih =>
    have hname : e.name = name := by simpa using List.find?_some hfind
    have hne : name ≠ x := hname ▸ h e List.mem_cons_self
    have hfind' : (without x pool).find? (fun e => e.name = name) = some e := by
      rw [find?_without hne, hfind]
    have hcomm : without name (without x pool) = without x (without name pool) := by
      simp only [without, List.filter_filter, Bool.and_comm]
    rw [chain_of_find? hfind', hcomm, ih fun e' he' => h e' (List.mem_cons_of_mem _ he')]

theorem Ordered.idxOf_lt (h : t.Ordered) (hwithin : t.Within name outer) :
    t.names.idxOf outer < t.names.idxOf name := by
  obtain ⟨e, hfind, ho⟩ := hwithin
  have hname : e.name = name := by simpa using List.find?_some hfind
  exact hname ▸ h e (List.mem_of_find?_eq_some hfind) outer ho

theorem Ordered.idxOf_le (h : t.Ordered) (hleads : ReflTransGen t.Within name outer) :
    t.names.idxOf outer ≤ t.names.idxOf name := by
  induction hleads with
  | refl => exact Nat.le_refl _
  | tail _ hstep ih => exact Nat.le_trans (Nat.le_of_lt (h.idxOf_lt hstep)) ih

theorem Ordered.mem_names (h : t.Ordered) (hwithin : t.Within name outer) : outer ∈ t.names := by
  have hlt := h.idxOf_lt hwithin
  exact List.idxOf_lt_length_iff.1 (Nat.lt_of_lt_of_le hlt List.idxOf_le_length)

/-- The types around a type are the one it is declared in, and those around that. -/
theorem Ordered.outerTypes_eq (h : t.Ordered) (name : String) : t.outerTypes name =
    match (t.entry? name).bind (·.outer) with
    | none => []
    | some outer => outer :: t.outerTypes outer := by
  cases ho : (t.entry? name).bind (·.outer) with
  | none => rw [outerTypes, ho, chain, List.map_nil]
  | some outer =>
    obtain ⟨e, he, heo⟩ := Option.bind_eq_some_iff.1 ho
    obtain ⟨e', he'⟩ : ∃ e', t.entry? outer = some e' := by
      rw [← Option.isSome_iff_exists]
      exact contains_iff.2 (h.mem_names ⟨e, he, heo⟩)
    have hname : e'.name = outer := by simpa using List.find?_some he'
    -- What lies outwards of the type around is further up, so the walk does not come back to it.
    have hback : ∀ e'' ∈ chain (·.outer) t.entries e'.outer, e''.name ≠ outer := by
      intro e'' hmem hsame
      obtain ⟨-, first, hfirst, hleads⟩ := mem_chain_iff.1 hmem
      have hlt := h.idxOf_lt ⟨e', he', hfirst⟩
      have hle := h.idxOf_le hleads
      rw [hsame] at hle
      omega
    rw [outerTypes, ho, chain_of_find? he', List.map_cons, hname, chain_without hback]
    simp only [outerTypes, he', Option.bind_some]

/-- The way outwards goes up the table's list. -/
theorem Ordered.pairwise_outerTypes (h : t.Ordered) (name : String) :
    (name :: t.outerTypes name).Pairwise fun inner outer =>
      t.names.idxOf outer < t.names.idxOf inner := by
  induction hn : t.names.idxOf name using Nat.strongRecOn generalizing name with
  | ind n ih =>
    subst hn
    rw [h.outerTypes_eq]
    cases ho : (t.entry? name).bind (·.outer) with
    | none => exact List.pairwise_singleton ..
    | some outer =>
      obtain ⟨e, he, heo⟩ := Option.bind_eq_some_iff.1 ho
      have hlt := h.idxOf_lt ⟨e, he, heo⟩
      have hrest := ih _ hlt outer rfl
      refine List.pairwise_cons.2 ⟨fun x hx => ?_, hrest⟩
      rcases List.mem_cons.1 hx with rfl | hx
      · exact hlt
      · exact Nat.lt_trans ((List.pairwise_cons.1 hrest).1 x hx) hlt

/-- The way outwards ends at a type that is declared in no other. -/
theorem Ordered.exists_outermost (h : t.Ordered) (hname : name ∈ t.names) :
    ∃ e, t.entry? ((t.outerTypes name).getLastD name) = some e ∧ e.outer = none := by
  induction hn : t.names.idxOf name using Nat.strongRecOn generalizing name with
  | ind n ih =>
    subst hn
    rw [h.outerTypes_eq]
    obtain ⟨e, he⟩ := Option.isSome_iff_exists.1 (contains_iff.2 hname)
    cases ho : e.outer with
    | none => exact ⟨e, by simp [he, ho], ho⟩
    | some outer =>
      have hwithin : t.Within name outer := ⟨e, he, ho⟩
      have hrest := ih _ (h.idxOf_lt hwithin) (h.mem_names hwithin) rfl
      simpa [he, ho, List.getLast?_cons] using hrest

/-- The table of a unit lists its types as they are added one after another, each name where it is
declared first and with what is declared there. The type around another stands before it. So the
types around a type, found by going from each to the one around it, are all different, stand further
and further up, and end with one that lies in no other; going outwards never comes to a type again. -/
theorem types_form_forest (u : CompilationUnit) :
    let t := ofUnit u
    let declared := TypeDecl.preorderAll none u.types
    t = insertTypes ⟨[]⟩ none u.types ∧
    t.names.Nodup ∧
    t.names = (declared.map (·.name)).eraseDups ∧
    (∀ name, t.contains name = true ↔ name ∈ t.names) ∧
    (∀ name, t.entry? name = declared.find? fun e => e.name = name) ∧
    (∀ e ∈ t.entries, ∀ outer, e.outer = some outer →
      t.contains outer = true ∧ t.names.idxOf outer < t.names.idxOf e.name) ∧
    ∀ name,
      (t.outerTypes name = match (t.entry? name).bind (·.outer) with
        | none => []
        | some outer => outer :: t.outerTypes outer) ∧
      ((name :: t.outerTypes name).Pairwise fun inner outer =>
        t.names.idxOf outer < t.names.idxOf inner) ∧
      (name :: t.outerTypes name).Nodup ∧
      (t.contains name = true →
        ∃ e, t.entry? ((t.outerTypes name).getLastD name) = some e ∧ e.outer = none) := by
  intro t declared
  have hordered : t.Ordered := ordered_ofUnit
  refine ⟨insertTypes_eq_ofUnit.symm, nodup_names, TypeEntry.names_firstOfEachName declared,
    fun name => contains_iff, fun name => TypeEntry.find?_firstOfEachName declared name,
    fun e he outer ho => ?_, fun name => ⟨hordered.outerTypes_eq name,
      hordered.pairwise_outerTypes name, ?_, fun hname => ?_⟩⟩
  · have hlt := hordered e he outer ho
    exact ⟨contains_iff.2 (List.idxOf_lt_length_iff.1 (Nat.lt_of_lt_of_le hlt List.idxOf_le_length)), hlt⟩
  · refine (hordered.pairwise_outerTypes name).imp fun hlt heq => ?_
    exact Nat.lt_irrefl _ (heq ▸ hlt)
  · exact hordered.exists_outermost (contains_iff.1 hname)

end TypeTable

end LockDiscipline
