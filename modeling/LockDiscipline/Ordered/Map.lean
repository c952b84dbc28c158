/-!
Finite maps listed by ascending keys. Two maps with the same bindings are equal, whatever history
built them.
-/

namespace LockDiscipline

open Std

variable {κ ν : Type}

/-- A finite map, held as its bindings in strictly ascending order of the keys. -/
structure OrderedMap (κ ν : Type) [Ord κ] where
  toList : List (κ × ν)
  ascending : toList.Pairwise fun a b => compare a.1 b.1 = .lt

namespace OrderedMap

variable [Ord κ]

instance [DecidableEq κ] [DecidableEq ν] : DecidableEq (OrderedMap κ ν) := fun s t =>
  match decEq s.toList t.toList with
  | isTrue h => isTrue (by cases s; cases t; cases h; rfl)
  | isFalse h => isFalse fun e => h (e ▸ rfl)

/-- The map without bindings. -/
def empty : OrderedMap κ ν := ⟨[], .nil⟩

instance : EmptyCollection (OrderedMap κ ν) := ⟨empty⟩

instance : Inhabited (OrderedMap κ ν) := ⟨empty⟩

/-- The keys in ascending order. -/
def keys (m : OrderedMap κ ν) : List κ := m.toList.map (·.1)

/-- The value bound to `k` in a list of bindings. -/
def lookup (k : κ) : List (κ × ν) → Option ν
  | [] => none
  | (k', v) :: rest => if compare k k' = .eq then some v else lookup k rest

/-- The value bound to `k`. -/
def get? (m : OrderedMap κ ν) (k : κ) : Option ν := lookup k m.toList

/-- Whether `k` is bound. -/
def contains (m : OrderedMap κ ν) (k : κ) : Bool := (m.get? k).isSome

@[simp] theorem get?_empty {k : κ} : (∅ : OrderedMap κ ν).get? k = none := rfl

/-- The keys are what is bound. -/
theorem mem_keys_iff [LawfulEqOrd κ] {m : OrderedMap κ ν} {k : κ} :
    k ∈ m.keys ↔ (m.get? k).isSome := by
  rw [keys, get?]
  induction m.toList with
  | nil => simp [lookup]
  | cons b rest ih =>
    rw [List.map_cons, List.mem_cons, ih, lookup]
    split
    · next h => simp [LawfulEqOrd.compare_eq_iff_eq.1 h]
    · next h =>
      have hne : k ≠ b.1 := fun heq => h (LawfulEqOrd.compare_eq_iff_eq.2 heq)
      simp [hne]

private theorem lookup_eq_some_iff [TransOrd κ] [LawfulEqOrd κ] {l : List (κ × ν)} {k : κ} {v : ν}
    (hl : l.Pairwise fun a b => compare a.1 b.1 = .lt) : lookup k l = some v ↔ (k, v) ∈ l := by
  induction l with
  | nil => simp [lookup]
  | cons b rest ih =>
    obtain ⟨hb, hrest⟩ := List.pairwise_cons.1 hl
    rw [lookup, List.mem_cons]
    split
    · next h =>
      obtain rfl := LawfulEqOrd.eq_of_compare h
      have hlater : (b.1, v) ∉ rest := fun hmem => by
        have hlt := hb _ hmem
        rw [ReflOrd.compare_self] at hlt
        cases hlt
      rw [or_iff_left hlater, Option.some.injEq, Prod.ext_iff]
      exact ⟨fun hv => ⟨rfl, hv.symm⟩, fun hv => hv.2.symm⟩
    · next h =>
      have hne : (k, v) ≠ b := by
        rintro rfl
        exact h ReflOrd.compare_self
      rw [or_iff_right hne, ih hrest]

/-- A key is bound to the value that is listed with it. -/
theorem get?_eq_some_iff [TransOrd κ] [LawfulEqOrd κ] {m : OrderedMap κ ν} {k : κ} {v : ν} :
    m.get? k = some v ↔ (k, v) ∈ m.toList :=
  lookup_eq_some_iff m.ascending

/-- Binds `k` to `v` in ascending bindings, in place of an earlier binding of `k`. -/
def insertAscending (k : κ) (v : ν) : List (κ × ν) → List (κ × ν)
  | [] => [(k, v)]
  | (k', v') :: rest =>
    match compare k k' with
    | .lt => (k, v) :: (k', v') :: rest
    | .eq => (k, v) :: rest
    | .gt => (k', v') :: insertAscending k v rest

theorem mem_insertAscending {k : κ} {v : ν} {l : List (κ × ν)} {b : κ × ν}
    (h : b ∈ insertAscending k v l) : b = (k, v) ∨ b ∈ l := by
  induction l with
  | nil => simpa [insertAscending] using h
  | cons c rest ih =>
    rw [insertAscending] at h
    split at h
    · simpa using h
    · simp only [List.mem_cons] at h ⊢
      exact h.imp_right .inr
    · simp only [List.mem_cons] at h ⊢
      rcases h with h | h
      · exact .inr (.inl h)
      · exact (ih h).imp_right .inr

theorem insertAscending_ascending [TransOrd κ] (k : κ) (v : ν) {l : List (κ × ν)}
    (hl : l.Pairwise fun a b => compare a.1 b.1 = .lt) :
    (insertAscending k v l).Pairwise fun a b => compare a.1 b.1 = .lt := by
  induction l with
  | nil => simp [insertAscending]
  | cons b rest ih =>
    have hb := List.pairwise_cons.1 hl
    rw [insertAscending]
    split
    · next h =>
      refine List.pairwise_cons.2 ⟨fun c hc => ?_, hl⟩
      rcases List.mem_cons.1 hc with rfl | hc
      · exact h
      · exact TransCmp.lt_trans h (hb.1 c hc)
    · next h =>
      exact List.pairwise_cons.2 ⟨fun c hc => TransCmp.lt_of_eq_of_lt h (hb.1 c hc), hb.2⟩
    · next h =>
      refine List.pairwise_cons.2 ⟨fun c hc => ?_, ih hb.2⟩
      rcases mem_insertAscending hc with rfl | hc
      · exact OrientedCmp.lt_of_gt h
      · exact hb.1 c hc

/-- The map with `k` bound to `v`, in place of an earlier binding of `k`. -/
def insert [TransOrd κ] (m : OrderedMap κ ν) (k : κ) (v : ν) : OrderedMap κ ν :=
  ⟨insertAscending k v m.toList, insertAscending_ascending k v m.ascending⟩

private theorem lookup_insertAscending [TransOrd κ] [LawfulEqOrd κ] [DecidableEq κ] (k k' : κ)
    (v : ν) (l : List (κ × ν)) :
    lookup k' (insertAscending k v l) = if k' = k then some v else lookup k' l := by
  induction l with
  | nil =>
    simp only [insertAscending, lookup, LawfulEqOrd.compare_eq_iff_eq]
  | cons b rest ih =>
    rw [insertAscending]
    split
    · next h => simp only [lookup, LawfulEqOrd.compare_eq_iff_eq]
    · next h =>
      obtain rfl := LawfulEqOrd.eq_of_compare h
      simp only [lookup, LawfulEqOrd.compare_eq_iff_eq]
      split <;> rfl
    · next h =>
      simp only [lookup, LawfulEqOrd.compare_eq_iff_eq, ih]
      by_cases hk : k' = k
      · subst hk
        have : ¬ k' = b.1 := fun e => by
          rw [e, ReflOrd.compare_self] at h
          cases h
        simp [this]
      · simp [hk]

/-- A key is bound to what was last bound to it. -/
theorem get?_insert [TransOrd κ] [LawfulEqOrd κ] [DecidableEq κ] (m : OrderedMap κ ν) (k k' : κ)
    (v : ν) : (m.insert k v).get? k' = if k' = k then some v else m.get? k' :=
  lookup_insertAscending k k' v m.toList

theorem mem_keys_insert [TransOrd κ] [LawfulEqOrd κ] [DecidableEq κ] {m : OrderedMap κ ν} {k k' : κ}
    {v : ν} : k' ∈ (m.insert k v).keys ↔ k' = k ∨ k' ∈ m.keys := by
  rw [mem_keys_iff, mem_keys_iff, get?_insert]
  split <;> simp_all

/-- Binds the keys of a list one after another, so that the last binding of a key stays. -/
def insertAll [TransOrd κ] (m : OrderedMap κ ν) (bindings : List (κ × ν)) : OrderedMap κ ν :=
  bindings.foldl (fun m b => m.insert b.1 b.2) m

private theorem lookup_eq_none {k : κ} {l : List (κ × ν)} (h : ∀ b ∈ l, compare k b.1 = .lt) :
    lookup k l = none := by
  induction l with
  | nil => rfl
  | cons b rest ih =>
    rw [lookup, h b (List.mem_cons_self ..)]
    exact ih fun b' hb' => h b' (List.mem_cons_of_mem _ hb')

private theorem get?_insertAll [TransOrd κ] [LawfulEqOrd κ] [DecidableEq κ] {l : List (κ × ν)}
    (m : OrderedMap κ ν) (k : κ) (hl : l.Pairwise fun a b => compare a.1 b.1 = .lt) :
    (m.insertAll l).get? k = (lookup k l).or (m.get? k) := by
  induction l generalizing m with
  | nil => rfl
  | cons b rest ih =>
    obtain ⟨hb, hrest⟩ := List.pairwise_cons.1 hl
    have hstep :
        (m.insertAll (b :: rest)).get? k = ((m.insert b.1 b.2).insertAll rest).get? k := rfl
    rw [hstep, ih _ hrest, get?_insert, lookup]
    by_cases hk : k = b.1
    · subst hk
      simp [lookup_eq_none hb]
    · simp [hk]

/-- The bindings of a map that is put over another one. -/
theorem get?_insertAll_toList [TransOrd κ] [LawfulEqOrd κ] [DecidableEq κ]
    (m m' : OrderedMap κ ν) (k : κ) :
    (m.insertAll m'.toList).get? k = (m'.get? k).or (m.get? k) :=
  get?_insertAll m k m'.ascending

/-- The map of the bindings of a list; the last binding of a key stays. -/
def ofList [TransOrd κ] (bindings : List (κ × ν)) : OrderedMap κ ν :=
  insertAll ∅ bindings

/-- The last binding of a list stands. -/
theorem get?_ofList_concat [TransOrd κ] [LawfulEqOrd κ] [DecidableEq κ] (l : List (κ × ν))
    (b : κ × ν) (k : κ) :
    (ofList (l ++ [b])).get? k = if k = b.1 then some b.2 else (ofList l).get? k := by
  have hlast : ofList (l ++ [b]) = (ofList l).insert b.1 b.2 := by
    simp only [ofList, insertAll, List.foldl_append, List.foldl_cons, List.foldl_nil]
  rw [hlast, get?_insert]

private theorem get?_insertAll_eq_some [TransOrd κ] [LawfulEqOrd κ] [DecidableEq κ]
    {m : OrderedMap κ ν} {l : List (κ × ν)} {k : κ} {v : ν} (h : (m.insertAll l).get? k = some v) :
    (k, v) ∈ l ∨ m.get? k = some v := by
  induction l generalizing m with
  | nil => exact .inr h
  | cons b rest ih =>
    rcases ih (m := m.insert b.1 b.2) h with hmem | hget
    · exact .inl (List.mem_cons_of_mem _ hmem)
    · rw [get?_insert] at hget
      split at hget
      · next hk =>
        cases hget
        exact .inl (hk ▸ List.mem_cons_self)
      · exact .inr hget

/-- A key is bound to one of the values that are listed with it. -/
theorem mem_of_get?_ofList [TransOrd κ] [LawfulEqOrd κ] [DecidableEq κ] {l : List (κ × ν)} {k : κ}
    {v : ν} (h : (ofList l).get? k = some v) : (k, v) ∈ l :=
  (get?_insertAll_eq_some h).resolve_right nofun

private theorem isSome_get?_insertAll [TransOrd κ] [LawfulEqOrd κ] [DecidableEq κ]
    {m : OrderedMap κ ν} {l : List (κ × ν)} {k : κ}
    (h : (m.get? k).isSome ∨ ∃ v, (k, v) ∈ l) : ((m.insertAll l).get? k).isSome := by
  induction l generalizing m with
  | nil => exact h.resolve_right (by simp)
  | cons b rest ih =>
    refine ih (m := m.insert b.1 b.2) ?_
    rw [get?_insert]
    by_cases hk : k = b.1
    · exact .inl (by rw [if_pos hk]; rfl)
    · rw [if_neg hk]
      refine h.imp_right fun ⟨v, hmem⟩ => ⟨v, (List.mem_cons.1 hmem).resolve_left ?_⟩
      rintro rfl
      exact hk rfl

/-- Every key of a list is bound. -/
theorem isSome_get?_ofList [TransOrd κ] [LawfulEqOrd κ] [DecidableEq κ] {l : List (κ × ν)} {k : κ}
    {v : ν} (h : (k, v) ∈ l) : ((ofList l).get? k).isSome :=
  isSome_get?_insertAll (.inr ⟨v, h⟩)

/-- A map is its bindings. -/
theorem ext [TransOrd κ] [LawfulEqOrd κ] {m m' : OrderedMap κ ν}
    (h : ∀ k, m.get? k = m'.get? k) : m = m' := by
  have hmem (b : κ × ν) : b ∈ m.toList ↔ b ∈ m'.toList := by
    rw [← get?_eq_some_iff (m := m), ← get?_eq_some_iff (m := m'), h]
  have hnodup (m : OrderedMap κ ν) : m.toList.Nodup := by
    refine m.ascending.imp fun {a b} hlt hab => ?_
    rw [hab, ReflOrd.compare_self] at hlt
    cases hlt
  have hperm := (List.perm_ext_iff_of_nodup (hnodup m) (hnodup m')).2 hmem
  have hlist : m.toList = m'.toList := by
    refine hperm.eq_of_pairwise (fun a b _ _ hab hba => ?_) m.ascending m'.ascending
    exact absurd hba (OrientedCmp.not_lt_of_lt hab)
  cases m
  cases m'
  cases hlist
  rfl

end OrderedMap

end LockDiscipline
