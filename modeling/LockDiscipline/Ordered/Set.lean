/-!
Finite sets listed in ascending order, each member once. Two sets with the same members are equal,
whatever history built them.
-/

namespace LockDiscipline

open Std

variable {α : Type}

/-- A finite set, held as its members in strictly ascending order. -/
structure OrderedSet (α : Type) [Ord α] where
  toList : List α
  ascending : toList.Pairwise fun a b => compare a b = .lt

namespace OrderedSet

variable [Ord α]

instance : Membership α (OrderedSet α) where
  mem s a := a ∈ s.toList

theorem mem_def {a : α} {s : OrderedSet α} : a ∈ s ↔ a ∈ s.toList := Iff.rfl

instance [DecidableEq α] (a : α) (s : OrderedSet α) : Decidable (a ∈ s) :=
  inferInstanceAs (Decidable (a ∈ s.toList))

instance [DecidableEq α] : DecidableEq (OrderedSet α) := fun s t =>
  match decEq s.toList t.toList with
  | isTrue h => isTrue (by cases s; cases t; cases h; rfl)
  | isFalse h => isFalse fun e => h (e ▸ rfl)

/-- The set without members. -/
def empty : OrderedSet α := ⟨[], .nil⟩

instance : EmptyCollection (OrderedSet α) := ⟨empty⟩

instance : Inhabited (OrderedSet α) := ⟨empty⟩

@[simp] theorem not_mem_empty {a : α} : ¬ a ∈ (∅ : OrderedSet α) := List.not_mem_nil

/-- The number of members. -/
def size (s : OrderedSet α) : Nat := s.toList.length

/-- The members satisfying `p`. -/
def filter (p : α → Bool) (s : OrderedSet α) : OrderedSet α :=
  ⟨s.toList.filter p, s.ascending.sublist List.filter_sublist⟩

@[simp] theorem mem_filter {p : α → Bool} {s : OrderedSet α} {a : α} :
    a ∈ s.filter p ↔ a ∈ s ∧ p a = true := List.mem_filter

/-- The members of both sets. -/
def inter [DecidableEq α] (s t : OrderedSet α) : OrderedSet α :=
  s.filter fun a => a ∈ t

@[simp] theorem mem_inter [DecidableEq α] {s t : OrderedSet α} {a : α} :
    a ∈ s.inter t ↔ a ∈ s ∧ a ∈ t := by
  simp [inter]

/-- The members other than `a`. -/
def erase [DecidableEq α] (s : OrderedSet α) (a : α) : OrderedSet α :=
  s.filter fun b => b ≠ a

@[simp] theorem mem_erase [DecidableEq α] {s : OrderedSet α} {a b : α} :
    b ∈ s.erase a ↔ b ∈ s ∧ b ≠ a := by
  simp [erase]

/-- Puts `a` into its place in an ascending list that may hold it already. -/
def insertAscending (a : α) : List α → List α
  | [] => [a]
  | b :: rest =>
    match compare a b with
    | .lt => a :: b :: rest
    | .eq => b :: rest
    | .gt => b :: insertAscending a rest

theorem mem_insertAscending [LawfulEqOrd α] {a c : α} {l : List α} :
    c ∈ insertAscending a l ↔ c = a ∨ c ∈ l := by
  induction l with
  | nil => simp [insertAscending]
  | cons b rest ih =>
    rw [insertAscending]
    split
    · simp
    · next h =>
      obtain rfl := LawfulEqOrd.eq_of_compare h
      simp
    · simp only [List.mem_cons, ih]
      exact or_left_comm

theorem insertAscending_ascending [TransOrd α] [LawfulEqOrd α] (a : α) {l : List α}
    (hl : l.Pairwise fun a b => compare a b = .lt) :
    (insertAscending a l).Pairwise fun a b => compare a b = .lt := by
  induction l with
  | nil => simp [insertAscending]
  | cons b rest ih =>
    have hb := List.pairwise_cons.1 hl
    rw [insertAscending]
    split
    · next h =>
      refine List.pairwise_cons.2 ⟨fun c hc => ?_, hl⟩
      rcases List.mem_cons.1 hc with rfl | hc
      · exact h
      · exact TransCmp.lt_trans h (hb.1 c hc)
    · exact hl
    · next h =>
      refine List.pairwise_cons.2 ⟨fun c hc => ?_, ih hb.2⟩
      rcases mem_insertAscending.1 hc with rfl | hc
      · exact OrientedCmp.lt_of_gt h
      · exact hb.1 c hc

/-- The set with `a` added. -/
def insert [TransOrd α] [LawfulEqOrd α] (s : OrderedSet α) (a : α) : OrderedSet α :=
  ⟨insertAscending a s.toList, insertAscending_ascending a s.ascending⟩

@[simp] theorem mem_insert [TransOrd α] [LawfulEqOrd α] {s : OrderedSet α} {a b : α} :
    b ∈ s.insert a ↔ b = a ∨ b ∈ s := mem_insertAscending

/-- The set of the members of a list. -/
def ofList [TransOrd α] [LawfulEqOrd α] (l : List α) : OrderedSet α :=
  l.foldl insert ∅

theorem mem_foldl_insert [TransOrd α] [LawfulEqOrd α] {l : List α} {s : OrderedSet α} {a : α} :
    a ∈ l.foldl insert s ↔ a ∈ s ∨ a ∈ l := by
  induction l generalizing s with
  | nil => simp
  | cons b rest ih =>
    simp only [List.foldl_cons, ih, mem_insert, List.mem_cons]
    exact ⟨fun h => by rcases h with (h | h) | h <;> simp [h],
      fun h => by rcases h with h | h | h <;> simp [h]⟩

@[simp] theorem mem_ofList [TransOrd α] [LawfulEqOrd α] {l : List α} {a : α} :
    a ∈ ofList l ↔ a ∈ l := by
  simp [ofList, mem_foldl_insert]

/-- The members of either set. -/
def union [TransOrd α] [LawfulEqOrd α] (s t : OrderedSet α) : OrderedSet α :=
  t.toList.foldl insert s

@[simp] theorem mem_union [TransOrd α] [LawfulEqOrd α] {s t : OrderedSet α} {a : α} :
    a ∈ s.union t ↔ a ∈ s ∨ a ∈ t := mem_foldl_insert

private theorem ascending_ext [TransOrd α] {l m : List α}
    (hl : l.Pairwise fun a b => compare a b = .lt) (hm : m.Pairwise fun a b => compare a b = .lt)
    (h : ∀ a, a ∈ l ↔ a ∈ m) : l = m := by
  induction l generalizing m with
  | nil =>
    cases m with
    | nil => rfl
    | cons b rest => simpa using (h b).2 List.mem_cons_self
  | cons a as ih =>
    cases m with
    | nil => simpa using (h a).1 List.mem_cons_self
    | cons b bs =>
      have ha := List.pairwise_cons.1 hl
      have hb := List.pairwise_cons.1 hm
      have hab : a = b := by
        rcases List.mem_cons.1 ((h a).1 List.mem_cons_self) with e | hmem
        · exact e
        · rcases List.mem_cons.1 ((h b).2 List.mem_cons_self) with e | hmem'
          · exact e.symm
          · exact absurd (hb.1 a hmem) (OrientedCmp.not_lt_of_lt (ha.1 b hmem'))
      subst hab
      refine congrArg _ (ih ha.2 hb.2 fun c => ?_)
      have irr : compare a a ≠ .lt := by simp [ReflOrd.compare_self]
      constructor
      · intro hc
        rcases List.mem_cons.1 ((h c).1 (List.mem_cons_of_mem _ hc)) with rfl | hc'
        · exact absurd (ha.1 _ hc) irr
        · exact hc'
      · intro hc
        rcases List.mem_cons.1 ((h c).2 (List.mem_cons_of_mem _ hc)) with rfl | hc'
        · exact absurd (hb.1 _ hc) irr
        · exact hc'

/-- A set is its members. -/
theorem ext [TransOrd α] {s t : OrderedSet α} (h : ∀ a, a ∈ s ↔ a ∈ t) : s = t := by
  cases s with
  | mk l hl =>
    cases t with
    | mk m hm =>
      cases ascending_ext hl hm h
      rfl

theorem insert_of_mem [TransOrd α] [LawfulEqOrd α] {s : OrderedSet α} {a : α} (h : a ∈ s) :
    s.insert a = s := by
  apply ext
  intro b
  rw [mem_insert]
  exact ⟨fun hb => hb.elim (fun hb => hb ▸ h) id, .inr⟩

/-- Keeping only members of `t` changes `s` only by making it smaller. -/
theorem size_inter_lt [DecidableEq α] {s t : OrderedSet α} (h : s.inter t ≠ s) :
    (s.inter t).size < s.size := by
  have hle : (s.inter t).size ≤ s.size := List.length_filter_le ..
  refine Nat.lt_of_le_of_ne hle fun e => h ?_
  have hl : (s.inter t).toList = s.toList := List.filter_sublist.eq_of_length e
  cases s with
  | mk l hs =>
    simp only [inter, filter] at hl ⊢
    simp [hl]

end OrderedSet

end LockDiscipline
