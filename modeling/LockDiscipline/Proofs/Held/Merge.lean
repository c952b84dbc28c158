import LockDiscipline.Body.Walk

/-! What stays held where points of a body flow together. Every law is stated for one lock at a
time: a merge holds a lock exactly when each of its parts does. -/

namespace LockDiscipline

namespace OrderedSet

variable {α : Type} [Ord α]

instance : HasSubset (OrderedSet α) := ⟨fun s t => ∀ a, a ∈ s → a ∈ t⟩

theorem subset_def {s t : OrderedSet α} : s ⊆ t ↔ ∀ a, a ∈ s → a ∈ t := Iff.rfl

protected theorem Subset.refl (s : OrderedSet α) : s ⊆ s := fun _ h => h

protected theorem Subset.trans {s t u : OrderedSet α} (hst : s ⊆ t) (htu : t ⊆ u) : s ⊆ u :=
  fun a h => htu a (hst a h)

theorem insert_mono [Std.TransOrd α] [Std.LawfulEqOrd α] {s t : OrderedSet α} (h : s ⊆ t) (a : α) :
    s.insert a ⊆ t.insert a := by
  intro b hb
  rcases mem_insert.1 hb with rfl | hb
  · exact mem_insert.2 (.inl rfl)
  · exact mem_insert.2 (.inr (h b hb))

theorem erase_mono [DecidableEq α] {s t : OrderedSet α} (h : s ⊆ t) (a : α) :
    s.erase a ⊆ t.erase a := by
  intro b hb
  obtain ⟨hs, hne⟩ := mem_erase.1 hb
  exact mem_erase.2 ⟨h b hs, hne⟩

theorem inter_comm [DecidableEq α] [Std.TransOrd α] (s t : OrderedSet α) : s.inter t = t.inter s :=
  ext fun a => by simp only [mem_inter, and_comm]

end OrderedSet

theorem LockEffect.apply_mono (effect : LockEffect) (path : LockPath) {s t : HeldSet} (h : s ⊆ t) :
    effect.apply path s ⊆ effect.apply path t := by
  cases effect with
  | acquire => exact OrderedSet.insert_mono h path
  | release => exact OrderedSet.erase_mono h path

theorem HeldSet.invalidate_mono (place : LockPath) {s t : HeldSet} (h : s ⊆ t) :
    s.invalidate place ⊆ t.invalidate place := by
  intro p hp
  obtain ⟨hin, hr⟩ := mem_invalidate.1 hp
  exact mem_invalidate.2 ⟨h p hin, hr⟩

namespace FlowState

variable {s t u : FlowState} {p : LockPath}

/-- Whether the lock at `p` is held at a point; where no path arrives, every lock is. -/
def Holds : FlowState → LockPath → Prop
  | some held, p => p ∈ held
  | none, _ => True

@[simp] theorem holds_some {held : HeldSet} : Holds (some held) p ↔ p ∈ held := Iff.rfl

@[simp] theorem holds_none : Holds none p ↔ True := Iff.rfl

theorem holds_iff : s.Holds p ↔ ∀ held, s = some held → p ∈ held := by
  cases s <;> simp

theorem Holds.mem {held : HeldSet} (h : s.Holds p) (hs : s = some held) : p ∈ held :=
  holds_iff.1 h held hs

/-- A point is known by whether it is reached and by the locks held there. -/
theorem ext (hr : s.isSome = t.isSome) (hp : ∀ p, s.Holds p ↔ t.Holds p) : s = t := by
  cases s with
  | none =>
    cases t with
    | none => rfl
    | some b => cases hr
  | some a =>
    cases t with
    | none => cases hr
    | some b => exact congrArg some (OrderedSet.ext hp)

@[simp] theorem holds_join : (s.join t).Holds p ↔ s.Holds p ∧ t.Holds p := by
  cases s <;> cases t <;> simp [join]

@[simp] theorem isSome_join : (s.join t).isSome = (s.isSome || t.isSome) := by
  cases s <;> cases t <;> rfl

@[simp] theorem join_none : s.join none = s := by
  cases s <;> rfl

@[simp] theorem none_join : join none s = s := rfl

theorem join_assoc : (s.join t).join u = s.join (t.join u) := by
  apply ext
  · simp only [isSome_join, Bool.or_assoc]
  · intro p
    simp only [holds_join, and_assoc]

@[simp] theorem joinAll_nil : s.joinAll [] = s := rfl

@[simp] theorem joinAll_cons {held : HeldSet} {l : List HeldSet} :
    s.joinAll (held :: l) = (s.join (some held)).joinAll l := rfl

@[simp] theorem holds_joinAll {l : List HeldSet} :
    (s.joinAll l).Holds p ↔ s.Holds p ∧ ∀ held ∈ l, p ∈ held := by
  induction l generalizing s with
  | nil => simp
  | cons held l ih => simp [ih, and_assoc]

@[simp] theorem isSome_joinAll {l : List HeldSet} :
    (s.joinAll l).isSome = (s.isSome || !l.isEmpty) := by
  induction l generalizing s with
  | nil => simp
  | cons held l ih => simp [ih]

/-- A lock that is lost where two points flow together is lost at one of them. -/
theorem exists_of_join {held : HeldSet} (h : s.join t = some held) (p : LockPath) :
    ∃ a, (s = some a ∨ t = some a) ∧ (p ∈ a → p ∈ held) := by
  cases s with
  | none => exact ⟨held, .inr h, id⟩
  | some a =>
    cases t with
    | none =>
      obtain rfl := Option.some.inj h
      exact ⟨a, .inl rfl, id⟩
    | some b =>
      obtain rfl := Option.some.inj h
      by_cases ha : p ∈ a
      · exact ⟨b, .inr rfl, fun hb => OrderedSet.mem_inter.2 ⟨ha, hb⟩⟩
      · exact ⟨a, .inl rfl, fun hp => absurd hp ha⟩

theorem exists_of_joinAll {l : List HeldSet} {held : HeldSet} (h : s.joinAll l = some held)
    (p : LockPath) : ∃ a, (s = some a ∨ a ∈ l) ∧ (p ∈ a → p ∈ held) := by
  induction l generalizing s with
  | nil => exact ⟨held, .inl h, id⟩
  | cons b l ih =>
    obtain ⟨a, ha | ha, hp⟩ := ih h
    · obtain ⟨a', ha', hp'⟩ := exists_of_join ha p
      rcases ha' with ha' | ha'
      · exact ⟨a', .inl ha', fun h => hp (hp' h)⟩
      · obtain rfl := Option.some.inj ha'
        exact ⟨b, .inr (List.mem_cons_self ..), fun h => hp (hp' h)⟩
    · exact ⟨a, .inr (List.mem_cons_of_mem b ha), hp⟩

end FlowState

namespace Trace

variable {a b c : Trace} {p : LockPath} {held : HeldSet}

/-- Whether no change of locks on the way left the lock at `p` free. -/
def Keeps (a : Trace) (p : LockPath) : Prop := a.kept.Holds p

@[simp] theorem keeps_append : (a ++ b).Keeps p ↔ a.Keeps p ∧ b.Keeps p := FlowState.holds_join

@[simp] theorem keeps_empty : Keeps {} p ↔ True := Iff.rfl

@[simp] theorem keeps_silent : a.silent.Keeps p ↔ a.Keeps p := Iff.rfl

@[simp] theorem keeps_ofAccess {x : Access} : (ofAccess x held).Keeps p ↔ True := Iff.rfl

@[simp] theorem accesses_append : (a ++ b).accesses = a.accesses ++ b.accesses := rfl

@[simp] theorem accesses_silent : a.silent.accesses = [] := rfl

@[simp] theorem empty_append : ({} : Trace) ++ a = a := rfl

@[simp] theorem append_empty : a ++ ({} : Trace) = a := by
  change Trace.mk (a.kept.join none) (a.accesses ++ []) = a
  rw [FlowState.join_none, List.append_nil]

theorem append_assoc : (a ++ b) ++ c = a ++ (b ++ c) := by
  change Trace.mk ((a.kept.join b.kept).join c.kept) ((a.accesses ++ b.accesses) ++ c.accesses) =
    Trace.mk (a.kept.join (b.kept.join c.kept)) (a.accesses ++ (b.accesses ++ c.accesses))
  rw [FlowState.join_assoc, List.append_assoc]

theorem keeps_foldl_append {l : List Trace} {a : Trace} :
    (l.foldl (· ++ ·) a).Keeps p ↔ a.Keeps p ∧ ∀ b ∈ l, b.Keeps p := by
  induction l generalizing a with
  | nil => simp
  | cons b l ih => simp [ih, and_assoc]

/-- Passes and replays that are silent add no access. -/
theorem accesses_foldl_silent {α : Type} {l : List α} {f : α → Trace} :
    ((l.map fun x => (f x).silent).foldl (· ++ ·) a).accesses = a.accesses := by
  induction l generalizing a with
  | nil => rfl
  | cons x l ih => exact ih.trans (List.append_nil a.accesses)

theorem accesses_foldr_silent {α : Type} {l : List α} {f : α → Trace} :
    (l.foldr (fun x t => (f x).silent ++ t) a).accesses = a.accesses := by
  induction l with
  | nil => rfl
  | cons x l ih => exact ih

@[simp] theorem mem_floor : p ∈ a.floor held ↔ p ∈ held ∧ a.Keeps p := by
  unfold floor Keeps
  cases a.kept <;> simp

end Trace

end LockDiscipline
