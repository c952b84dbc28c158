import LockDiscipline.Proofs.Held.Flow

/-! A lock that is held at the start of a flow, and that no change of locks on the way takes away,
is held on every way out. So what a handler starts from lies below every state in its `try`. -/

namespace LockDiscipline

namespace Evaluated

variable {held : HeldSet} {place p : LockPath}

private theorem reachedThrough_of_not_any
    (h : ¬ held.toList.any (·.reachedThrough place) = true) (hp : p ∈ held) :
    p.reachedThrough place = false := by
  cases hr : p.reachedThrough place with
  | false => rfl
  | true => exact absurd (List.any_eq_true.2 ⟨p, hp, hr⟩) h

/-- Where nothing is reached through the place, dropping what is reached through it does nothing. -/
theorem held_rebind : (rebind place held).held = held.invalidate place := by
  unfold rebind
  split
  · rfl
  · next h =>
    apply OrderedSet.ext
    intro p
    rw [HeldSet.mem_invalidate]
    exact ⟨fun hp => ⟨hp, reachedThrough_of_not_any h hp⟩, And.left⟩

theorem keeps_rebind (hp : p ∈ held) :
    (rebind place held).trace.Keeps p ↔ p ∈ held.invalidate place := by
  unfold rebind
  split
  · exact Iff.rfl
  · next h =>
    rw [HeldSet.mem_invalidate]
    exact ⟨fun _ => ⟨hp, reachedThrough_of_not_any h hp⟩, fun _ => trivial⟩

theorem accesses_rebind : (rebind place held).trace.accesses = [] := by
  unfold rebind
  split <;> rfl

end Evaluated

namespace Exits

variable {o : Exits} {body : HeldSet → Exits} {head : HeldSet} {p : LockPath}

/-- Whether the lock at `p` is held on every way out. -/
def Holds (o : Exits) (p : LockPath) : Prop :=
  o.exit.Holds p ∧ ∀ j, ∀ s ∈ o.jumps j, p ∈ s

theorem mem_jumps_leave {j k : Jump} {held s : HeldSet} :
    s ∈ (leave (.jump j) held).jumps k ↔ k = j ∧ s = held := by
  by_cases hkj : k = j
  · simp [leave, hkj]
  · simp [leave, hkj]

theorem mem_jumps_landing {j k : Jump} {s : HeldSet} :
    s ∈ (o.landing j).jumps k ↔ k ≠ j ∧ s ∈ o.jumps k := by
  by_cases hkj : k = j
  · simp [landing, hkj]
  · simp [landing, hkj]

theorem mem_waysOut {s : HeldSet} : s ∈ o.waysOut ↔ (∃ j, s ∈ o.jumps j) ∨ o.exit = some s := by
  simp only [waysOut, List.mem_append, Option.mem_toList]
  constructor
  · rintro ((hs | hs) | hs)
    · exact .inl ⟨.breakOut, hs⟩
    · exact .inl ⟨.continueLoop, hs⟩
    · exact .inr hs
  · rintro (⟨j, hs⟩ | hs)
    · cases j with
      | breakOut => exact .inl (.inl hs)
      | continueLoop => exact .inl (.inr hs)
    · exact .inr hs

theorem Holds.waysOut (h : o.Holds p) : ∀ s ∈ o.waysOut, p ∈ s := by
  intro s hs
  rcases mem_waysOut.1 hs with ⟨j, hs⟩ | hs
  · exact h.2 j s hs
  · have hx := h.1
    rw [hs] at hx
    exact hx

theorem keeps_replays {finalizer : HeldSet → Exits} :
    (o.replays finalizer).Keeps p ↔ ∀ s ∈ o.waysOut, (finalizer s).trace.Keeps p := by
  simp [replays, Trace.keeps_foldl_append]

/-- What a finalizer accesses is reported once, from its entry. -/
theorem accesses_replays {finalizer : HeldSet → Exits} : (o.replays finalizer).accesses = [] :=
  Trace.accesses_foldl_silent

theorem mem_finalizerEntry {held : HeldSet} :
    p ∈ o.finalizerEntry held ↔ o.exit.Holds p ∧ p ∈ held ∧ o.trace.Keeps p := by
  unfold finalizerEntry
  cases o.exit with
  | none => simp
  | some s => simp

theorem mem_nextHead : p ∈ nextHead body head ↔ p ∈ head ∧ (body head).exit.Holds p := by
  unfold nextHead
  cases (body head).exit with
  | none => simp
  | some s => simp

/-- What holds of a head, and goes on to hold as the head loses locks, holds of the stable head. -/
theorem stableHead_induction {P : HeldSet → Prop} (hstep : ∀ h, P h → P (nextHead body h))
    (hhead : P head) : P (stableHead body head) := by
  induction hn : head.size using Nat.strongRecOn generalizing head with
  | ind n ih =>
    rw [stableHead]
    split
    · exact hhead
    · next hs =>
      subst hn
      exact ih _ (size_nextHead hs) (hstep head hhead) rfl

theorem nextHead_stableHead (body : HeldSet → Exits) (head : HeldSet) :
    nextHead body (stableHead body head) = stableHead body head := by
  induction hn : head.size using Nat.strongRecOn generalizing head with
  | ind n ih =>
    rw [stableHead]
    split
    · next hs => exact hs
    · next hs =>
      subst hn
      exact ih _ (size_nextHead hs) _ rfl

theorem stableHead_subset (body : HeldSet → Exits) (head : HeldSet) :
    stableHead body head ⊆ head := by
  refine stableHead_induction (P := (· ⊆ head)) (fun h hh p hp => ?_) (OrderedSet.Subset.refl head)
  exact hh p (mem_nextHead.1 hp).1

/-- Coming back to a stable head, a pass holds all that the head does. -/
theorem holds_exit_stableHead (hp : p ∈ stableHead body head) :
    (body (stableHead body head)).exit.Holds p := by
  rw [← nextHead_stableHead] at hp
  exact (mem_nextHead.1 hp).2

theorem stableHead_stableHead : stableHead body (stableHead body head) = stableHead body head := by
  rw [stableHead, dif_pos (nextHead_stableHead body head)]

theorem passes_stableHead :
    passes body (stableHead body head) = (body (stableHead body head)).trace.silent := by
  rw [passes, dif_pos (nextHead_stableHead body head)]

/-- No pass that finds the stable head makes a report. -/
theorem accesses_passes (body : HeldSet → Exits) (head : HeldSet) :
    (passes body head).accesses = [] := by
  induction hn : head.size using Nat.strongRecOn generalizing head with
  | ind n ih =>
    rw [passes]
    split
    · rfl
    · next hs =>
      subst hn
      rw [Trace.accesses_append, ih _ (size_nextHead hs) _ rfl]
      rfl

/-- The passes keep a lock that each of them keeps. -/
theorem keeps_passes {P : HeldSet → Prop} (hkept : ∀ s, P s → (body s).trace.Keeps p)
    (hstep : ∀ s, P s → P (nextHead body s)) (hhead : P head) : (passes body head).Keeps p := by
  induction hn : head.size using Nat.strongRecOn generalizing head with
  | ind n ih =>
    rw [passes]
    split
    · exact hkept head hhead
    · next hs =>
      subst hn
      exact Trace.keeps_append.2 ⟨hkept head hhead, ih _ (size_nextHead hs) (hstep head hhead) rfl⟩

/-- A lock that every pass brings back to the head, if it keeps it, stays in the stable head. -/
theorem mem_stableHead (hback : ∀ h, p ∈ h → (body h).trace.Keeps p → (body h).exit.Holds p)
    (hp : p ∈ head) (hk : (passes body head).Keeps p) : p ∈ stableHead body head := by
  induction hn : head.size using Nat.strongRecOn generalizing head with
  | ind n ih =>
    rw [passes] at hk
    rw [stableHead]
    split
    · exact hp
    · next hs =>
      rw [dif_neg hs] at hk
      obtain ⟨hfirst, hrest⟩ := Trace.keeps_append.1 hk
      subst hn
      exact ih _ (size_nextHead hs) (mem_nextHead.2 ⟨hp, hback head hp hfirst⟩) hrest rfl

end Exits

namespace Flow

/-- What is held at the start and kept on the way is held on every way out. -/
theorem walk_holds (f : Flow) {held : HeldSet} {p : LockPath} (hp : p ∈ held)
    (hk : (f.walk held).trace.Keeps p) : (f.walk held).Holds p := by
  induction f generalizing held with
  | access a => exact ⟨hp, fun _ _ hs => by cases hs⟩
  | change effect path => exact ⟨hk, fun _ _ hs => by cases hs⟩
  | rebind place =>
    refine ⟨?_, fun _ _ hs => by cases hs⟩
    have hx := (Evaluated.keeps_rebind hp).1 hk
    rw [← Evaluated.held_rebind] at hx
    exact hx
  | leave e =>
    cases e with
    | done => exact ⟨hp, fun _ _ hs => by cases hs⟩
    | jump j =>
      refine ⟨trivial, fun k s hs => ?_⟩
      obtain ⟨_, rfl⟩ := Exits.mem_jumps_leave.1 hs
      exact hp
    | returned => exact ⟨trivial, fun _ _ hs => by cases hs⟩
    | raised => exact ⟨trivial, fun _ _ hs => by cases hs⟩
  | never => exact ⟨trivial, fun _ _ hs => by cases hs⟩
  | seq f g ihf ihg =>
    simp only [walk, Exits.andThen] at hk ⊢
    cases he : (f.walk held).exit with
    | none =>
      rw [he] at hk
      exact ihf hp hk
    | some next =>
      rw [he] at hk
      obtain ⟨hkf, hkg⟩ := Trace.keeps_append.1 hk
      obtain ⟨hxf, hjf⟩ := ihf hp hkf
      rw [he] at hxf
      obtain ⟨hxg, hjg⟩ := ihg hxf hkg
      refine ⟨hxg, fun j s hs => ?_⟩
      rcases List.mem_append.1 hs with hs | hs
      · exact hjf j s hs
      · exact hjg j s hs
  | either f g ihf ihg =>
    obtain ⟨hkf, hkg⟩ := Trace.keeps_append.1 hk
    obtain ⟨hxf, hjf⟩ := ihf hp hkf
    obtain ⟨hxg, hjg⟩ := ihg hp hkg
    refine ⟨FlowState.holds_join.2 ⟨hxf, hxg⟩, fun j s hs => ?_⟩
    rcases List.mem_append.1 hs with hs | hs
    · exact hjf j s hs
    · exact hjg j s hs
  | forever f ih =>
    obtain ⟨hkp, hkl⟩ := Trace.keeps_append.1 hk
    have hs := Exits.mem_stableHead (fun h hp hk => (ih hp hk).1) hp hkp
    exact ⟨trivial, (ih hs hkl).2⟩
  | landing j f ih =>
    obtain ⟨hx, hj⟩ := ih hp hk
    refine ⟨FlowState.holds_joinAll.2 ⟨hx, hj j⟩, fun k s hs => ?_⟩
    exact hj k s (Exits.mem_jumps_landing.1 hs).2
  | catching f g ihf ihg =>
    obtain ⟨hkf, hkg⟩ := Trace.keeps_append.1 hk
    obtain ⟨hxf, hjf⟩ := ihf hp hkf
    obtain ⟨hxg, hjg⟩ := ihg (Trace.mem_floor.2 ⟨hp, hkf⟩) hkg
    refine ⟨FlowState.holds_join.2 ⟨hxf, hxg⟩, fun j s hs => ?_⟩
    rcases List.mem_append.1 hs with hs | hs
    · exact hjf j s hs
    · exact hjg j s hs
  | finalized f g ihf ihg =>
    obtain ⟨hkf, hkg⟩ := Trace.keeps_append.1 hk
    have hf := ihf hp hkf
    have hrun : ∀ s ∈ (f.walk held).waysOut, (g.walk s).Holds p := fun s hs =>
      ihg (hf.waysOut s hs) (Exits.keeps_replays.1 (Trace.keeps_append.1 hkg).2 s hs)
    constructor
    · simp only [walk, Exits.finalizing]
      cases he : (f.walk held).exit with
      | none => trivial
      | some s => exact (hrun s (Exits.mem_waysOut.2 (.inr he))).1
    · intro j d hd
      simp only [walk, Exits.finalizing, List.mem_filterMap] at hd
      obtain ⟨s, hs, hd⟩ := hd
      have hx := (hrun s (Exits.mem_waysOut.2 (.inl ⟨j, hs⟩))).1
      rw [hd] at hx
      exact hx
  | locked path f ih =>
    simp only [walk] at hk ⊢
    split at hk
    · next hin =>
      rw [if_pos hin]
      exact ih hp hk
    · next hout =>
      rw [if_neg hout]
      have hne : p ≠ path := fun he => hout (he ▸ hp)
      obtain ⟨hx, hj⟩ := ih (OrderedSet.mem_insert.2 (.inr hp)) hk
      constructor
      · simp only [Exits.releasing]
        cases he : (f.walk (held.insert path)).exit with
        | none => trivial
        | some s =>
          rw [he] at hx
          exact OrderedSet.mem_erase.2 ⟨hx, hne⟩
      · intro j d hd
        simp only [Exits.releasing, List.mem_map] at hd
        obtain ⟨s, hs, rfl⟩ := hd
        exact OrderedSet.mem_erase.2 ⟨hj j s hs, hne⟩

end Flow

end LockDiscipline
