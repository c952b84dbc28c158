import LockDiscipline.Proofs.Held.Points

/-! A lock that is held at all accesses and on all ways out of some parts, and what is made of these:
one after the other, one of two, a block with its finalizer, a pass through a loop. -/

namespace LockDiscipline

open List (forall_mem_nil forall_mem_singleton forall_mem_append forall_mem_cons)

variable {p : LockPath}

/-- Whether the lock at `p` is held at all accesses. -/
def Trace.Carries (a : Trace) (p : LockPath) : Prop := ∀ v ∈ a.accesses, p ∈ v.2

/-- Whether the lock at `p` is held at all accesses and at the end. -/
structure Evaluated.Carries (e : Evaluated) (p : LockPath) : Prop where
  held : p ∈ e.held
  trace : e.trace.Carries p

/-- Whether the lock at `p` is held at all accesses and on all ways out. -/
structure Outcome.Carries (o : Outcome) (p : LockPath) : Prop where
  exit : o.exit.Holds p
  breaks : ∀ s ∈ o.breaks, p ∈ s
  continues : ∀ s ∈ o.continues, p ∈ s
  trace : o.trace.Carries p

theorem FlowState.forall_mem_toList {s : FlowState} : (∀ t ∈ s.toList, p ∈ t) ↔ s.Holds p := by
  cases s with
  | none => exact ⟨fun _ => trivial, fun _ => forall_mem_nil _⟩
  | some t => exact forall_mem_singleton

theorem FlowState.Holds.elim_inter {s : FlowState} {t : HeldSet} (h : s.Holds p) (ht : p ∈ t) :
    p ∈ s.elim t (·.inter t) := by
  cases s with
  | none => exact ht
  | some s => exact OrderedSet.mem_inter.2 ⟨h, ht⟩

namespace Trace

variable {a b : Trace}

theorem carries_empty : Carries {} p := forall_mem_nil _

theorem carries_silent : a.silent.Carries p := forall_mem_nil _

theorem Carries.append (ha : a.Carries p) (hb : b.Carries p) : (a ++ b).Carries p :=
  forall_mem_append.2 ⟨ha, hb⟩

/-- What a finalizer does again for each way out adds no access. -/
theorem carries_replays {finalizer : HeldSet → Outcome} {l : List HeldSet} :
    ((l.map fun s => (finalizer s).trace.silent).foldl (· ++ ·) ({} : Trace)).Carries p := by
  rw [Carries, accesses_foldl_silent]
  exact carries_empty

theorem carries_ofAccess {x : Access} {held : HeldSet} (hp : p ∈ held) :
    (ofAccess x held).Carries p :=
  forall_mem_singleton.2 hp

end Trace

namespace Evaluated

variable {e : Evaluated} {held : HeldSet}

theorem carries_unchanged (hp : p ∈ held) : (unchanged held).Carries p := ⟨hp, forall_mem_nil _⟩

theorem Carries.after {before : Trace} (h : e.Carries p) (hb : before.Carries p) :
    (e.after before).Carries p :=
  ⟨h.held, hb.append h.trace⟩

end Evaluated

namespace Outcome

variable {o first second : Outcome} {σ : BodyScope} {held : HeldSet}

theorem carries_ofEvaluated {e : Evaluated} : (ofEvaluated σ e).Carries p ↔ e.Carries p :=
  ⟨fun h => ⟨h.exit, h.trace⟩, fun h => ⟨h.held, forall_mem_nil _, forall_mem_nil _, h.trace⟩⟩

theorem carries_done (hp : p ∈ held) : (done σ held).Carries p :=
  ⟨hp, forall_mem_nil _, forall_mem_nil _, forall_mem_nil _⟩

theorem carries_unreached {l : Locals} : (unreached l).Carries p :=
  ⟨trivial, forall_mem_nil _, forall_mem_nil _, forall_mem_nil _⟩

theorem Carries.leaveBlock (h : o.Carries p) : o.leaveBlock.Carries p := { h with }

theorem Carries.after {before : Trace} (h : o.Carries p) (hb : before.Carries p) :
    (o.after before).Carries p :=
  { h with trace := hb.append h.trace }

theorem Carries.andThen (h : first.Carries p) (h' : second.Carries p) :
    (first.andThen second).Carries p where
  exit := h'.exit
  breaks := forall_mem_append.2 ⟨h.breaks, h'.breaks⟩
  continues := forall_mem_append.2 ⟨h.continues, h'.continues⟩
  trace := h.trace.append h'.trace

theorem Carries.orElse (h : first.Carries p) (h' : second.Carries p) :
    (first.orElse second).Carries p :=
  { h.andThen h' with exit := FlowState.holds_join.2 ⟨h.exit, h'.exit⟩ }

theorem Carries.releasing {path : LockPath} (h : o.Carries p) (hne : p ≠ path) :
    (o.releasing path).Carries p := by
  have herase {l : List HeldSet} (hl : ∀ s ∈ l, p ∈ s) : ∀ s ∈ l.map (·.erase path), p ∈ s := by
    intro _ hd
    obtain ⟨s, hs, rfl⟩ := List.mem_map.1 hd
    exact OrderedSet.mem_erase.2 ⟨hl s hs, hne⟩
  refine ⟨?_, herase h.breaks, herase h.continues, h.trace⟩
  have hexit := h.exit
  unfold Outcome.releasing
  cases hs : o.exit with
  | none => trivial
  | some s =>
    rw [hs] at hexit
    exact OrderedSet.mem_erase.2 ⟨hexit, hne⟩

theorem Carries.waysOut (h : o.Carries p) : ∀ s ∈ o.waysOut, p ∈ s :=
  forall_mem_append.2 ⟨forall_mem_append.2 ⟨h.breaks, h.continues⟩, FlowState.forall_mem_toList.2 h.exit⟩

/-- A finalizer carries on what is carried to its start and to each way out. -/
theorem Carries.finalizing {finalizer : HeldSet → Outcome} (h : o.Carries p)
    (hfinalizer : ∀ s ∈ held :: o.waysOut, (finalizer s).Carries p) :
    (o.finalizing finalizer held).Carries p := by
  obtain ⟨hstart, hways⟩ := forall_mem_cons.1 hfinalizer
  have hjumps {l : List HeldSet} (hl : ∀ s ∈ l, s ∈ o.waysOut) :
      ∀ s ∈ l.filterMap fun s => (finalizer s).exit, p ∈ s := by
    intro d hd
    obtain ⟨s, hs, hexit⟩ := List.mem_filterMap.1 hd
    exact (hways s (hl s hs)).exit.mem hexit
  unfold Outcome.finalizing
  simp only [FunctionTable.get_eq]
  constructor
  · cases hexit : o.exit with
    | none => trivial
    | some s => exact (hways s (by simp [Outcome.waysOut, hexit])).exit
  · exact hjumps fun s hs => by simp [Outcome.waysOut, hs]
  · exact hjumps fun s hs => by simp [Outcome.waysOut, hs]
  · exact h.trace.append (hstart.trace.append Trace.carries_replays)

end Outcome

namespace LoopPass

variable {body : Outcome}

theorem carries_exitFirst {endless : Bool} {start : Evaluated} (hs : start.Carries p)
    (hb : body.Carries p) : (exitFirst endless start body).outcome.Carries p where
  exit := by
    refine FlowState.holds_joinAll.2 ⟨?_, hb.breaks⟩
    cases endless with
    | true => exact trivial
    | false => exact hs.held
  breaks := forall_mem_nil _
  continues := FlowState.forall_mem_toList.2 (FlowState.holds_joinAll.2 ⟨hb.exit, hb.continues⟩)
  trace := hs.trace.append hb.trace

theorem carries_evalLast {exit : FlowState → FlowState} {tail : HeldSet → Evaluated}
    (hb : body.Carries p)
    (ht : ∀ s, body.exit.joinAll body.continues = some s → p ∈ s → (tail s).Carries p)
    (hexit : ∀ s : FlowState, s.Holds p → (exit s).Holds p) :
    (evalLast exit body tail).outcome.Carries p := by
  have hback := FlowState.holds_joinAll.2 ⟨hb.exit, hb.continues⟩
  unfold evalLast outcome
  cases hs : FlowState.joinAll body.exit body.continues with
  | none =>
    exact ⟨FlowState.holds_joinAll.2 ⟨hexit none trivial, hb.breaks⟩, forall_mem_nil _,
      forall_mem_nil _, hb.trace.append Trace.carries_empty⟩
  | some s =>
    have htail := ht s hs (hback.mem hs)
    exact ⟨FlowState.holds_joinAll.2 ⟨hexit _ htail.held, hb.breaks⟩, forall_mem_nil _,
      forall_mem_singleton.2 htail.held, hb.trace.append htail.trace⟩

theorem carries_nextHead {q : LoopPass} {head : HeldSet} (hp : p ∈ head)
    (hq : q.outcome.Carries p) : p ∈ q.nextHead head :=
  mem_nextHead.2 ⟨hp, FlowState.forall_mem_toList.1 hq.continues⟩

end LoopPass

end LockDiscipline
