import LockDiscipline.Guard.UnitCheck
import LockDiscipline.Proofs.Held.Grounded

/-! What holds of the accesses of a walk and of the locks held at them, whatever path was taken: if
the parts of a statement report only such accesses and hold only such locks, the statement does. -/

namespace LockDiscipline

section Within

variable (A : Access → Prop) (L : LockPath → Prop)

/-- Whether all locks of the set are such that `L`. -/
def HeldSet.Within (held : HeldSet) : Prop := ∀ p ∈ held, L p

/-- Whether all accesses of the trace are such that `A`, and all locks held there such that `L`. -/
def Trace.Within (tr : Trace) : Prop := ∀ a ∈ tr.accesses, A a.1 ∧ HeldSet.Within L a.2

structure Evaluated.Within (e : Evaluated) : Prop where
  held : HeldSet.Within L e.held
  trace : e.trace.Within A L

structure Outcome.Within (o : Outcome) : Prop where
  exit : ∀ held ∈ o.exit, HeldSet.Within L held
  breaks : ∀ held ∈ o.breaks, HeldSet.Within L held
  continues : ∀ held ∈ o.continues, HeldSet.Within L held
  trace : o.trace.Within A L

structure LoopPass.Within (p : LoopPass) : Prop where
  exit : ∀ held ∈ p.exit, HeldSet.Within L held
  trace : p.trace.Within A L

end Within

variable {A : Access → Prop} {L : LockPath → Prop}

namespace HeldSet

variable {held held' : HeldSet} {p : LockPath}

theorem Within.of_subset (h : held.Within L) (hsub : held' ⊆ held) : held'.Within L :=
  fun p hp => h p (hsub p hp)

theorem Within.inter (h : held.Within L) : HeldSet.Within L (held.inter held') :=
  fun p hp => h p (OrderedSet.mem_inter.1 hp).1

theorem Within.erase (h : held.Within L) : HeldSet.Within L (held.erase p) :=
  fun q hq => h q (OrderedSet.mem_erase.1 hq).1

theorem Within.invalidate (h : held.Within L) : (held.invalidate p).Within L :=
  fun q hq => h q (mem_invalidate.1 hq).1

theorem Within.insert (h : held.Within L) (hp : L p) : HeldSet.Within L (held.insert p) := by
  intro q hq
  rcases OrderedSet.mem_insert.1 hq with rfl | hq
  · exact hp
  · exact h q hq

end HeldSet

namespace FlowState

variable {s s' : FlowState}

theorem within_join (h : ∀ held ∈ s, HeldSet.Within L held)
    (h' : ∀ held ∈ s', HeldSet.Within L held) : ∀ held ∈ s.join s', HeldSet.Within L held := by
  cases s with
  | none => exact h'
  | some held =>
    cases s' with
    | none => exact h
    | some held' =>
      intro _ hheld
      cases hheld
      exact (h held rfl).inter

theorem within_joinAll {l : List HeldSet} (h : ∀ held ∈ s, HeldSet.Within L held)
    (h' : ∀ held ∈ l, HeldSet.Within L held) : ∀ held ∈ s.joinAll l, HeldSet.Within L held := by
  induction l generalizing s with
  | nil => exact h
  | cons held l ih =>
    refine ih (within_join h fun _ hheld => ?_) fun held hheld => h' held (.tail _ hheld)
    cases hheld
    exact h' held (.head _)

end FlowState

namespace Trace

variable {a b : Trace}

theorem within_empty : Within A L {} := nofun

theorem Within.append (ha : a.Within A L) (hb : b.Within A L) : (a ++ b).Within A L := by
  intro x hx
  rcases List.mem_append.1 hx with hx | hx
  · exact ha x hx
  · exact hb x hx

theorem within_silent : a.silent.Within A L := nofun

theorem within_ofAccess {access : Access} {held : HeldSet} (ha : A access)
    (hheld : held.Within L) : (ofAccess access held).Within A L := by
  intro x hx
  cases List.mem_singleton.1 hx
  exact ⟨ha, hheld⟩

theorem within_floor (a : Trace) {held : HeldSet} (h : held.Within L) : (a.floor held).Within L :=
  h.of_subset fun _ hp => (mem_floor.1 hp).1

end Trace

namespace Evaluated

variable {held : HeldSet} {before : Trace} {e : Evaluated} {place : LockPath}

theorem within_unchanged (h : held.Within L) : (unchanged held).Within A L :=
  ⟨h, Trace.within_empty⟩

theorem Within.after (h : e.Within A L) (hb : before.Within A L) : (e.after before).Within A L :=
  ⟨h.held, hb.append h.trace⟩

theorem within_rebind (place : LockPath) (h : held.Within L) : (rebind place held).Within A L := by
  constructor
  · rw [held_rebind]
    exact h.invalidate
  · intro x hx
    rw [accesses_rebind] at hx
    cases hx

theorem within_applyEffect {effect : LockEffect} (h : held.Within L)
    (hplace : effect = .acquire → L place) : (applyEffect effect place held).Within A L := by
  refine ⟨?_, nofun⟩
  cases effect with
  | acquire => exact h.insert (hplace rfl)
  | release => exact h.erase

end Evaluated

namespace Outcome

variable {o first second : Outcome} {before : Trace} {σ : BodyScope} {held : HeldSet}

theorem within_done (h : held.Within L) : (done σ held).Within A L where
  exit _ hheld := by
    cases hheld
    exact h
  breaks := nofun
  continues := nofun
  trace := Trace.within_empty

theorem within_ofEvaluated {e : Evaluated} (h : e.Within A L) : (ofEvaluated σ e).Within A L where
  exit _ hheld := by
    cases hheld
    exact h.held
  breaks := nofun
  continues := nofun
  trace := h.trace

theorem Within.after (h : o.Within A L) (hb : before.Within A L) : (o.after before).Within A L :=
  { h with trace := hb.append h.trace }

theorem Within.leaveBlock (h : o.Within A L) : o.leaveBlock.Within A L := { h with }

theorem within_append {l l' : List HeldSet} (h : ∀ held ∈ l, HeldSet.Within L held)
    (h' : ∀ held ∈ l', HeldSet.Within L held) : ∀ held ∈ l ++ l', HeldSet.Within L held := by
  intro held hheld
  rcases List.mem_append.1 hheld with hheld | hheld
  · exact h held hheld
  · exact h' held hheld

theorem Within.andThen (h : first.Within A L) (h' : second.Within A L) :
    (first.andThen second).Within A L where
  exit := h'.exit
  breaks := within_append h.breaks h'.breaks
  continues := within_append h.continues h'.continues
  trace := h.trace.append h'.trace

theorem Within.orElse (h : first.Within A L) (h' : second.Within A L) :
    (first.orElse second).Within A L :=
  { h.andThen h' with exit := FlowState.within_join h.exit h'.exit }

theorem Within.releasing (h : o.Within A L) (p : LockPath) : (o.releasing p).Within A L := by
  have herase {l : List HeldSet} (hl : ∀ held ∈ l, HeldSet.Within L held) :
      ∀ held ∈ l.map (·.erase p), HeldSet.Within L held := by
    intro _ hheld
    obtain ⟨held, hmem, rfl⟩ := List.mem_map.1 hheld
    exact (hl held hmem).erase
  refine ⟨fun _ hheld => ?_, herase h.breaks, herase h.continues, h.trace⟩
  obtain ⟨held, hexit, rfl⟩ := Option.map_eq_some_iff.1 hheld
  exact (h.exit held hexit).erase

theorem Within.waysOut (h : o.Within A L) : ∀ held ∈ o.waysOut, HeldSet.Within L held :=
  within_append (within_append h.breaks h.continues)
    fun held hheld => h.exit held (Option.mem_toList.1 hheld)

theorem Within.finalizerEntry (h : o.Within A L) (hheld : held.Within L) :
    HeldSet.Within L (o.exit.elim (o.trace.floor held) (·.inter (o.trace.floor held))) := by
  cases hexit : o.exit with
  | none => exact Trace.within_floor _ hheld
  | some s => exact (h.exit s hexit).inter

theorem Within.finalizing {finalizer : HeldSet → Outcome} (h : o.Within A L)
    (hheld : held.Within L)
    (hfinalizer : ∀ held, HeldSet.Within L held → (finalizer held).Within A L) :
    (o.finalizing finalizer held).Within A L := by
  have hjumps {l : List HeldSet} (hl : ∀ held ∈ l, HeldSet.Within L held) :
      ∀ held ∈ l.filterMap fun s => (finalizer s).exit, HeldSet.Within L held := by
    intro held' hheld'
    obtain ⟨s, hs, hexit⟩ := List.mem_filterMap.1 hheld'
    exact (hfinalizer s (hl s hs)).exit held' hexit
  have hreplays : Trace.Within A L
      ((o.waysOut.map fun s => (finalizer s).trace.silent).foldl (· ++ ·) ({} : Trace)) := by
    rw [Trace.Within, Trace.accesses_foldl_silent]
    exact Trace.within_empty
  unfold Outcome.finalizing
  simp only [FunctionTable.get_eq]
  refine ⟨fun held' hexit => ?_, hjumps h.breaks, hjumps h.continues,
    h.trace.append ((hfinalizer held hheld).trace.append hreplays)⟩
  obtain ⟨s, hs, hexit⟩ := Option.bind_eq_some_iff.1 hexit
  exact (hfinalizer s (h.exit s hs)).exit held' hexit

end Outcome

namespace LoopPass

theorem within_exitFirst {endless : Bool} {start : Evaluated} {body : Outcome}
    (hs : start.Within A L) (hb : body.Within A L) :
    (exitFirst endless start body).Within A L := by
  refine ⟨FlowState.within_joinAll (fun held hheld => ?_) hb.breaks, hs.trace.append hb.trace⟩
  cases endless with
  | true => cases hheld
  | false =>
    cases hheld
    exact hs.held

theorem within_evalLast {exit : FlowState → FlowState} {body : Outcome} {tail : HeldSet → Evaluated}
    (hb : body.Within A L) (ht : ∀ held, HeldSet.Within L held → (tail held).Within A L)
    (hexit : ∀ s : FlowState, (∀ held ∈ s, HeldSet.Within L held) →
      ∀ held ∈ exit s, HeldSet.Within L held) :
    (evalLast exit body tail).Within A L := by
  have hback := FlowState.within_joinAll hb.exit hb.continues
  unfold evalLast
  cases hs : FlowState.joinAll body.exit body.continues with
  | none =>
    exact ⟨FlowState.within_joinAll (hexit none nofun) hb.breaks,
      hb.trace.append Trace.within_empty⟩
  | some s =>
    have htail := ht s (hback s hs)
    refine ⟨FlowState.within_joinAll (hexit _ fun held hheld => ?_) hb.breaks,
      hb.trace.append htail.trace⟩
    cases hheld
    exact htail.held

/-- What holds of each pass of a loop holds of the loop. -/
theorem within_run {pass : Locals → HeldSet → LoopPass}
    (hpass : ∀ l head, HeldSet.Within L head → (pass l head).Within A L) {l : Locals}
    {head : HeldSet} (h : head.Within L) : (run pass l head).Within A L := by
  induction hn : head.size using Nat.strongRecOn generalizing l head with
  | ind n ih =>
    have hnext : ((pass l head).nextHead head).Within L := by
      unfold nextHead
      split
      · exact h.inter
      · exact h
    rw [run]
    split
    · have hlast : (if (pass l head).locals = l then pass l head
          else pass (pass l head).locals head).Within A L := by
        split
        · exact hpass l head h
        · exact hpass _ head h
      exact ⟨hlast.exit, nofun, nofun, Trace.within_silent.append hlast.trace⟩
    · next hs =>
      subst hn
      have hrest := ih _ (size_nextHead_lt hs) hnext rfl (l := (pass l head).locals)
      exact { hrest with trace := Trace.within_silent.append hrest.trace }

end LoopPass

end LockDiscipline
