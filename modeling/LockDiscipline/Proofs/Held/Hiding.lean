import LockDiscipline.Proofs.Held.Bindings
import LockDiscipline.Proofs.Held.BodyWalk

/-! Flows in which a variable is bound, seen from around them. The scope of a variable begins without
locks at its name, so it keeps none of those that the variable it hides was holding; what matters is
what it leaves at the name. -/

namespace LockDiscipline

variable {T : LockPath → LockPath → Prop} {A : Access × HeldSet → Access × HeldSet → Prop}

/-- `β.Tracks left visible p q`: the lock at `p` is reached through a variable among `visible`, whose
binding makes it `q`, and it is not among `left`. -/
structure Bindings.Tracks (β : Bindings) (left : List LockPath) (visible : String → Prop)
    (p q : LockPath) : Prop where
  bound : p.boundBy β = some q
  visible : ∀ name, p.root = .var name → visible name
  notLeft : p ∉ left

/-- The same for all variables. -/
abbrev Bindings.TracksAll (β : Bindings) (left : List LockPath) : LockPath → LockPath → Prop :=
  β.Tracks left fun _ => True

namespace Bindings.Tracks

variable {β : Bindings} {left : List LockPath} {visible visible' : String → Prop} {p q : LockPath}
  {name : String}

theorem mono (h : β.Tracks left visible p q) (hvisible : ∀ name, visible name → visible' name) :
    β.Tracks left visible' p q :=
  ⟨h.bound, fun name hroot => hvisible name (h.visible name hroot), h.notLeft⟩

theorem all (h : β.Tracks left visible p q) : β.TracksAll left p q :=
  h.mono fun _ _ => trivial

theorem eq_iff {path path' : LockPath} (hbound : path.boundBy β = some path')
    (h : β.Tracks left visible p q) : p = path ↔ q = path' := by
  constructor
  · rintro rfl
    exact Option.some.inj (h.bound.symm.trans hbound)
  · rintro rfl
    exact LockPath.boundBy_inj h.bound hbound

theorem ne {path : LockPath} (hbound : path.boundBy β = none) (h : β.Tracks left visible p q) :
    p ≠ path := by
  rintro rfl
  cases h.bound.symm.trans hbound

theorem others (h : β.Tracks left visible p q) (hname : p.root ≠ .var name) :
    β.Tracks left (· ≠ name) p q :=
  ⟨h.bound, fun _ hroot he => hname (he ▸ hroot), h.notLeft⟩

theorem root_ne (h : β.Tracks left (· ≠ name) p q) : p.root ≠ .var name :=
  fun hroot => h.visible name hroot rfl

/-- A new binding says nothing of the locks of other variables. -/
theorem cons_iff (k : Nat) (hname : p.root ≠ .var name) :
    Bindings.Tracks ((name, k) :: β) left visible p q ↔ β.Tracks left visible p q := by
  have hbound := LockPath.boundBy_cons (β := β) k hname
  exact ⟨fun h => ⟨hbound ▸ h.bound, h.visible, h.notLeft⟩,
    fun h => ⟨hbound.trans h.bound, h.visible, h.notLeft⟩⟩

end Bindings.Tracks

/-- Whether the second of two accesses is the first one with the bindings visible at it, and each lock
that is held at the first through one of these is held through it at the second, unless it is among
`left`. -/
def SeenAlike (left : List LockPath) (v v' : Access × HeldSet) : Prop :=
  ∃ β : Bindings, v'.1 = v.1.seenBy β ∧
    ∀ p ∈ v.2, ∀ q, p.boundBy β = some q → q ∈ v'.2 ∨ p ∈ left

namespace Flow

variable {β : Bindings} {left : List LockPath} {name : String} {k : Nat} {visible : String → Prop}

theorem trackedBy_lockedAt {f f' : Flow} (path : LockPath)
    (hf : f.TrackedBy (β.TracksAll left) (β.TracksAll left) A f') :
    (locked path f).TrackedBy (β.TracksAll left) (β.TracksAll left) A
      (lockedAt f' (path.boundBy β)) := by
  cases hbound : path.boundBy β with
  | some path' => exact hf.locked fun _ _ => Bindings.Tracks.eq_iff hbound
  | none => exact hf.locked_left fun _ _ => Bindings.Tracks.ne hbound

/-- A flow is tracked, with the bindings visible throughout, by what it does to variables' locks. -/
theorem trackedBy_boundBy (β : Bindings) (left : List LockPath) (f : Flow) :
    f.TrackedBy (β.TracksAll left) (β.TracksAll left) (SeenAlike left)
      (f.boundBy β) := by
  induction f with
  | access x =>
    refine trackedBy_access fun a b hab => ⟨β, rfl, fun p hp q hq => ?_⟩
    by_cases hleft : p ∈ left
    · exact .inr hleft
    · exact .inl (hab p q ⟨hq, fun _ _ => trivial, hleft⟩ hp)
  | change effect path =>
    rw [boundBy]
    cases hbound : path.boundBy β with
    | some path' => exact trackedBy_change fun _ _ => Bindings.Tracks.eq_iff hbound
    | none => exact change_trackedBy_nothing fun _ _ => Bindings.Tracks.ne hbound
  | rebind place =>
    rw [boundBy]
    cases hbound : place.boundBy β with
    | some place' =>
      refine trackedBy_rebind (fun _ _ hpq _ => hpq) fun p q hpq hr => ?_
      rw [LockPath.reachedThrough_boundBy hpq.bound hbound]
      exact hr
    | none => exact rebind_trackedBy_nothing
  | leave e => exact trackedBy_leave e
  | never => exact trackedBy_never
  | seq f g ihf ihg => exact ihf.then ihg
  | either f g ihf ihg => exact ihf.either ihg
  | forever f ih => exact ih.forever
  | landing j f ih => exact ih.landing j
  | catching f g ihf ihg => exact ihf.catching ihg
  | finalized f g ihf ihg => exact ihf.finalized ihg
  | locked path f ih => exact trackedBy_lockedAt path ih

/-- The locks that are reached through `name` where the variable is left, whatever was held when it
was bound. -/
private theorem mem_leftAt {f : Flow} {a s : HeldSet} {p : LockPath}
    (hs : s ∈ ((seq (rebind (.var name)) f).walk a).waysOut) (hp : p ∈ s)
    (hroot : p.root = .var name) : p ∈ f.leftAt name := by
  -- At the name the flow starts without locks, as it does if it is entered with none at all.
  let T (p q : LockPath) : Prop := p = q ∧ p.root = .var name
  have hempty : HeldSet.TrackedBy T (a.invalidate (.var name)) ∅ := by
    rintro p q ⟨-, hroot⟩ hp
    obtain ⟨-, hr⟩ := HeldSet.mem_invalidate.1 hp
    exact absurd hroot (LockPath.not_reachedThrough_var.1 hr)
  have hf := trackedBy_self (T := T) (A := fun _ _ => True) (fun _ _ => And.left)
    (fun _ _ _ _ => trivial) f _ _ hempty
  rw [walk, walk, Exits.ofEvaluated_andThen, Evaluated.held_rebind] at hs
  obtain ⟨s', hs', hsub⟩ := exists_mem_right_of_forall₂ hf.waysOut hs
  exact List.mem_flatMap.2 ⟨s', hs', List.mem_filter.2 ⟨hsub p p ⟨rfl, hroot⟩ hp, by simp [hroot]⟩⟩

/-- The locks reached through a variable are dropped when its name is bound again. -/
private theorem not_keeps_rebind {f : Flow} {a : HeldSet} {p : LockPath} (hp : p ∈ a)
    (hroot : p.root = .var name) : ¬ ((seq (rebind (.var name)) f).walk a).trace.Keeps p := by
  intro hk
  rw [walk, walk, Exits.ofEvaluated_andThen] at hk
  have hk := (Evaluated.keeps_rebind hp).1 (Trace.keeps_append.1 hk).1
  obtain ⟨-, hr⟩ := HeldSet.mem_invalidate.1 hk
  exact absurd hroot (LockPath.not_reachedThrough_var.1 hr)

variable {f f' : Flow}

/-- What is tracked in the scope of a variable is tracked from outside of it, but for the locks of
the variable that it hides. -/
private theorem trackedBy_hiding
    (hf : f.TrackedBy (Bindings.TracksAll ((name, k) :: β) left)
      (Bindings.Tracks ((name, k) :: β) left visible) A f') :
    (seq (rebind (.var name)) f).TrackedBy (β.Tracks left (· ≠ name))
      (Bindings.Tracks ((name, k) :: β) left visible) A (seq (rebind (.binding k name)) f') := by
  refine TrackedBy.seq (trackedBy_rebind (fun p q hpq hr => ?_) fun p q hpq hr => ?_) hf
    (fun p q hpq => ?_) fun p q hpq => hpq.all
  · have hroot := LockPath.not_reachedThrough_var.1 hr
    exact ((Bindings.Tracks.cons_iff k hroot).1 hpq).others hroot
  · exact LockPath.not_reachedThrough_binding k hpq.bound hpq.root_ne
  · exact ((Bindings.Tracks.cons_iff k hpq.root_ne).2 hpq).all

/-- From outside, a part that keeps no lock at `name` and leaves none tracks those as well. -/
private theorem TrackedBy.of_hiding
    (hf : f.TrackedBy (β.Tracks left (· ≠ name)) T A f')
    (hkept : ∀ a p, p ∈ a → p.root = .var name → ¬ (f.walk a).trace.Keeps p)
    (hout : ∀ p q, β.Tracks left visible p q → p.root ≠ .var name → T p q)
    (hleft : ∀ a, ∀ s ∈ (f.walk a).waysOut, ∀ p ∈ s, p.root = .var name → visible name → p ∈ left) :
    f.TrackedBy (β.TracksAll left) (β.Tracks left visible) A f' := by
  refine (hf.of_unkept (fun p q hpq => hpq.all) fun p q hpq => ?_).imp
    fun a s hs s' hss p q hpq hp => hss p q (hout p q hpq fun hroot => ?_) hp
  · by_cases hroot : p.root = .var name
    · exact .inr fun a hp => hkept a p hp hroot
    · exact .inl (hpq.others hroot)
  · exact hpq.notLeft (hleft a s hs p hp hroot (hpq.visible name hroot))

/-- The scope of a variable, up to the end of its block: if it hides a variable that is visible
around the block, the locks that it leaves at the name are among `left`. -/
theorem trackedBy_scope
    (hf : f.TrackedBy (Bindings.TracksAll ((name, k) :: β) left)
      (Bindings.Tracks ((name, k) :: β) left visible) A f')
    (hleft : visible name → f.leftAt name ⊆ left) :
    (seq (rebind (.var name)) f).TrackedBy (β.TracksAll left) (β.Tracks left visible) A
      (seq (rebind (.binding k name)) f') :=
  (trackedBy_hiding hf).of_hiding (fun _ _ hp hroot => not_keeps_rebind hp hroot)
    (fun _ _ hpq hroot => (Bindings.Tracks.cons_iff k hroot).2 hpq)
    fun _ _ hs _ hp hroot hvisible => hleft hvisible (mem_leftAt hs hp hroot)

theorem trackedBy_loopExit (endless : Bool) :
    (WalkContext.loopExit endless).TrackedBy T T A (WalkContext.loopExit endless) := by
  cases endless with
  | true => exact trackedBy_leave .done
  | false => exact (trackedBy_leave _).either (trackedBy_leave .done)

/-- A round of a loop over elements, which binds its variable first. -/
abbrev elementRound (place : LockPath) (f : Flow) : Flow :=
  seq (rebind place) (.seq (WalkContext.loopExit false) (.landing .continueLoop f))

private theorem jumps_elementRound (h : HeldSet) (j : Jump) :
    ((elementRound (.var name) f).walk h).jumps j =
      WalkContext.endsAt false (h.invalidate (.var name)) j ++
        ((f.walk (h.invalidate (.var name))).landing .continueLoop).jumps j := by
  have hround : (elementRound (.var name) f).walk h =
      (((WalkContext.loopExit false).walk (h.invalidate (.var name))).andThen
        (Flow.landing .continueLoop f).walk).after (Evaluated.rebind (.var name) h).trace := by
    rw [walk, walk, Exits.ofEvaluated_andThen, Evaluated.held_rebind]
    rfl
  rw [hround, WalkContext.loopExit_andThen]
  rfl

/-- Such a loop may end right after the name is bound, so it ends without locks at the name. -/
private theorem not_mem_elementLoop {a s : HeldSet} {p : LockPath}
    (hs : s ∈ ((landing .breakOut (forever (elementRound (.var name) f))).walk a).waysOut)
    (hp : p ∈ s) : p.root ≠ .var name := by
  let head := Exits.stableHead (elementRound (.var name) f).walk a
  rcases Exits.mem_waysOut.1 hs with ⟨j, hs⟩ | hs
  · obtain ⟨hj, hs⟩ := Exits.mem_jumps_landing.1 hs
    have hs : s ∈ ((elementRound (.var name) f).walk head).jumps j := hs
    rw [jumps_elementRound] at hs
    cases j with
    | breakOut => exact absurd rfl hj
    | continueLoop => simp [WalkContext.endsAt, Exits.landing] at hs
  · have hall : FlowState.Holds (some s) p := hp
    rw [← hs] at hall
    have hmem : head.invalidate (.var name) ∈
        ((elementRound (.var name) f).walk head).jumps .breakOut := by
      rw [jumps_elementRound]
      exact List.mem_append_left _ (List.mem_singleton.2 rfl)
    have hp := (FlowState.holds_joinAll.1 hall).2 _ hmem
    exact LockPath.not_reachedThrough_var.1 (HeldSet.mem_invalidate.1 hp).2

/-- What the passes of a loop keep, the first one keeps. -/
private theorem keeps_of_passes {body : HeldSet → Exits} {head : HeldSet} {p : LockPath}
    (h : (Exits.passes body head).Keeps p) : (body head).trace.Keeps p := by
  rw [Exits.passes] at h
  split at h
  · exact h
  · exact (Trace.keeps_append.1 h).1

/-- A loop over elements hides what its variable's name meant, and leaves nothing behind at it. -/
theorem trackedBy_elementLoop
    (hf : f.TrackedBy (Bindings.TracksAll ((name, k) :: β) left)
      (Bindings.TracksAll ((name, k) :: β) left) A f') :
    (landing .breakOut (forever (elementRound (.var name) f))).TrackedBy
      (β.TracksAll left) (β.TracksAll left) A
      (landing .breakOut (forever (elementRound (.binding k name) f'))) := by
  -- At the head of the loop nothing is known of the name, so a round comes back to where it began.
  have hround := trackedBy_hiding ((trackedBy_loopExit false).then (hf.landing .continueLoop))
  have hround := hround.mono (V := β.Tracks left (· ≠ name)) fun p q hpq =>
    ((Bindings.Tracks.cons_iff k hpq.root_ne).2 hpq).all
  refine (hround.forever.landing .breakOut).of_hiding (fun a p hp hroot hk => ?_)
    (fun p q hpq hroot => hpq.others hroot) fun a s hs p hp hroot _ => ?_
  · exact not_keeps_rebind hp hroot (keeps_of_passes (Trace.keeps_append.1 hk).1)
  · exact absurd hroot (not_mem_elementLoop hs hp)

end Flow

end LockDiscipline
