import LockDiscipline.Lock.Path
import LockDiscipline.Ordered.Set

/-!
The locks held at a point of a body, and how points that flow together combine: a lock is held
where paths meet if it is held on each of them.
-/

namespace LockDiscipline

/-- Locks known to be held. -/
abbrev HeldSet := OrderedSet LockPath

namespace HeldSet

/-- Drops every lock reached through `place`, which from now on names another object. -/
def invalidate (held : HeldSet) (place : LockPath) : HeldSet :=
  held.filter fun p => !p.reachedThrough place

theorem mem_invalidate {held : HeldSet} {place p : LockPath} :
    p ∈ held.invalidate place ↔ p ∈ held ∧ p.reachedThrough place = false := by
  simp [invalidate]

end HeldSet

/-- The locks held at a point, or `none` where no path arrives. -/
abbrev FlowState := Option HeldSet

namespace FlowState

/-- Where two points flow together; a point that no path reaches contributes nothing. -/
def join : FlowState → FlowState → FlowState
  | some s, some t => some (s.inter t)
  | some s, none => some s
  | none, t => t

/-- Where a point and further reached points flow together. -/
def joinAll (state : FlowState) (others : List HeldSet) : FlowState :=
  others.foldl (fun acc s => acc.join (some s)) state

end FlowState

end LockDiscipline
