import LockDiscipline.Proofs.Held.BodyWalk
import LockDiscipline.Proofs.Held.Simulation

/-! Two walks of one body, entered with different locks. They may take different ways into a `lock`
and go round a loop a different number of times, and yet the one with more locks at the start has
more at each access and at the end. -/

namespace LockDiscipline

/-- Whether two points are reached alike, the second with at least the locks of the first. -/
abbrev FlowState.Below (s t : FlowState) : Prop := Option.Rel (· ⊆ ·) s t

theorem FlowState.Holds.mono {s t : FlowState} {p : LockPath} (h : s.Holds p) (hst : s.Below t) :
    t.Holds p := by
  cases hst with
  | none => exact h
  | some hsub => exact hsub p h

namespace Exits

/-- Whether two walks make the same accesses and leave in the same ways, the second with at least the
locks of the first throughout; of the locks `held` it changes none that the first keeps. -/
structure Below (held : HeldSet) (o o' : Exits) : Prop where
  exit : o.exit.Below o'.exit
  jumps : ∀ j, List.Forall₂ (· ⊆ ·) (o.jumps j) (o'.jumps j)
  accesses : List.Forall₂ (fun v v' => v.1 = v'.1 ∧ v.2 ⊆ v'.2) o.trace.accesses o'.trace.accesses
  kept : ∀ p ∈ held, o.trace.Keeps p → o'.trace.Keeps p

/-- Tracked by equality, a walk has at least the locks of the other. -/
private theorem TrackedBy.below {held : HeldSet} {o o' : Exits}
    (h : o.TrackedBy Eq Eq (fun v v' => v.1 = v'.1 ∧ v.2 ⊆ v'.2) held o') : o.Below held o' where
  exit := by
    have hx := h.exit
    rwa [FlowState.TrackedBy, HeldSet.trackedBy_eq] at hx
  jumps j := by
    have hj := h.jumps j
    rwa [HeldSet.trackedBy_eq] at hj
  accesses := h.accesses
  kept p := h.kept p p rfl

end Exits

/-- A walk with more locks at the start has more throughout. -/
theorem Flow.walk_below (f : Flow) (a b : HeldSet) (h : a ⊆ b) :
    (f.walk a).Below a (f.walk b) := by
  have hself := trackedBy_self (T := Eq) (A := fun v v' => v.1 = v'.1 ∧ v.2 ⊆ v'.2) (fun _ _ => id)
    (fun _ _ _ hab => ⟨rfl, HeldSet.trackedBy_eq_iff.1 hab⟩) f
  exact (hself a b (HeldSet.trackedBy_eq_iff.2 h)).below

namespace TypeTable

variable (t : TypeTable) (owner : String) (m : MethodDecl)

/-- With more locks held an access is reported as before or not at all. -/
theorem violation?_of_subset (access : Access) {held held' : HeldSet} (h : held ⊆ held') :
    t.violation? owner m access held' = none ∨
      t.violation? owner m access held' = t.violation? owner m access held := by
  unfold violation?
  cases hg : t.guarded? access.member with
  | none => exact .inl rfl
  | some guarded =>
    by_cases hnew : access.isOnNewObject m = true
    · simp [hnew]
    · cases hr : guarded.required.path.instantiate access.receiver access.args with
      | none => simp [hnew, hr]
      | some required =>
        by_cases hheld' : required ∈ held'
        · simp [hnew, hr, hheld']
        · have hheld : required ∉ held := fun hin => hheld' (h required hin)
          simp [hnew, hr, hheld, hheld']

private theorem violations_sublist {l l' : List (Access × HeldSet)}
    (h : List.Forall₂ (fun v v' => v.1 = v'.1 ∧ v.2 ⊆ v'.2) l l') :
    (l'.filterMap fun v => t.violation? owner m v.1 v.2).Sublist
      (l.filterMap fun v => t.violation? owner m v.1 v.2) := by
  induction h with
  | nil => exact .slnil
  | @cons v v' _ _ hv _ ih =>
    obtain ⟨haccess, hsub⟩ := hv
    rw [List.filterMap_cons, List.filterMap_cons, ← haccess]
    rcases t.violation?_of_subset owner m v.1 hsub with hnone | hsame
    · rw [hnone]
      cases t.violation? owner m v.1 v.2 with
      | none => exact ih
      | some finding => exact ih.cons finding
    · rw [hsame]
      cases t.violation? owner m v.1 v.2 with
      | none => exact ih
      | some finding => exact ih.cons_cons finding

end TypeTable

namespace WalkContext

/-- With more locks at the start, the walk of a body makes the same accesses with more locks at each,
comes to the end with more or not at all alike, and gives no finding that it does not give with
fewer. -/
theorem walk_monotone (w : WalkContext) {σ : BodyScope} {body : List Stmt} {a b : HeldSet}
    (hsub : a ⊆ b) (hbody : Stmt.allLoopsClosed body = true) :
    List.Forall₂ (fun v v' => v.1 = v'.1 ∧ v.2 ⊆ v'.2)
      (w.walk σ body a).trace.accesses (w.walk σ body b).trace.accesses ∧
    Option.Rel (· ⊆ ·) (w.walk σ body a).exit (w.walk σ body b).exit ∧
    ∀ (t : TypeTable) (owner : String) (m : MethodDecl),
      ((w.walk σ body b).trace.accesses.filterMap fun v => t.violation? owner m v.1 v.2).Sublist
        ((w.walk σ body a).trace.accesses.filterMap fun v => t.violation? owner m v.1 v.2) := by
  have hbelow := (w.bodyFlow σ body).walk_below a b hsub
  rw [← w.walk_bodyFlow a hbody, ← w.walk_bodyFlow b hbody] at hbelow
  exact ⟨hbelow.accesses, hbelow.exit, fun t owner m => t.violations_sublist owner m hbelow.accesses⟩

theorem walk_monotone_lockBlock : Option.Rel (· ⊆ ·)
    (Counter.context.walk Counter.scope Counter.lockBlock ∅).exit
    (Counter.context.walk Counter.scope Counter.lockBlock (.insert ∅ Counter.lock)).exit :=
  (Counter.context.walk_monotone (fun _ h => absurd h OrderedSet.not_mem_empty) (by decide)).2.1

end WalkContext

end LockDiscipline
