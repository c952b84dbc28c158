import LockDiscipline.Proofs.Held.BodyWalk
import LockDiscipline.Proofs.Held.Grounded
import LockDiscipline.Proofs.Held.Path
import Mathlib.Data.List.Permutation

/-! A walk covers every execution that starts with at least its locks: what the execution accesses
the walk reports, with no lock that the execution lacks, and where the execution ends the walk knows
of no lock that it lost. -/

namespace LockDiscipline

/-- A point is reached with at most the locks `d`. -/
theorem FlowState.exists_subset_iff {s : FlowState} {d : HeldSet} :
    (∃ held, s = some held ∧ held ⊆ d) ↔ s.isSome ∧ ∀ p, s.Holds p → p ∈ d := by
  cases s with
  | none => simp
  | some held => simp [OrderedSet.subset_def]

namespace Exits

/-- Whether a way out that ends with `e` is left with at most the locks `d`. Nothing is known of
where a `return` or an exception goes. -/
def Ends (o : Exits) (d : HeldSet) : Ending → Prop
  | .done => ∃ s, o.exit = some s ∧ s ⊆ d
  | .jump j => ∃ s ∈ o.jumps j, s ⊆ d
  | .returned | .raised => True

/-- Whether `l` has each access of `t`, with no lock that `t` lacks at it. -/
def Reports (l t : List (Access × HeldSet)) : Prop := ∀ v ∈ t, ∃ s, (v.1, s) ∈ l ∧ s ⊆ v.2

/-- `o`, entered with `held`, covers an execution with the accesses `t` that ends in the way `e` with
the locks `d`. -/
structure Covers (held : HeldSet) (o : Exits) (t : List (Access × HeldSet)) (e : Ending)
    (d : HeldSet) : Prop where
  visits : Reports o.trace.accesses t
  kept : ∀ p ∈ held, o.trace.Keeps p → p ∈ d
  ends : o.Ends d e

variable {held b d : HeldSet} {o o' : Exits} {t u : List (Access × HeldSet)} {e : Ending}

/-- Covering survives more accesses and more changes of locks, if the way out does. -/
private theorem Covers.weaken (h : Covers held o t e d)
    (hacc : ∀ v ∈ o.trace.accesses, v ∈ o'.trace.accesses)
    (hkept : ∀ p, o'.trace.Keeps p → o.trace.Keeps p) (hends : o.Ends d e → o'.Ends d e) :
    Covers held o' t e d where
  visits v hv := by
    obtain ⟨s, hs, hsub⟩ := h.visits v hv
    exact ⟨s, hacc _ hs, hsub⟩
  kept p hp hk := h.kept p hp (hkept p hk)
  ends := hends h.ends

private theorem ends_andThen_left {k : HeldSet → Exits} (he : e ≠ .done) (h : o.Ends d e) :
    (o.andThen k).Ends d e := by
  unfold andThen
  cases o.exit with
  | none => exact h
  | some s =>
    cases e with
    | done => exact absurd rfl he
    | jump j =>
      obtain ⟨s, hs, hsub⟩ := h
      exact ⟨s, List.mem_append_left _ hs, hsub⟩
    | returned => trivial
    | raised => trivial

private theorem Covers.andThen_left {k : HeldSet → Exits} (he : e ≠ .done)
    (h : Covers held o t e d) : Covers held (o.andThen k) t e d := by
  refine h.weaken (fun v hv => ?_) (fun p hp => ?_) (ends_andThen_left he)
  · unfold andThen
    cases o.exit with
    | none => exact hv
    | some s => exact List.mem_append_left _ hv
  · unfold andThen at hp
    cases hx : o.exit with
    | none =>
      rw [hx] at hp
      exact hp
    | some s =>
      rw [hx] at hp
      exact (Trace.keeps_append.1 hp).1

private theorem ends_orElse (h : o.Ends d e ∨ o'.Ends d e) : (o.orElse o').Ends d e := by
  cases e with
  | done =>
    refine FlowState.exists_subset_iff.2 ?_
    simp only [Ends, FlowState.exists_subset_iff] at h
    simp only [orElse, FlowState.isSome_join, FlowState.holds_join, Bool.or_eq_true]
    rcases h with ⟨hr, hp⟩ | ⟨hr, hp⟩
    · exact ⟨.inl hr, fun p hh => hp p hh.1⟩
    · exact ⟨.inr hr, fun p hh => hp p hh.2⟩
  | jump j =>
    rcases h with ⟨s, hs, hsub⟩ | ⟨s, hs, hsub⟩
    · exact ⟨s, List.mem_append_left _ hs, hsub⟩
    · exact ⟨s, List.mem_append_right _ hs, hsub⟩
  | returned => trivial
  | raised => trivial

private theorem Covers.orElse_left (h : Covers held o t e d) : Covers held (o.orElse o') t e d :=
  h.weaken (fun _ hv => List.mem_append_left _ hv) (fun _ hp => (Trace.keeps_append.1 hp).1)
    (fun he => ends_orElse (.inl he))

private theorem Covers.orElse_right (h : Covers held o' t e d) : Covers held (o.orElse o') t e d :=
  h.weaken (fun _ hv => List.mem_append_right _ hv) (fun _ hp => (Trace.keeps_append.1 hp).2)
    (fun he => ends_orElse (.inr he))

private theorem Reports.append {l : List (Access × HeldSet)} (ht : Reports l t)
    (hu : Reports l u) : Reports l (t ++ u) := by
  intro v hv
  rcases List.mem_append.1 hv with hv | hv
  · exact ht v hv
  · exact hu v hv

private theorem Reports.left {l l' : List (Access × HeldSet)} (h : Reports l t) :
    Reports (l ++ l') t := by
  intro v hv
  obtain ⟨s, hs, hsub⟩ := h v hv
  exact ⟨s, List.mem_append_left _ hs, hsub⟩

private theorem Reports.right {l l' : List (Access × HeldSet)} (h : Reports l' t) :
    Reports (l ++ l') t := by
  intro v hv
  obtain ⟨s, hs, hsub⟩ := h v hv
  exact ⟨s, List.mem_append_right _ hs, hsub⟩

/-- A jump that lands, and an end that was reached anyway, reach the end. -/
private theorem ends_landing {j : Jump} (h : o.Ends d .done ∨ o.Ends d (.jump j)) :
    (o.landing j).Ends d .done := by
  refine FlowState.exists_subset_iff.2 ?_
  simp only [landing, FlowState.isSome_joinAll, FlowState.holds_joinAll, Bool.or_eq_true,
    Bool.not_eq_true', List.isEmpty_eq_false_iff_exists_mem]
  rcases h with h | ⟨s, hs, hsub⟩
  · obtain ⟨hr, hp⟩ := FlowState.exists_subset_iff.1 h
    exact ⟨.inl hr, fun p hh => hp p hh.1⟩
  · exact ⟨.inr ⟨s, hs⟩, fun p hh => hsub p (hh.2 s hs)⟩

private theorem Covers.landing {j : Jump} (hne : e ≠ .jump j) (h : Covers held o t e d) :
    Covers held (o.landing j) t e d := by
  refine h.weaken (fun _ hv => hv) (fun _ hp => hp) (fun he => ?_)
  cases e with
  | done => exact ends_landing (.inl he)
  | jump k =>
    have hkj : k ≠ j := fun hkj => hne (congrArg Ending.jump hkj)
    obtain ⟨s, hs, hsub⟩ := he
    exact ⟨s, mem_jumps_landing.2 ⟨hkj, hs⟩, hsub⟩
  | returned => trivial
  | raised => trivial

/-- The lock that was taken for the body is lost with it. -/
private theorem Covers.releasing {path : LockPath} (hout : path ∉ held) (hd : b.erase path ⊆ d)
    (h : Covers (held.insert path) o t e b) : Covers held (o.releasing path) t e d where
  visits := h.visits
  kept p hp hk := by
    have hne : p ≠ path := fun he => hout (he ▸ hp)
    have hb := h.kept p (OrderedSet.mem_insert.2 (.inr hp)) hk
    exact hd p (OrderedSet.mem_erase.2 ⟨hb, hne⟩)
  ends := by
    have he := h.ends
    cases e with
    | done =>
      obtain ⟨s, hs, hsub⟩ := he
      refine ⟨s.erase path, ?_, OrderedSet.Subset.trans (OrderedSet.erase_mono hsub path) hd⟩
      simp only [Exits.releasing, hs, Option.map_some]
    | jump j =>
      obtain ⟨s, hs, hsub⟩ := he
      exact ⟨s.erase path, List.mem_map_of_mem hs, OrderedSet.Subset.trans (OrderedSet.erase_mono hsub path) hd⟩
    | returned => trivial
    | raised => trivial

/-- Entering a loop at its stable head changes nothing of how it is left. -/
private theorem Covers.of_stableHead {body : HeldSet → Exits} (hground : ∀ s p, p ∈ s →
    (body s).trace.Keeps p → (body s).exit.Holds p)
    (h : Covers (stableHead body held) (forever body (stableHead body held)) t e d) :
    Covers held (forever body held) t e d := by
  constructor
  · intro v hv
    obtain ⟨s, hs, hsub⟩ := h.visits v hv
    simp only [forever, Trace.accesses_append, accesses_passes, stableHead_stableHead] at hs ⊢
    exact ⟨s, hs, hsub⟩
  · intro p hp hk
    obtain ⟨hkp, hkl⟩ := Trace.keeps_append.1 hk
    refine h.kept p (mem_stableHead (fun s hs hks => hground s p hs hks) hp hkp) ?_
    rw [forever, stableHead_stableHead, passes_stableHead]
    exact Trace.keeps_append.2 ⟨hkl, hkl⟩
  · have he := h.ends
    rw [forever, stableHead_stableHead] at he
    exact he

/-- What the pass from a stable head covers, the loop does. -/
private theorem Covers.of_last {body : HeldSet → Exits} (hs : stableHead body held = held)
    (hne : e ≠ .done) (h : Covers held (body held) t e d) : Covers held (forever body held) t e d := by
  constructor
  · intro v hv
    obtain ⟨s, hv, hsub⟩ := h.visits v hv
    refine ⟨s, ?_, hsub⟩
    rw [forever, hs]
    exact List.mem_append_right _ hv
  · intro p hp hk
    rw [forever, hs] at hk
    exact h.kept p hp (Trace.keeps_append.1 hk).2
  · have he := h.ends
    rw [forever, hs]
    cases e with
    | done => exact absurd rfl hne
    | jump j => exact he
    | returned => trivial
    | raised => trivial

end Exits

namespace Flow

variable {f g : Flow} {held c b d : HeldSet} {t u : List (Access × HeldSet)} {e : Ending}

open Exits

private theorem covers_seq (hf : Covers held (f.walk held) t .done b)
    (hg : ∀ s, s ⊆ b → Covers s (g.walk s) u e d) :
    Covers held ((seq f g).walk held) (t ++ u) e d := by
  obtain ⟨s, hx, hsub⟩ := hf.ends
  have hg := hg s hsub
  simp only [walk, Exits.andThen, hx]
  constructor
  · exact hf.visits.left.append hg.visits.right
  · intro p hp hk
    obtain ⟨hkf, hkg⟩ := Trace.keeps_append.1 hk
    have hs := (walk_holds f hp hkf).1
    rw [hx] at hs
    exact hg.kept p hs hkg
  · have he := hg.ends
    cases e with
    | done => exact he
    | jump j =>
      obtain ⟨s', hs, hsub⟩ := he
      exact ⟨s', List.mem_append_right _ hs, hsub⟩
    | returned => trivial
    | raised => trivial

private theorem covers_again (hf : ∀ s, s ⊆ c → Covers s (f.walk s) t .done b)
    (hr : ∀ s, s ⊆ b → Covers s ((forever f).walk s) u e d) (h : held ⊆ c) :
    Covers held ((forever f).walk held) (t ++ u) e d := by
  refine Covers.of_stableHead (fun s p hp hk => (walk_holds f hp hk).1) ?_
  have hf := hf (stableHead f.walk held) (OrderedSet.Subset.trans (stableHead_subset _ _) h)
  obtain ⟨s, hx, hsub⟩ := hf.ends
  -- What comes back to the stable head has all of it, so the next round may start from it again.
  have hhead : stableHead f.walk held ⊆ b := by
    intro p hp
    have hs := holds_exit_stableHead hp
    rw [hx] at hs
    exact hsub p hs
  have hr := hr (stableHead f.walk held) hhead
  rw [walk] at hr
  have hvisits :
      Reports (Exits.forever f.walk (stableHead f.walk held)).trace.accesses t := by
    rw [Exits.forever, stableHead_stableHead]
    exact hf.visits.right
  exact ⟨hvisits.append hr.visits, hr.kept, hr.ends⟩

private theorem covers_caught (hf : Covers held (f.walk held) t .raised b)
    (hg : ∀ s, s ⊆ b → Covers s (g.walk s) u e d) :
    Covers held ((catching f g).walk held) (t ++ u) e d := by
  have hsub : (f.walk held).trace.floor held ⊆ b := by
    intro p hp
    obtain ⟨hh, hk⟩ := Trace.mem_floor.1 hp
    exact hf.kept p hh hk
  have hg := hg _ hsub
  rw [walk]
  refine ⟨hf.visits.left.append hg.visits.right, fun p hp hk => ?_, ?_⟩
  · obtain ⟨hkf, hkg⟩ := Trace.keeps_append.1 hk
    exact hg.kept p (Trace.mem_floor.2 ⟨hp, hkf⟩) hkg
  · exact ends_orElse (.inr hg.ends)

/-- Whatever way an execution takes into a finalizer, the finalizer's accesses and changes of locks
are those of the walk from the finalizer's entry; `hends` says where it goes on. -/
private theorem covers_finalized {e' : Ending} (hf : Covers held (f.walk held) t e b)
    (hg : ∀ s, s ⊆ b → Covers s (g.walk s) u e' d) {e'' : Ending}
    (hends : ((finalized f g).walk held).Ends d e'') :
    Covers held ((finalized f g).walk held) (t ++ u) e'' d := by
  have hsub : (f.walk held).finalizerEntry held ⊆ b := by
    intro p hp
    obtain ⟨_, hh, hk⟩ := mem_finalizerEntry.1 hp
    exact hf.kept p hh hk
  have hentry := hg _ hsub
  refine ⟨hf.visits.left.append hentry.visits.left.right, fun p hp hk => ?_, hends⟩
  obtain ⟨hkf, hkg⟩ := Trace.keeps_append.1 hk
  have hin := mem_finalizerEntry.2 ⟨(walk_holds f hp hkf).1, hp, hkf⟩
  exact hentry.kept p hin (Trace.keeps_append.1 hkg).1

/-- A finalizer that is left by its end goes on with the way out that led to it. -/
private theorem ends_finalized (hf : (f.walk held).Ends b e)
    (hg : ∀ s, s ⊆ b → (g.walk s).Ends d .done) : ((finalized f g).walk held).Ends d e := by
  cases e with
  | done =>
    obtain ⟨s, hx, hsub⟩ := hf
    obtain ⟨s', hx', hsub'⟩ := hg s hsub
    refine ⟨s', ?_, hsub'⟩
    simp only [walk, finalizing, hx, Option.bind_some, hx']
  | jump j =>
    obtain ⟨s, hs, hsub⟩ := hf
    obtain ⟨s', hx', hsub'⟩ := hg s hsub
    exact ⟨s', List.mem_filterMap.2 ⟨s, hs, hx'⟩, hsub'⟩
  | returned => trivial
  | raised => trivial

/-- Without jumps out of `finally` blocks, a walk from `held` covers every execution that starts with
at least these locks. -/
theorem Path.covers (hp : Path false f c t e d) : ∀ held, held ⊆ c →
    Covers held (f.walk held) t e d := by
  induction hp with
  | raiseFirst =>
    intro held h
    exact ⟨fun v hv => (by cases hv), fun p hp _ => h p hp, trivial⟩
  | raiseLast _ ih =>
    intro held h
    exact ⟨(ih held h).visits, (ih held h).kept, trivial⟩
  | @access a c =>
    intro held h
    refine ⟨fun v hv => ?_, fun p hp _ => h p hp, ⟨held, rfl, h⟩⟩
    rw [List.mem_singleton] at hv
    exact ⟨held, by rw [hv]; exact List.mem_singleton_self _, by rw [hv]; exact h⟩
  | @change effect path c =>
    intro held h
    have hsub := LockEffect.apply_mono effect path h
    exact ⟨fun v hv => (by cases hv), fun p _ hk => hsub p hk, ⟨_, rfl, hsub⟩⟩
  | @rebind place c =>
    intro held h
    have hsub := HeldSet.invalidate_mono place h
    refine ⟨fun v hv => (by cases hv), fun p hp hk => hsub p ((Evaluated.keeps_rebind hp).1 hk), ?_⟩
    exact ⟨_, rfl, by rw [Evaluated.held_rebind]; exact hsub⟩
  | @leave e c =>
    intro held h
    refine ⟨fun v hv => (by cases hv), fun p hp _ => h p hp, ?_⟩
    cases e with
    | done => exact ⟨held, rfl, h⟩
    | jump j => exact ⟨held, mem_jumps_leave.2 ⟨rfl, rfl⟩, h⟩
    | returned => trivial
    | raised => trivial
  | seq _ _ ihf ihg =>
    intro held h
    exact covers_seq (ihf held h) ihg
  | seqLeft _ hne ih =>
    intro held h
    exact (ih held h).andThen_left hne
  | left _ ih =>
    intro held h
    exact (ih held h).orElse_left
  | right _ ih =>
    intro held h
    exact (ih held h).orElse_right
  | again _ _ ihf ihr =>
    intro held h
    exact covers_again ihf ihr h
  | @foreverLeft f _ _ _ _ _ hne ih =>
    intro held h
    refine Covers.of_stableHead (fun s p hp hk => (walk_holds f hp hk).1) ?_
    have hhead := OrderedSet.Subset.trans (stableHead_subset f.walk held) h
    exact (ih _ hhead).of_last stableHead_stableHead hne
  | lands _ ih =>
    intro held h
    have ih := ih held h
    exact ⟨ih.visits, ih.kept, ends_landing (.inr ih.ends)⟩
  | passesBy _ hne ih =>
    intro held h
    exact (ih held h).landing hne
  | uncaught _ ih =>
    intro held h
    exact (ih held h).orElse_left
  | caught _ _ ihf ihg =>
    intro held h
    exact covers_caught (ihf held h) ihg
  | finalized _ _ ihf ihg =>
    intro held h
    have hf := ihf held h
    exact covers_finalized hf ihg (ends_finalized hf.ends fun s hs => (ihg s hs).ends)
  | @overridden _ _ _ _ _ _ _ e' _ _ _ hne hjump ihf ihg =>
    intro held h
    refine covers_finalized (ihf held h) ihg ?_
    cases e' with
    | done => exact absurd rfl hne
    | jump j => exact absurd (hjump j rfl) (by decide)
    | returned => trivial
    | raised => trivial
  | @lockedHeld path f c _ _ _ hin _ ih =>
    intro held h
    rw [walk]
    split
    · exact ih held h
    · next hout =>
      refine Covers.releasing hout ?_ (ih (held.insert path) ?_)
      · exact fun p hp => (OrderedSet.mem_erase.1 hp).1
      · intro p hp
        rcases OrderedSet.mem_insert.1 hp with rfl | hp
        · exact hin
        · exact h p hp
  | @lockedFree path f c _ _ _ hout _ ih =>
    intro held h
    have hout : path ∉ held := fun hin => hout (h path hin)
    rw [walk, if_neg hout]
    exact Covers.releasing hout (OrderedSet.Subset.refl _) (ih _ (OrderedSet.insert_mono h path))

end Flow

namespace WalkContext

/-- Soundness of the walk of a body, entered with any locks of those that an execution starts with:
each access of the execution is reported with no lock that it lacks there, and if the execution comes
to the body's end, then so does the walk, with no lock that it lacks there. -/
theorem walk_covers (w : WalkContext) {σ : BodyScope} {body : List Stmt} {entry start d : HeldSet}
    {t : List (Access × HeldSet)} {e : Ending} (hbody : Stmt.allLoopsClosed body = true)
    (hentry : entry ⊆ start) (hpath : (w.bodyFlow σ body).Path false start t e d) :
    (∀ v ∈ t, ∃ s, (v.1, s) ∈ (w.walk σ body entry).trace.accesses ∧ s ⊆ v.2) ∧
      (e = .done → ∃ s, (w.walk σ body entry).exit = some s ∧ s ⊆ d) := by
  have hcovers := hpath.covers entry hentry
  rw [← w.walk_bodyFlow entry hbody] at hcovers
  refine ⟨hcovers.visits, ?_⟩
  intro he
  subst he
  exact hcovers.ends

end WalkContext

namespace Counter

open LockDiscipline.Flow in
theorem path_lockIf : (context.bodyFlow scope lockIf).Path false ∅
    [(accessX, ∅), (accessLock, ∅), (accessX, .insert ∅ lock)] .done (.insert ∅ lock) := by
  have hflow : context.bodyFlow scope lockIf =
      seq (seq (access accessX)
        (either (seq (seq (seq (access accessLock) nothing) nothing) (change .acquire lock))
          nothing))
        (seq (access accessX) nothing) := by cbv
  rw [hflow]
  exact .seq (.seq .access (.left (.seq (.seq (.seq .access .leave) .leave) .change)))
    (.seq .access .leave)

end Counter

theorem WalkContext.walk_covers_lockIf :
    (∀ v ∈ [(Counter.accessX, ∅), (Counter.accessLock, ∅), (Counter.accessX, .insert ∅ Counter.lock)],
      ∃ s, (v.1, s) ∈ (Counter.context.walk Counter.scope Counter.lockIf ∅).trace.accesses ∧ s ⊆ v.2) ∧
      (Ending.done = .done → ∃ s, (Counter.context.walk Counter.scope Counter.lockIf ∅).exit = some s ∧
        s ⊆ .insert ∅ Counter.lock) :=
  Counter.context.walk_covers (by decide) (OrderedSet.Subset.refl ∅) Counter.path_lockIf

namespace Counter

/-- `while (true) { try { } finally { break; } } x;` -/
def breakInFinally : List Stmt :=
  [.whileLoop (.literal "true") (.block [.tryCatch [] [] [.breakOut]]), .expr readX]

open LockDiscipline.Flow in
/-- The walk loses the jump out of a `finally` block, and with it what comes after the loop. -/
theorem not_covered_breakInFinally :
    (context.bodyFlow scope breakInFinally).Path true ∅ [(accessX, ∅)] .done ∅ ∧
      (context.walk scope breakInFinally ∅).exit = none ∧
      (context.walk scope breakInFinally ∅).trace.accesses = [] := by
  have htry : Path true (finalized (catching nothing never) (seq (leave (.jump .breakOut)) nothing))
      ∅ [] (.jump .breakOut) ∅ :=
    .overridden (t := []) (.uncaught .leave) (.seqLeft .leave nofun) nofun fun _ _ => rfl
  have hround := Path.seq .leave (.seq .leave (.passesBy (j := .continueLoop)
    (.seqLeft (g := nothing) htry nofun) nofun))
  have hflow : context.bodyFlow scope breakInFinally =
      seq (landing .breakOut (forever (seq nothing (seq nothing (landing .continueLoop
        (seq (finalized (catching nothing never) (seq (leave (.jump .breakOut)) nothing)) nothing))))))
        (seq (access accessX) nothing) := by cbv
  refine ⟨?_, by cbv, by cbv⟩
  rw [hflow]
  exact .seq (.lands (.foreverLeft hround nofun)) (.seq .access .leave)

/-- `while (c) var x = x;` -/
def declareInLoop : List Stmt :=
  [.whileLoop (.name "c" none) (.declare "x" none (some readX))]

open LockDiscipline.Flow in
/-- A declaration that is the whole body of a loop hides the field from the pass that reports. -/
theorem not_covered_declareInLoop :
    (context.bodyFlow scope declareInLoop).Path false ∅ [(accessX, ∅)] .done ∅ ∧
      (context.walk scope declareInLoop ∅).trace.accesses = [] := by
  have hround : Path false (seq nothing (seq mayBreak (landing .continueLoop
      (seq (access accessX) (rebind (.var "x")))))) ∅ [(accessX, ∅)] .done ∅ :=
    .seq .leave (.seq (.right .leave) (.passesBy (.seq .access .rebind) nofun))
  have hrounds := Path.again hround (.foreverLeft (.seq .leave (.seqLeft (.left .leave) nofun)) nofun)
  have hflow : context.bodyFlow scope declareInLoop =
      seq (landing .breakOut (forever (seq nothing (seq mayBreak (landing .continueLoop
        (seq (access accessX) (rebind (.var "x")))))))) nothing := by cbv
  refine ⟨?_, by cbv⟩
  rw [hflow]
  exact .seq (.lands hrounds) .leave

end Counter

end LockDiscipline
