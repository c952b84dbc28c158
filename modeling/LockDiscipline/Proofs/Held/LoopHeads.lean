import LockDiscipline.Proofs.Held.Rounds
import LockDiscipline.Proofs.Held.Steps

/-! The loops that a walker goes round in. It finds the head of a loop without reports, and goes
through the loop once more from there, as the rounds of the loop do. -/

namespace LockDiscipline

namespace LoopPass

variable (pass : Locals → HeldSet → LoopPass) {l : Locals} {head : HeldSet}

/-- What the passes visit that find the head of a loop. -/
def silentTrace (l : Locals) (head : HeldSet) : Trace :=
  (silentStarts pass l head).foldr (fun x t => (pass x.1 x.2).trace.silent ++ t) {}

theorem silent_silentTrace : (silentTrace pass l head).silent = silentTrace pass l head := by
  have haccesses : (silentTrace pass l head).accesses = [] := Trace.accesses_foldr_silent
  rw [Trace.silent, ← haccesses]

theorem silentTrace_append {t : Trace} : silentTrace pass l head ++ t =
    (silentStarts pass l head).foldr (fun x t => (pass x.1 x.2).trace.silent ++ t) t := by
  rw [silentTrace]
  induction silentStarts pass l head with
  | nil => rfl
  | cons x rest ih => rw [List.foldr_cons, Trace.append_assoc, ih, List.foldr_cons]

theorem silentTrace_of_stable (h : (pass l head).nextHead head = head) :
    silentTrace pass l head = (pass l head).trace.silent := by
  rw [silentTrace, silentStarts, dif_pos h]
  exact Trace.append_empty

theorem silentTrace_of_unstable (h : (pass l head).nextHead head ≠ head) :
    silentTrace pass l head = (pass l head).trace.silent ++
      silentTrace pass (pass l head).locals ((pass l head).nextHead head) := by
  rw [silentTrace, silentStarts, dif_neg h]
  rfl

theorem lastStart_of_stable (h : (pass l head).nextHead head = head) :
    lastStart pass l head = ((pass l head).locals, head) := by
  rw [lastStart, dif_pos h]

theorem lastStart_of_unstable (h : (pass l head).nextHead head ≠ head) :
    lastStart pass l head =
      lastStart pass (pass l head).locals ((pass l head).nextHead head) := by
  rw [lastStart, dif_neg h]

end LoopPass

namespace Walk

variable {m : Walker} {ordered : Prop} {o : Outcome}

/-- The body of a loop is walked with a frame that takes all jumps out of it. -/
theorem meets_loopBody {walk : Walk FlowState}
    (h : walk.Meets { m with frames := m.frames.enter true } ordered o.exit
      ({ m with frames := m.frames.enter true }.after o)) :
    (loopBody walk).Meets m ordered (o.exit, ⟨true, o.exits.jumps⟩) (m.went o.locals o.trace) := by
  have hframes : o.recordIn (m.frames.enter true) = ⟨true, o.exits.jumps⟩ :: m.frames := by
    rw [Outcome.recordIn, Frames.record_enter]
    refine List.cons_eq_cons.2 ⟨?_, ?_⟩
    · ext1
      · rfl
      · funext j
        cases j <;> rfl
    · have hnone : JumpFrame.pass ⟨true, fun _ => []⟩ o.exits.jumps = fun _ => [] := by
        funext j
        cases j <;> rfl
      exact hnone ▸ Frames.record_nothing
  exact meets_modify.bind (h.bind ((meets_leaveFrame hframes).bind meets_pure))

variable {w : WalkContext} {loop : Loop} {pass : HeldSet → Walk PassEnds}

/-- A pass through a loop in place goes as the pass of the loop does. -/
def PassesThrough (w : WalkContext) (loop : Loop) (pass : HeldSet → Walk PassEnds) : Prop :=
  ∀ (m : Walker) (head : HeldSet),
    let p := w.pass m.scope loop head
    (pass head).Meets m (m.OrderedAt head) ⟨p.exit, p.back⟩ (m.went p.locals p.trace)

theorem nextHead_passEnds {p : LoopPass} {head : HeldSet} :
    PassEnds.nextHead head ⟨p.exit, p.back⟩ = p.nextHead head := by
  unfold PassEnds.nextHead LoopPass.nextHead
  cases p.back <;> rfl

theorem orderedAt_nextHead (w : WalkContext) (loop : Loop) (m : Walker) (head : HeldSet)
    (h : m.OrderedAt head) :
    let p := w.pass m.scope loop head
    (m.went p.locals p.trace).OrderedAt (p.nextHead head) :=
  h.went fun _ hp hkeeps => LoopPass.carries_nextHead hp
    (WalkContext.carries_of_keeps (a := ⟨m.scope, .pass loop, head⟩) hp hkeeps)

/-- The head of a loop is found by the passes that the loop makes without reports. -/
theorem meets_settle (hpass : PassesThrough w loop pass) (m : Walker) (head : HeldSet)
    (hm : m.reporting = false) :
    let l := m.scope.locals
    let last := LoopPass.lastStart (w.passIn m.scope loop) l head
    let t := LoopPass.silentTrace (w.passIn m.scope loop) l head
    (settle pass head).Meets m (m.OrderedAt head) last.2 (m.went last.1 t) ∧
      (m.OrderedAt head → (m.went last.1 t).OrderedAt last.2) := by
  induction hn : head.size using Nat.strongRecOn generalizing m head with
  | ind n ih =>
    subst hn
    intro l last t
    let p := w.pass m.scope loop head
    have hsilent : m.went p.locals p.trace = m.went p.locals p.trace.silent := by
      simp only [Walker.went, Walker.reports, hm]
      rfl
    have hnext := orderedAt_nextHead w loop m head
    rw [settle]
    by_cases h : p.nextHead head = head
    · have hlast : last = (p.locals, head) := LoopPass.lastStart_of_stable _ h
      have ht : t = p.trace.silent := LoopPass.silentTrace_of_stable _ h
      rw [hlast, ht, ← hsilent]
      refine ⟨meets_note.bind ((hpass m head).bind ?_), fun ho => ?_⟩
      · rw [dif_pos (nextHead_passEnds.trans h)]
        exact meets_pure
      · exact h ▸ hnext ho
    · have hlast : last =
          LoopPass.lastStart (w.passIn m.scope loop) p.locals (p.nextHead head) :=
        LoopPass.lastStart_of_unstable _ h
      have ht : t = p.trace.silent ++
          LoopPass.silentTrace (w.passIn m.scope loop) p.locals (p.nextHead head) :=
        LoopPass.silentTrace_of_unstable _ h
      obtain ⟨hmeets, hafter⟩ := ih _ (LoopPass.size_nextHead_lt h)
        (m.went p.locals p.trace) (p.nextHead head) hm rfl
      rw [hsilent, Walker.went_went, ← hsilent] at hmeets hafter
      rw [hlast, ht]
      refine ⟨meets_note.bind ((hpass m head).bind ?_), fun ho => hafter (hnext ho)⟩
      rw [dif_neg (nextHead_passEnds.trans_ne h)]
      simp only [nextHead_passEnds]
      exact hmeets.of_imp hnext

/-- A loop in place is left as its rounds are. -/
theorem meets_runLoop (hpass : PassesThrough w loop pass) (m : Walker) (held : HeldSet) :
    (runLoop pass held).Meets m (m.OrderedAt held) (w.rounds m.scope loop held).exit
      (m.after (w.rounds m.scope loop held)) := by
  let l := m.scope.locals
  let last := LoopPass.lastStart (w.passIn m.scope loop) l held
  let t := LoopPass.silentTrace (w.passIn m.scope loop) l held
  let p := w.passIn m.scope loop last.1 last.2
  have hrounds : w.rounds m.scope loop held =
      { locals := p.locals, exit := p.exit, trace := t ++ p.trace } := by
    rw [WalkContext.rounds, LoopPass.run_eq, LoopPass.silentTrace_append]
  have hjumps (j : Jump) : (w.rounds m.scope loop held).exits.jumps j = [] := LoopPass.jumps_run
  obtain ⟨hsettle, hordered⟩ := meets_settle hpass { m with reporting := false } held rfl
  have hhead : (silently (settle pass held)).Meets m (m.OrderedAt held) last.2 (m.went last.1 t) :=
    .of_eq (meets_silently (hsettle.of_imp fun ho => ho.of_stacks rfl rfl)) rfl
      (congrArg _ (LoopPass.silent_silentTrace _))
  have hafter (ho : m.OrderedAt held) : (m.went last.1 t).OrderedAt last.2 :=
    (hordered (ho.of_stacks rfl rfl)).of_stacks rfl rfl
  rw [Walker.after_eq_went hjumps, hrounds, ← Walker.went_went]
  exact hhead.bind (.of_imp (.bind meets_note (.bind (hpass _ _) meets_pure)) hafter)

end Walk

end LockDiscipline
