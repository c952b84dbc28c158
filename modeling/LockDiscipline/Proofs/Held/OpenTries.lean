import LockDiscipline.Proofs.Held.Carried
import LockDiscipline.Proofs.Held.Targeted
import LockDiscipline.Proofs.Held.Walker

/-! The `try`s that a walker is inside of. What an outer one has seen held all along is held all
along the inner ones as well, where the walker is, and at the jumps recorded meanwhile. -/

namespace LockDiscipline

open List (forall_mem_cons)

namespace Trace

variable {a b : Trace} {held : HeldSet}

theorem floor_append : (a ++ b).floor held = b.floor (a.floor held) := by
  apply OrderedSet.ext
  intro p
  simp only [mem_floor, keeps_append, and_assoc]

theorem floor_congr (h : ∀ p, a.Keeps p ↔ b.Keeps p) : a.floor held = b.floor held := by
  apply OrderedSet.ext
  intro p
  rw [mem_floor, mem_floor, h]

end Trace

theorem JumpFrame.mem_since_append {f : JumpFrame} {mark : Jump → Nat} {s : HeldSet} :
    s ∈ f.since mark .breakOut ++ f.since mark .continueLoop ↔ ∃ j, s ∈ f.since mark j := by
  rw [List.mem_append]
  refine ⟨fun h => h.elim (⟨_, ·⟩) (⟨_, ·⟩), ?_⟩
  rintro ⟨j, hj⟩
  cases j with
  | breakOut => exact .inl hj
  | continueLoop => exact .inr hj

namespace Frames

variable {jumps : Jumps} {f : JumpFrame} {frames fs : Frames} {before before' : Nat → Jump → Nat}
  {s : HeldSet} {j : Jump}

@[simp] theorem length_record : (record jumps frames).length = frames.length := by
  induction frames generalizing jumps with
  | nil => rfl
  | cons f rest ih => exact congrArg Nat.succ ih

@[simp] theorem takes_record : (record jumps frames).takes = frames.takes := by
  funext j
  induction frames generalizing jumps with
  | nil => rfl
  | cons f rest ih =>
    rw [record, takes, List.any_cons, JumpFrame.takes_add]
    exact congrArg (f.takes j || ·) ih

theorem takes_enter_loop : (frames.enter true).takes = fun _ => true := by
  funext j
  cases j <;> rfl

theorem takes_enter_switch : (frames.enter false).takes = Jump.takenInSwitch frames.takes := by
  funext j
  cases j <;> rfl

/-- Jumps that no frame takes are gone. -/
theorem record_congr {jumps' : Jumps} (h : ∀ j, frames.takes j = true → jumps j = jumps' j) :
    record jumps frames = record jumps' frames := by
  induction frames generalizing jumps jumps' with
  | nil => rfl
  | cons f rest ih =>
    simp only [takes, List.any_cons, Bool.or_eq_true] at h
    have hadd : f.add jumps = f.add jumps' := by
      ext1
      · rfl
      · funext j
        change f.jumps j ++ _ = f.jumps j ++ _
        by_cases ht : f.takes j = true
        · rw [h j (.inl ht)]
        · rw [if_neg ht, if_neg ht]
    have hpass : record (f.pass jumps) rest = record (f.pass jumps') rest := by
      refine ih fun j hj => ?_
      rw [JumpFrame.pass, JumpFrame.pass, h j (.inr hj)]
    rw [record, record, hadd, hpass]

/-- Jumps that a frame takes are recorded. -/
theorem mem_since_record (ht : frames.takes j = true) (h : s ∈ jumps j) :
    s ∈ (record jumps frames).since frames.marks := by
  induction frames generalizing jumps with
  | nil => cases ht
  | cons f rest ih =>
    refine List.mem_append.2 ?_
    by_cases hf : f.takes j = true
    · have hs : s ∈ (f.add jumps).since f.mark j := by
        rw [JumpFrame.since_add, if_pos hf]
        exact h
      cases j with
      | breakOut => exact .inl (List.mem_append_left _ hs)
      | continueLoop => exact .inl (List.mem_append_right _ hs)
    · refine .inr (ih ?_ ?_)
      · simpa [takes, hf] using ht
      · rw [JumpFrame.pass, if_neg hf]
        exact h

theorem mem_recordedSince_cons : s ∈ recordedSince before (f :: frames) ↔
    (∃ j, s ∈ f.since (before frames.length) j) ∨ s ∈ recordedSince before frames := by
  rw [recordedSince, List.mem_append, JumpFrame.mem_since_append]

theorem recordedSince_enter {isLoop : Bool} :
    (frames.enter isLoop).recordedSince before = frames.recordedSince before := by
  have hnone (j : Jump) : JumpFrame.since (before frames.length) ⟨isLoop, fun _ => []⟩ j = [] :=
    List.drop_nil
  rw [enter, recordedSince, hnone, hnone]
  rfl

/-- A state that was recorded since is an old or a new one. -/
theorem mem_recordedSince_record (h : s ∈ (record jumps frames).recordedSince before) :
    s ∈ frames.recordedSince before ∨ ∃ j, s ∈ jumps j := by
  induction frames generalizing jumps with
  | nil => cases h
  | cons f rest ih =>
    rw [record, mem_recordedSince_cons] at h
    rw [mem_recordedSince_cons]
    rcases h with ⟨j, hj⟩ | h
    · rw [length_record, JumpFrame.since, JumpFrame.add, List.drop_append] at hj
      rcases List.mem_append.1 hj with hj | hj
      · exact .inl (.inl ⟨j, hj⟩)
      · have hnew := List.mem_of_mem_drop hj
        split at hnew
        · exact .inr ⟨j, hnew⟩
        · cases hnew
    · rcases ih h with h | ⟨j, hj⟩
      · exact .inl (.inr h)
      · refine .inr ⟨j, ?_⟩
        rw [JumpFrame.pass] at hj
        split at hj
        · cases hj
        · exact hj

theorem recordedSince_congr (h : ∀ n < frames.length, before n = before' n) :
    frames.recordedSince before = frames.recordedSince before' := by
  induction frames with
  | nil => rfl
  | cons f rest ih =>
    rw [recordedSince, recordedSince, h rest.length (Nat.lt_succ_self _),
      ih fun n hn => h n (Nat.lt_succ_of_lt hn)]

/-- Since there were the jumps of some frames, the jumps behind their marks were recorded. -/
theorem recordedSince_recorded (h : fs.length = frames.length) :
    fs.recordedSince frames.recorded = fs.since frames.marks := by
  induction fs generalizing frames with
  | nil =>
    obtain rfl := List.length_eq_zero_iff.1 h.symm
    rfl
  | cons f rest ih =>
    cases frames with
    | nil => cases h
    | cons g outer =>
      have hlength : rest.length = outer.length := Nat.succ.inj h
      have hmark : recorded (g :: outer) rest.length = g.mark := by
        rw [recorded, if_pos hlength]
      have hrest : recordedSince (recorded (g :: outer)) rest = since (marks outer) rest := by
        rw [← ih hlength]
        refine recordedSince_congr fun n hn => ?_
        rw [recorded, if_neg (by omega)]
      rw [recordedSince, hmark, hrest]
      rfl

theorem since_marks : frames.since frames.marks = [] := by
  induction frames with
  | nil => rfl
  | cons f rest ih =>
    have hnone (j : Jump) : f.since f.mark j = [] := List.drop_length
    rw [since] at ih ⊢
    simp only [marks, List.map_cons, List.zipWith_cons_cons, hnone, List.flatten_cons]
    exact ih

end Frames

/-- If the jumps out of a part are all taken, they are what was recorded since. -/
theorem Outcome.mem_since_recordIn {o : Outcome} {frames : Frames} {s : HeldSet}
    (hgone : ∀ j, frames.takes j = false → o.exits.jumps j = []) :
    s ∈ (o.recordIn frames).since frames.marks ↔ ∃ j, s ∈ o.exits.jumps j := by
  refine ⟨Frames.mem_of_mem_since, ?_⟩
  rintro ⟨j, hj⟩
  cases htaken : frames.takes j with
  | true => exact Frames.mem_since_record htaken hj
  | false =>
    rw [hgone j htaken] at hj
    cases hj

namespace Walker

/-- The accesses that a walker reports. -/
def reports (m : Walker) (t : Trace) : List (Access × HeldSet) :=
  if m.reporting then t.accesses else []

/-- What is left of a walker by a part of a walk that records no jumps. -/
def went (m : Walker) (l : Locals) (t : Trace) : Walker :=
  { m with
    scope := m.scope.withLocals l
    tries := m.tries.map fun o => { o with seen := t.floor o.seen }
    accesses := m.accesses ++ m.reports t }

def passed (m : Walker) (t : Trace) : Walker := m.went m.scope.locals t

/-- What is left of a walker that meets an outcome. -/
def after (m : Walker) (o : Outcome) : Walker :=
  { m.went o.locals o.trace with frames := o.recordIn m.frames }

/-- Whether each open `try` has seen only what those inside of it have, what is held, and what is
held at each jump recorded since the `try` was entered. -/
structure OrderedAt (m : Walker) (held : HeldSet) : Prop where
  nested : m.tries.Pairwise fun inner outer => outer.seen ⊆ inner.seen
  below : ∀ t ∈ m.tries, t.seen ⊆ held
  jumps : ∀ t ∈ m.tries, ∀ s ∈ m.frames.recordedSince t.recorded, t.seen ⊆ s

variable {m : Walker} {l l' : Locals} {t t' : Trace} {o o' : Outcome} {held s : HeldSet}

theorem reports_append : m.reports (t ++ t') = m.reports t ++ m.reports t' := by
  unfold reports
  split <;> rfl

theorem went_went : (m.went l t).went l' t' = m.went l' (t ++ t') := by
  ext1
  · rfl
  · rfl
  · change (m.tries.map _).map _ = m.tries.map _
    rw [List.map_map]
    exact List.map_congr_left fun o _ => by simp only [Function.comp, Trace.floor_append]
  · rfl
  · change (m.accesses ++ m.reports t) ++ m.reports t' = m.accesses ++ m.reports (t ++ t')
    rw [reports_append, List.append_assoc]

theorem went_congr (hkeeps : ∀ p, t.Keeps p ↔ t'.Keeps p) (haccesses : t.accesses = t'.accesses) :
    m.went l t = m.went l t' := by
  simp only [went, reports, Trace.floor_congr hkeeps, haccesses]

/-- A part without a change of locks makes reports only. -/
theorem passed_of_unchanged (h : t.kept = none) :
    m.passed t = { m with accesses := m.accesses ++ m.reports t } := by
  have hfloor (o : OpenTry) : { o with seen := t.floor o.seen } = o := by
    rw [Trace.floor, h]
  rw [passed, went, funext hfloor, List.map_id']
  rfl

theorem passed_empty : m.passed {} = m := by
  have hreports : m.reports {} = [] := ite_self []
  rw [passed_of_unchanged rfl, hreports, List.append_nil]

theorem went_passed : (m.went l t).passed t' = m.went l (t ++ t') := went_went

theorem passed_went : (m.passed t).went l t' = m.went l (t ++ t') := went_went

theorem passed_passed : (m.passed t).passed t' = m.passed (t ++ t') := went_went

theorem went_after : (m.went l t).after o = m.after (o.after t) := by
  rw [after, went_went]
  rfl

theorem passed_after : (m.passed t).after o = m.after (o.after t) := went_after

theorem after_after : (m.after o).after o' = m.after (o.andThen o') := by
  have hwent : (m.went o.locals o.trace).went o'.locals o'.trace =
      m.went o'.locals (o.trace ++ o'.trace) := went_went
  have htries := congrArg tries hwent
  have haccesses := congrArg accesses hwent
  ext1
  · rfl
  · change o'.recordIn (o.recordIn m.frames) = (o.andThen o').recordIn m.frames
    rw [Outcome.recordIn, Outcome.recordIn, ← Frames.record_append]
    exact congrArg (Frames.record · m.frames) (funext fun j => Outcome.jumps_andThen.symm)
  · exact htries
  · rfl
  · exact haccesses

theorem after_after_orElse : (m.after o).after o' = m.after (o.orElse o') := after_after

/-- What records no jumps leaves the frames as they are. -/
theorem after_eq_went (h : ∀ j, o.exits.jumps j = []) : m.after o = m.went o.locals o.trace := by
  have hframes : o.recordIn m.frames = m.frames :=
    (Frames.record_congr fun j _ => h j).trans Frames.record_nothing
  rw [after, hframes]
  rfl

/-- What visits no state records its jumps only. -/
theorem after_of_empty (hl : o.locals = m.scope.locals) (ht : o.trace = {}) :
    m.after o = { m with frames := o.recordIn m.frames } := by
  have hwent : m.went o.locals o.trace = m := by
    rw [hl, ht]
    exact passed_empty
  rw [after, hwent]

theorem after_releasing {path : LockPath} :
    m.after (o.releasing path) = { m.after o with
      frames := (o.recordIn m.frames).rewriteSince (fun s => some (s.erase path))
        m.frames.marks } := by
  rw [after, Outcome.recordIn_releasing]
  rfl

theorem takes_after : (m.after o).frames.takes = m.frames.takes := Frames.takes_record

theorem after_ofEvaluated {σ : BodyScope} {e : Evaluated} :
    m.after (.ofEvaluated σ e) = m.went σ.locals e.trace :=
  after_eq_went fun j => by cases j <;> rfl

namespace OrderedAt

theorem of_below (h : m.OrderedAt held) (hs : ∀ t ∈ m.tries, t.seen ⊆ s) : m.OrderedAt s :=
  { h with below := hs }

theorem of_stacks {m' : Walker} (h : m.OrderedAt held) (ht : m'.tries = m.tries)
    (hf : m'.frames = m.frames) : m'.OrderedAt held := by
  obtain ⟨hnested, hbelow, hjumps⟩ := h
  rw [← ht] at hnested hbelow hjumps
  rw [← hf] at hjumps
  exact ⟨hnested, hbelow, hjumps⟩

theorem mono (h : m.OrderedAt held) (hs : held ⊆ s) : m.OrderedAt s :=
  h.of_below fun t ht => OrderedSet.Subset.trans (h.below t ht) hs

theorem enterFrame {isLoop : Bool} (h : m.OrderedAt held) :
    OrderedAt { m with frames := m.frames.enter isLoop } held := by
  obtain ⟨hnested, hbelow, hjumps⟩ := h
  refine ⟨hnested, hbelow, fun x hx => ?_⟩
  rw [Frames.recordedSince_enter]
  exact hjumps x hx

/-- A `try` that is entered has seen what is held there. -/
theorem enterTry (h : m.OrderedAt held) :
    OrderedAt { m with tries := ⟨held, m.frames.recorded⟩ :: m.tries } held where
  nested := List.pairwise_cons.2 ⟨h.below, h.nested⟩
  below := forall_mem_cons.2 ⟨OrderedSet.Subset.refl _, h.below⟩
  jumps := by
    refine forall_mem_cons.2 ⟨fun s hs => ?_, h.jumps⟩
    rw [Frames.recordedSince_recorded rfl, Frames.since_marks] at hs
    cases hs

/-- What a `try` has seen is in order outside of it. -/
theorem leaveTry {x : OpenTry} {rest : List OpenTry} (h : m.OrderedAt held)
    (hx : m.tries = x :: rest) : OrderedAt { m with tries := rest } x.seen := by
  obtain ⟨hnested, -, hjumps⟩ := h
  rw [hx] at hnested hjumps
  obtain ⟨hbelow, hrest⟩ := List.pairwise_cons.1 hnested
  exact ⟨hrest, hbelow, (forall_mem_cons.1 hjumps).2⟩

theorem inter (h : m.OrderedAt held) (h' : m.OrderedAt s) : m.OrderedAt (held.inter s) :=
  h.of_below fun t ht p hp => OrderedSet.mem_inter.2 ⟨h.below t ht p hp, h'.below t ht p hp⟩

/-- A part that keeps no lock but those held at its end. -/
theorem went (h : m.OrderedAt held) (hs : ∀ p ∈ held, t.Keeps p → p ∈ s) :
    (m.went l t).OrderedAt s where
  nested := by
    refine List.pairwise_map.2 (h.nested.imp fun hsub p hp => ?_)
    obtain ⟨hseen, hkept⟩ := Trace.mem_floor.1 hp
    exact Trace.mem_floor.2 ⟨hsub p hseen, hkept⟩
  below := by
    refine List.forall_mem_map.2 fun o ho p hp => ?_
    obtain ⟨hseen, hkept⟩ := Trace.mem_floor.1 hp
    exact hs p (h.below o ho p hseen) hkept
  jumps := by
    refine List.forall_mem_map.2 fun o ho d hd p hp => ?_
    exact h.jumps o ho d hd p (Trace.mem_floor.1 hp).1

/-- What goes on elsewhere leaves a state in order. -/
theorem passed (h : m.OrderedAt held) : (m.passed t).OrderedAt held := h.went fun _ hp _ => hp

/-- An outcome that keeps no lock but those held at its end and at its jumps. -/
theorem after (h : m.OrderedAt held) (hs : ∀ p ∈ held, o.trace.Keeps p → p ∈ s)
    (hjumps : ∀ p ∈ held, o.trace.Keeps p → ∀ j, ∀ d ∈ o.exits.jumps j, p ∈ d) :
    (m.after o).OrderedAt s where
  nested := (h.went hs (l := o.locals)).nested
  below := (h.went hs (l := o.locals)).below
  jumps := by
    refine List.forall_mem_map.2 fun x hx d hd p hp => ?_
    obtain ⟨hseen, hkept⟩ := Trace.mem_floor.1 hp
    rcases Frames.mem_recordedSince_record hd with hd | ⟨j, hj⟩
    · exact h.jumps x hx d hd p hseen
    · exact hjumps p (h.below x hx p hseen) hkept j d hj

end OrderedAt

end Walker

theorem Outcome.Carries.jumps {o : Outcome} {p : LockPath} (h : o.Carries p) (j : Jump) :
    ∀ s ∈ o.exits.jumps j, p ∈ s := by
  cases j with
  | breakOut => exact h.breaks
  | continueLoop => exact h.continues

namespace WalkContext

variable {w : WalkContext} {a : Point} {m : Walker} {p : LockPath} {σ : BodyScope}
  {body : List Stmt} {catches : List Catch} {held s : HeldSet}

/-- A lock that is held at a point and kept from there on is held on all ways out. -/
theorem carries_of_keeps (hp : p ∈ a.held) (hkeeps : (w.outcome a).trace.Keeps p) :
    (w.outcome a).Carries p :=
  (sustains_of_untouched ((keeps_iff_untouched hp).1 hkeeps) hp).2

theorem orderedAt_after (h : m.OrderedAt a.held)
    (hs : ∀ p ∈ a.held, (w.outcome a).trace.Keeps p → p ∈ s) :
    (m.after (w.outcome a)).OrderedAt s :=
  h.after hs fun _ hp hkeeps => (carries_of_keeps hp hkeeps).jumps

/-- The state with which a point is left is in order, and so is the one it was entered with. -/
theorem orderedAt_left {d : HeldSet} (h : m.OrderedAt a.held)
    (hd : (w.outcome a).exit = some d ∨ d = a.held) : (m.after (w.outcome a)).OrderedAt d := by
  refine orderedAt_after h fun p hp hkeeps => ?_
  rcases hd with hd | rfl
  · exact (carries_of_keeps hp hkeeps).exit.mem hd
  · exact hp

/-- The body of a `try` and its clauses carry on what both of them keep. -/
theorem carries_handled (hp : p ∈ held) (hkeeps : (w.handled σ body catches held).trace.Keeps p) :
    (w.handled σ body catches held).Carries p := by
  let b := (w.stmts σ.push body held).leaveBlock
  rw [trace_handled, Trace.keeps_append] at hkeeps
  have hbody : b.Carries p :=
    (carries_of_keeps (a := ⟨σ.push, .stmts body, held⟩) hp hkeeps.1).leaveBlock
  have hentry : p ∈ w.handlerEntry σ body held := Trace.mem_floor.2 ⟨hp, hkeeps.1⟩
  have hcatches := carries_of_keeps (w := w) (a := ⟨σ.withLocals b.locals, .catches catches, _⟩)
    hentry hkeeps.2
  rw [handled_eq_orElse]
  exact hbody.orElse hcatches

end WalkContext

end LockDiscipline
