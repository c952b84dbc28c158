import LockDiscipline.Proofs.Held.Steps

/-! The `finally` blocks that a walker goes through with the jumps that wait. While the jumps of one
frame are taken through the block, those of the others wait where they are, and what the block does
meanwhile is seen by the `try`s around it. -/

namespace LockDiscipline

open List (forall_mem_nil forall_mem_singleton forall_mem_cons forall_mem_append)

namespace JumpFrame

variable {mark before : Jump → Nat} {f : JumpFrame} {j : Jump} {s : HeldSet}

theorem mem_since_upTo (h : s ∈ (f.upTo mark).since before j) : s ∈ f.since before j := by
  rw [since, upTo, List.drop_take] at h
  exact List.mem_of_mem_take h

theorem mem_since_rewriteSince {exit : HeldSet → FlowState}
    (h : s ∈ (f.rewriteSince exit mark).since before j) :
    s ∈ f.since before j ∨ s ∈ (f.since mark j).filterMap exit := by
  rw [since, rewriteSince, List.drop_append, List.mem_append] at h
  exact h.imp mem_since_upTo List.mem_of_mem_drop

theorem extend_upTo {exit : HeldSet → FlowState} :
    (f.upTo mark).extend ((f.since mark .breakOut).filterMap exit)
      ((f.since mark .continueLoop).filterMap exit) = f.rewriteSince exit mark := by
  ext1
  · rfl
  · funext j
    cases j <;> rfl

end JumpFrame

namespace Frames

variable {exit : HeldSet → FlowState} {before : Nat → Jump → Nat} {mark : Jump → Nat}
  {marks : List (Jump → Nat)} {f : JumpFrame} {inner fs fs' rest : Frames} {s : HeldSet}

theorem mem_since_cons : s ∈ since (mark :: marks) (f :: fs) ↔
    (∃ j, s ∈ f.since mark j) ∨ s ∈ since marks fs := by
  rw [since, List.zipWith_cons_cons, List.flatten_cons, List.mem_append, JumpFrame.mem_since_append]
  rfl

theorem length_rewriteSince (h : fs.length = marks.length) :
    (fs.rewriteSince exit marks).length = fs.length := by
  rw [rewriteSince, List.length_zipWith, h, Nat.min_self]

theorem takes_append {j : Jump} : takes (inner ++ fs) j = (takes inner j || takes fs j) :=
  List.any_append

theorem takes_rewriteSince (h : fs.length = marks.length) :
    (fs.rewriteSince exit marks).takes = fs.takes := by
  funext j
  induction marks generalizing fs with
  | nil =>
    obtain rfl := List.length_eq_zero_iff.1 h
    rfl
  | cons mark outer ih =>
    cases fs with
    | nil => rfl
    | cons f rest => exact congrArg (f.takes j || ·) (ih (Nat.succ.inj h))

theorem mem_recordedSince_rewriteSince (h : fs.length = marks.length)
    (hs : s ∈ recordedSince before (fs.rewriteSince exit marks)) :
    s ∈ recordedSince before fs ∨ s ∈ (fs.since marks).filterMap exit := by
  induction marks generalizing fs with
  | nil =>
    obtain rfl := List.length_eq_zero_iff.1 h
    exact .inl hs
  | cons mark outer ih =>
    cases fs with
    | nil => cases h
    | cons f rest =>
      have hlength : (rewriteSince exit outer rest).length = rest.length :=
        length_rewriteSince (Nat.succ.inj h)
      have hsome {d : HeldSet} (hd : d ∈ since (mark :: outer) (f :: rest))
          (hexit : exit d = some s) : s ∈ (since (mark :: outer) (f :: rest)).filterMap exit :=
        List.mem_filterMap.2 ⟨d, hd, hexit⟩
      rw [rewriteSince, List.zipWith_cons_cons, ← rewriteSince, mem_recordedSince_cons,
        hlength] at hs
      rw [mem_recordedSince_cons]
      rcases hs with ⟨j, hj⟩ | hs
      · rcases JumpFrame.mem_since_rewriteSince hj with hj | hj
        · exact .inl (.inl ⟨j, hj⟩)
        · obtain ⟨d, hd, hexit⟩ := List.mem_filterMap.1 hj
          exact .inr (hsome (mem_since_cons.2 (.inl ⟨j, hd⟩)) hexit)
      · rcases ih (Nat.succ.inj h) hs with hs | hs
        · exact .inl (.inr hs)
        · obtain ⟨d, hd, hexit⟩ := List.mem_filterMap.1 hs
          exact .inr (hsome (mem_since_cons.2 (.inr hd)) hexit)

theorem at?_append : at? rest.length (inner ++ f :: rest) = some f := by
  induction inner with
  | nil => exact if_pos rfl
  | cons g inner ih =>
    rw [List.cons_append, at?, if_neg, ih]
    rw [List.length_append, List.length_cons]
    omega

theorem modifyAt_append {change : JumpFrame → JumpFrame} :
    modifyAt rest.length change (inner ++ f :: rest) = inner ++ change f :: rest := by
  induction inner with
  | nil => exact if_pos rfl
  | cons g inner ih =>
    rw [List.cons_append, modifyAt, if_neg, ih]
    · rfl
    · rw [List.length_append, List.length_cons]
      omega

/-- What is recorded after a change of some frames was recorded before, or comes from these. -/
theorem mem_recordedSince_append {P : Prop} (hlength : fs'.length = fs.length)
    (h : s ∈ recordedSince before fs' → s ∈ recordedSince before fs ∨ P)
    (hs : s ∈ recordedSince before (inner ++ fs')) :
    s ∈ recordedSince before (inner ++ fs) ∨ P := by
  induction inner with
  | nil => exact h hs
  | cons f inner ih =>
    have hlength' : (inner ++ fs').length = (inner ++ fs).length := by
      rw [List.length_append, List.length_append, hlength]
    rw [List.cons_append, mem_recordedSince_cons] at hs ⊢
    rw [hlength'] at hs
    rcases hs with hs | hs
    · exact .inl (.inl hs)
    · exact (ih hs).imp_left .inr

theorem mem_recordedSince_change {f' : JumpFrame} {P : Prop}
    (h : ∀ before j, s ∈ f'.since before j → s ∈ f.since before j ∨ P)
    (hs : s ∈ recordedSince before (inner ++ f' :: rest)) :
    s ∈ recordedSince before (inner ++ f :: rest) ∨ P := by
  have hfirst (hs : s ∈ recordedSince before (f' :: rest)) :
      s ∈ recordedSince before (f :: rest) ∨ P := by
    rw [mem_recordedSince_cons] at hs ⊢
    rcases hs with ⟨j, hj⟩ | hs
    · exact (h _ j hj).imp_left fun hj => .inl ⟨j, hj⟩
    · exact .inl (.inr hs)
  have hlength : (f' :: rest).length = (f :: rest).length := rfl
  exact mem_recordedSince_append hlength hfirst hs

end Frames

namespace Walk

variable {m : Walker} {held s d : HeldSet} {l l' : List HeldSet} {t t' : Trace}
  {exit : HeldSet → Walk FlowState} {run : HeldSet → Outcome} {σ : BodyScope} {takes : Jump → Bool}

/-- Whether `exit` goes silently through what `run` does, wherever a walker is with the scope and
among frames that take the same kinds of jumps. -/
structure Replays (exit : HeldSet → Walk FlowState) (run : HeldSet → Outcome) (σ : BodyScope)
    (takes : Jump → Bool) : Prop where
  meets : ∀ (m : Walker) (s : HeldSet), m.scope = σ → m.frames.takes = takes →
    (exit s).Meets m (m.OrderedAt s) (run s).exit (m.passed (run s).trace.silent)
  kept : ∀ s d, (run s).exit = some d → ∀ p ∈ s, (run s).trace.Keeps p → p ∈ d

/-- Whether a trace is made of the replays from some states. -/
structure Covers (run : HeldSet → Outcome) (l : List HeldSet) (t : Trace) : Prop where
  accesses : t.accesses = []
  keeps : ∀ p, t.Keeps p ↔ ∀ s ∈ l, (run s).trace.Keeps p

theorem covers_nil : Covers run [] {} :=
  ⟨rfl, fun _ => ⟨fun _ => forall_mem_nil _, fun _ => trivial⟩⟩

theorem covers_singleton : Covers run [s] (run s).trace.silent :=
  ⟨rfl, fun p => by rw [Trace.keeps_silent, forall_mem_singleton]⟩

theorem Covers.append (h : Covers run l t) (h' : Covers run l' t') :
    Covers run (l ++ l') (t ++ t') where
  accesses := List.append_eq_nil_iff.2 ⟨h.accesses, h'.accesses⟩
  keeps p := by rw [Trace.keeps_append, h.keeps, h'.keeps, forall_mem_append]

theorem Covers.congr (h : Covers run l t) (hl : ∀ s, s ∈ l ↔ s ∈ l') : Covers run l' t :=
  ⟨h.accesses, fun p => by simp only [h.keeps, hl]⟩

/-- What a `try` has seen once some states were replayed is held where the replays come out. -/
theorem Covers.seen_subset (h : Covers run l t)
    (hkept : ∀ s d, (run s).exit = some d → ∀ p ∈ s, (run s).trace.Keeps p → p ∈ d)
    (hl : ∀ s ∈ l, m.OrderedAt s) (hd : d ∈ l.filterMap fun s => (run s).exit) :
    ∀ x ∈ (m.passed t).tries, x.seen ⊆ d := by
  refine List.forall_mem_map.2 fun x hx p hp => ?_
  obtain ⟨hseen, hkeeps⟩ := Trace.mem_floor.1 hp
  obtain ⟨s, hs, hexit⟩ := List.mem_filterMap.1 hd
  exact hkept s d hexit p ((hl s hs).below x hx p hseen) ((h.keeps p).1 hkeeps s hs)

/-- A state stays in order while jumps are replaced by what comes out of their replays. -/
theorem Covers.orderedAt {frames : Frames} (h : Covers run l t)
    (hkept : ∀ s d, (run s).exit = some d → ∀ p ∈ s, (run s).trace.Keeps p → p ∈ d)
    (hl : ∀ s ∈ l, m.OrderedAt s)
    (hframes : ∀ before s, s ∈ frames.recordedSince before →
      s ∈ m.frames.recordedSince before ∨ s ∈ l.filterMap fun s => (run s).exit)
    (ho : m.OrderedAt held) : Walker.OrderedAt { m.passed t with frames } held where
  nested := ho.passed.nested
  below := ho.passed.below
  jumps x hx s hs := by
    rcases hframes x.recorded s hs with hs | hs
    · exact ho.passed.jumps x hx s hs
    · exact h.seen_subset hkept hl hs x hx

theorem Covers.orderedAt_rewriteSince {inner fs : Frames} {marks : List (Jump → Nat)}
    (h : Covers run (fs.since marks) t)
    (hkept : ∀ s d, (run s).exit = some d → ∀ p ∈ s, (run s).trace.Keeps p → p ∈ d)
    (hl : ∀ s ∈ fs.since marks, m.OrderedAt s) (hlength : fs.length = marks.length)
    (hframes : m.frames = inner ++ fs) (ho : m.OrderedAt held) :
    Walker.OrderedAt { m.passed t with
      frames := inner ++ fs.rewriteSince (fun s => (run s).exit) marks } held := by
  refine h.orderedAt hkept hl (fun before s hs => ?_) ho
  rw [hframes]
  exact Frames.mem_recordedSince_append (Frames.length_rewriteSince hlength)
    (Frames.mem_recordedSince_rewriteSince hlength) hs

/-- What a `finally` block leaves of a walker. -/
theorem Covers.after_finalizing {o : Outcome} {start : HeldSet} (h : Covers run o.waysOut t) :
    m.after (o.finalizing run start) = { (m.after o).passed ((run start).trace ++ t) with
      frames := (o.recordIn m.frames).rewriteSince (fun s => (run s).exit) m.frames.marks } := by
  have hwent : m.went o.locals (o.finalizing run start).trace =
      (m.went o.locals o.trace).passed ((run start).trace ++ t) := by
    refine Eq.trans (Walker.went_congr (fun p => ?_) ?_) Walker.went_passed.symm
    · simp [Outcome.finalizing, FunctionTable.get_eq, Trace.keeps_foldl_append, h.keeps]
    · simp [Outcome.finalizing, FunctionTable.get_eq, Trace.accesses_foldl_silent, h.accesses]
  rw [Walker.after, Outcome.recordIn_finalizing]
  exact congrArg (fun x : Walker => { x with
    frames := (o.recordIn m.frames).rewriteSince (fun s => (run s).exit) m.frames.marks }) hwent

theorem Replays.passAll (h : Replays exit run σ takes) (hscope : m.scope = σ)
    (htakes : m.frames.takes = takes) (l : List HeldSet) : ∃ t, Covers run l t ∧
      (passAll exit l).Meets m (∀ s ∈ l, m.OrderedAt s) (l.filterMap fun s => (run s).exit)
        (m.passed t) := by
  induction l generalizing m with
  | nil => exact ⟨{}, covers_nil, .of_eq meets_pure rfl Walker.passed_empty.symm⟩
  | cons s rest ih =>
    obtain ⟨t, ht, hrest⟩ := ih (m := m.passed (run s).trace.silent) hscope htakes
    refine ⟨_, covers_singleton.append ht, ?_⟩
    refine .bind (.of_imp (h.meets m s hscope htakes) fun ho => (forall_mem_cons.1 ho).1) ?_
    refine .bind (.of_imp hrest fun ho => ?_) (.of_eq meets_pure ?_ Walker.passed_passed)
    · exact fun s hs => ((forall_mem_cons.1 ho).2 s hs).passed
    · cases hexit : (run s).exit <;> simp [hexit]

/-- Through the block from an end, if it is reached. -/
theorem Replays.onward (h : Replays exit run σ takes) (hscope : m.scope = σ)
    (htakes : m.frames.takes = takes) (state : FlowState) : ∃ t, Covers run state.toList t ∧
      (onward state exit).Meets m (∀ s, state = some s → m.OrderedAt s)
        (state.bind fun s => (run s).exit) (m.passed t) := by
  cases state with
  | none => exact ⟨{}, covers_nil, .of_eq meets_pure rfl Walker.passed_empty.symm⟩
  | some s => exact ⟨_, covers_singleton, .of_imp (h.meets m s hscope htakes) fun ho => ho s rfl⟩

/-- Through one frame. -/
theorem Replays.rewriteFrame (h : Replays exit run σ takes) (hscope : m.scope = σ)
    (htakes : m.frames.takes = takes) {inner rest : Frames} {f : JumpFrame} (mark : Jump → Nat)
    (hframes : m.frames = inner ++ f :: rest) :
    ∃ t, Covers run (f.since mark .breakOut ++ f.since mark .continueLoop) t ∧
      (rewriteFrame exit rest.length mark).Meets m (∀ j, ∀ s ∈ f.since mark j, m.OrderedAt s) ()
        { m.passed t with
          frames := inner ++ f.rewriteSince (fun s => (run s).exit) mark :: rest } := by
  let m' : Walker := { m with frames := inner ++ f.upTo mark :: rest }
  have htakes' : m'.frames.takes = takes := by
    rw [← htakes, hframes]
    funext j
    simp only [m', Frames.takes, List.any_append, List.any_cons]
    rfl
  have hsplit : (modify fun m => { m with
      frames := m.frames.modifyAt rest.length (·.upTo mark) }).Meets m
        (∀ j, ∀ s ∈ f.since mark j, m.OrderedAt s) () m' := by
    refine .of_eq meets_modify rfl ?_
    rw [hframes, Frames.modifyAt_append]
  have hordered {s : HeldSet} (ho : m.OrderedAt s) : m'.OrderedAt s := by
    refine ⟨ho.nested, ho.below, fun x hx d hd => ho.jumps x hx d ?_⟩
    rw [hframes]
    exact (Frames.mem_recordedSince_change (fun _ _ hd => .inl (JumpFrame.mem_since_upTo hd))
      hd).resolve_right not_false
  obtain ⟨t, ht, hbreaks⟩ := h.passAll (m := m') hscope htakes' (f.since mark .breakOut)
  obtain ⟨t', ht', hcontinues⟩ := h.passAll (m := m'.passed t) hscope htakes'
    (f.since mark .continueLoop)
  refine ⟨t ++ t', ht.append ht', ?_⟩
  refine .bind meets_get ?_
  rw [hframes, Frames.at?_append]
  refine .bind hsplit (.bind (.of_imp hbreaks ?_) (.bind (.of_imp hcontinues ?_)
    (.of_eq meets_modify rfl ?_)))
  · exact fun ho s hs => hordered (ho _ s hs)
  · exact fun ho s hs => (hordered (ho _ s hs)).passed
  · rw [Walker.passed_passed, ← JumpFrame.extend_upTo]
    exact congrArg (fun frames => { m.passed (t ++ t') with frames }) Frames.modifyAt_append

/-- Through all frames, from the outermost on. -/
theorem Replays.rewriteJumps (h : Replays exit run σ takes) {inner fs : Frames}
    {marks : List (Jump → Nat)} (hlength : fs.length = marks.length) (hscope : m.scope = σ)
    (htakes : m.frames.takes = takes) (hframes : m.frames = inner ++ fs) :
    ∃ t, Covers run (fs.since marks) t ∧
      (rewriteJumps exit marks).Meets m (∀ s ∈ fs.since marks, m.OrderedAt s) ()
        { m.passed t with frames := inner ++ fs.rewriteSince (fun s => (run s).exit) marks } := by
  induction marks generalizing inner fs with
  | nil =>
    obtain rfl := List.length_eq_zero_iff.1 hlength
    refine ⟨{}, covers_nil, .of_eq meets_pure rfl ?_⟩
    rw [Walker.passed_empty]
    exact congrArg (fun frames => { m with frames }) hframes
  | cons mark outer ih =>
    cases fs with
    | nil => cases hlength
    | cons f rest =>
      have hrest : rest.length = outer.length := Nat.succ.inj hlength
      have hsplit : m.frames = (inner ++ [f]) ++ rest := by
        rw [hframes, List.append_assoc]
        rfl
      obtain ⟨t, ht, houter⟩ := ih hrest hsplit
      let rest' := Frames.rewriteSince (fun s => (run s).exit) outer rest
      let m' : Walker := { m.passed t with frames := (inner ++ [f]) ++ rest' }
      have hframes' : m'.frames = inner ++ f :: rest' := List.append_assoc ..
      have htakes' : m'.frames.takes = takes := by
        rw [← htakes, hsplit]
        funext j
        simp only [m', Frames.takes_append, rest', Frames.takes_rewriteSince hrest]
      have hlength' : rest'.length = outer.length :=
        (Frames.length_rewriteSince hrest).trans hrest
      have hordered {s : HeldSet} (hall : ∀ s ∈ Frames.since outer rest, m.OrderedAt s)
          (ho : m.OrderedAt s) : m'.OrderedAt s :=
        ht.orderedAt_rewriteSince h.kept hall hrest hsplit ho
      obtain ⟨t', ht', hframe⟩ := h.rewriteFrame (m := m') hscope htakes' mark hframes'
      refine ⟨t ++ t', (ht.append ht').congr ?_, ?_⟩
      · intro s
        rw [Frames.mem_since_cons, List.mem_append, JumpFrame.mem_since_append, or_comm]
      · rw [Walk.rewriteJumps, ← hlength']
        have houter' (ho : ∀ s ∈ Frames.since (mark :: outer) (f :: rest), m.OrderedAt s) :
            ∀ s ∈ Frames.since outer rest, m.OrderedAt s :=
          fun s hs => ho s (Frames.mem_since_cons.2 (.inr hs))
        refine .bind (.of_imp houter houter') (.of_eq (.of_imp hframe fun ho j s hs => ?_) rfl ?_)
        · exact hordered (houter' ho) (ho s (Frames.mem_since_cons.2 (.inl ⟨j, hs⟩)))
        · exact congrArg (fun x : Walker => { x with
            frames := inner ++ f.rewriteSince (fun s => (run s).exit) mark :: rest' })
              Walker.passed_passed

end Walk

end LockDiscipline
