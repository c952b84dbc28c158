import LockDiscipline.Proofs.Held.Frames
import LockDiscipline.Proofs.Held.Points

/-! What is done on the ways out of a statement. A `lock` frees what it took and a `try` runs its
`finally` block, on its end and on the jumps that leave it. A jump that leaves several of them passes
through what each does, from the innermost on, before it comes to the loop or the `switch` that it is
meant for. -/

namespace LockDiscipline

namespace Outcome

/-- The frames around a statement, with the jumps out of it recorded. -/
def recordIn (o : Outcome) (frames : Frames) : Frames := frames.record o.exits.jumps

variable {a b o : Outcome} {frames : Frames} {j : Jump}

theorem recordIn_after {before : Trace} :
    (o.after before).recordIn frames = o.recordIn frames := rfl

theorem recordIn_orElse : (a.orElse b).recordIn frames = b.recordIn (a.recordIn frames) := by
  rw [recordIn, recordIn, recordIn, ← Frames.record_append, exits_orElse]
  rfl

variable {finalizer : HeldSet → Outcome} {start : HeldSet}

theorem jumps_andThen : (a.andThen b).exits.jumps j = a.exits.jumps j ++ b.exits.jumps j := by
  cases j <;> rfl

theorem jumps_orElse : (a.orElse b).exits.jumps j = a.exits.jumps j ++ b.exits.jumps j := by
  cases j <;> rfl

theorem jumps_releasing {path : LockPath} :
    (o.releasing path).exits.jumps j = (o.exits.jumps j).map (·.erase path) := by
  cases j <;> rfl

theorem recordIn_releasing {path : LockPath} : (o.releasing path).recordIn frames =
    (o.recordIn frames).rewriteSince (fun s => some (s.erase path)) frames.marks := by
  rw [recordIn, recordIn, Frames.rewriteSince_record]
  refine congrArg frames.record (funext fun j => ?_)
  rw [jumps_releasing, List.filterMap_eq_map']

theorem exit_finalizing :
    (o.finalizing finalizer start).exit = o.exit.bind fun s => (finalizer s).exit := by
  simp only [finalizing, FunctionTable.get_eq]

theorem jumps_finalizing : (o.finalizing finalizer start).exits.jumps j =
    (o.exits.jumps j).filterMap fun s => (finalizer s).exit := by
  cases j <;> simp only [exits, finalizing, FunctionTable.get_eq]

theorem recordIn_finalizing : (o.finalizing finalizer start).recordIn frames =
    (o.recordIn frames).rewriteSince (fun s => (finalizer s).exit) frames.marks := by
  rw [recordIn, recordIn, Frames.rewriteSince_record]
  exact congrArg frames.record (funext fun _ => jumps_finalizing)

end Outcome

/-- A loop lets no jump out: it takes up those of its body. -/
theorem LoopPass.jumps_run {pass : Locals → HeldSet → LoopPass} {l : Locals} {head : HeldSet}
    {j : Jump} : (run pass l head).exits.jumps j = [] := by
  induction hn : head.size using Nat.strongRecOn generalizing l head with
  | ind n ih =>
    subst hn
    by_cases h : (pass l head).nextHead head = head
    · rw [run_of_stable pass h]
      cases j <;> rfl
    · rw [run_of_unstable pass h]
      exact ih _ (size_nextHead_lt h) rfl

namespace WalkContext

variable (w : WalkContext) {σ : BodyScope} {held : HeldSet} {frames : Frames} {j : Jump}

/-- The clauses of a `try`, one after another, each entered with `entry`. -/
def clauses (σ : BodyScope) (entry : HeldSet) : List Catch → List Outcome
  | [] => []
  | .mk type name body :: rest =>
    let (inner, bound) := match name with
      | some name => (σ.push.declare name type none, Evaluated.rebind (.var name) entry)
      | none => (σ.push, .unchanged entry)
    let o := (((w.stmts inner.push body bound.held).leaveBlock).after bound.trace).leaveBlock
    o :: clauses (σ.withLocals o.locals) entry rest

/-- The clauses of a `try` flow together with what comes before them. -/
theorem catches_eq_foldl (l : List Catch) (σ : BodyScope) (before : Outcome) (entry : HeldSet) :
    w.catches σ before l entry =
      (w.clauses (σ.withLocals before.locals) entry l).foldl Outcome.orElse before := by
  induction l generalizing σ before with
  | nil => rfl
  | cons c rest ih =>
    obtain ⟨type, name, body⟩ := c
    cases name with
    | none | some name =>
      rw [catches, ih, clauses]
      rfl

/-- A `break` out of a section comes to the frame of its `switch`, any other jump past it. -/
theorem recordIn_switch {scrutinee : Expr} {sections : List Section} :
    let s := w.sections σ sections (w.expr σ scrutinee held).held
    s.recordIn (frames.enter false) =
      ⟨false, fun j => if j = .breakOut then s.breaks else []⟩ ::
        (w.stmt σ (.switch scrutinee sections) held).recordIn frames := by
  intro s
  rw [Outcome.recordIn, Frames.record_enter, stmt]
  refine List.cons_eq_cons.2 ⟨?_, congrArg frames.record ?_⟩
  · ext1
    · rfl
    · funext j
      cases j <;> rfl
  · funext j
    cases j <;> rfl

/-- What a statement does when a jump leaves it. -/
inductive ExitAction where
  | free (path : LockPath)
  | finalize (scope : BodyScope) (finalizer : List Stmt)

/-- The state after the action, if its end is reached. -/
def act (s : HeldSet) : ExitAction → FlowState
  | .free path => some (s.erase path)
  | .finalize σ finalizer => (w.stmts σ.push finalizer s).exit

/-- The state after the actions, one after another, if the end of each is reached. -/
def actAll (actions : List ExitAction) (s : HeldSet) : FlowState := actions.foldlM w.act s

/-- The action on the jumps out of a point. A `lock` on what is held already has none. -/
def exitActions (a : Point) : List ExitAction :=
  let σ := a.scope
  match a.task with
  | .stmt (.lock target _) =>
    match (σ.place target).path with
    | some path => if path ∈ (w.expr σ target a.held).held then [] else [.free path]
    | none => []
  | .stmt (.tryCatch body catches finalizer) =>
    [.finalize (σ.withLocals (w.handled σ body catches a.held).locals) finalizer]
  | _ => []

/-- The states in which a point is left by jumps. A loop takes up the jumps out of its passes. -/
def jumpsFrom (j : Jump) (a : Point) : List HeldSet :=
  match a.task with
  | .stmt _ | .stmts _ | .sections _ | .catches _ => (w.outcome a).exits.jumps j
  | _ => []

/-- The parts whose jumps leave the point as well. A `switch` takes up each `break`, and a jump out
of a `finally` block goes nowhere. -/
def openParts (j : Jump) (a : Point) : List Point :=
  match a.task with
  | .stmt (.switch ..) => if j = .breakOut then [] else w.parts a
  | .stmt (.tryCatch ..) => (w.parts a).take 2
  | .stmt _ | .stmts _ | .sections _ | .catches _ => w.parts a
  | _ => []

/-- The states of the jumps that are taken at the point itself. -/
def ownJumps (j : Jump) (a : Point) : List HeldSet :=
  match a.task with
  | .stmt .breakOut => if j = .breakOut then [a.held] else []
  | .stmt .continueLoop => if j = .continueLoop then [a.held] else []
  | _ => []

variable {a b : Point}

theorem jumpsFrom_stmt {s : Stmt} :
    w.jumpsFrom j ⟨σ, .stmt s, held⟩ = (w.stmt σ s held).exits.jumps j := rfl

theorem jumpsFrom_stmts {body : List Stmt} :
    w.jumpsFrom j ⟨σ, .stmts body, held⟩ = (w.stmts σ body held).exits.jumps j := rfl

theorem jumpsFrom_sections {l : List Section} :
    w.jumpsFrom j ⟨σ, .sections l, held⟩ = (w.sections σ l held).exits.jumps j := rfl

theorem jumpsFrom_catches {l : List Catch} : w.jumpsFrom j ⟨σ, .catches l, held⟩ =
    (w.catches σ (.unreached σ.locals) l held).exits.jumps j := rfl

theorem actAll_nil : w.actAll [] = some := rfl

theorem actAll_singleton {x : ExitAction} : w.actAll [x] = (w.act · x) :=
  funext fun _ => bind_pure _

/-- A point that does nothing to jumps. -/
private theorem jumpsFrom_eq_of_plain (hact : w.exitActions a = [])
    (h : w.jumpsFrom j a = ownJumps j a ++ (w.openParts j a).flatMap (w.jumpsFrom j)) :
    w.jumpsFrom j a = ownJumps j a ++
      ((w.openParts j a).flatMap (w.jumpsFrom j)).filterMap (w.actAll (w.exitActions a)) := by
  rw [hact, actAll_nil, List.filterMap_some, h]

/-- The jumps out of a point are those taken there and those out of its parts, past the exit action
of the point. -/
theorem jumpsFrom_eq : w.jumpsFrom j a = ownJumps j a ++
    ((w.openParts j a).flatMap (w.jumpsFrom j)).filterMap (w.actAll (w.exitActions a)) := by
  obtain ⟨σ, task, held⟩ := a
  cases task with
  | change | rebind | bindings | expr | exprs | pass | rounds => rfl
  | stmt s =>
    cases s with
    | block body =>
      refine w.jumpsFrom_eq_of_plain rfl ?_
      rw [jumpsFrom_stmt, stmt]
      exact (List.append_nil _).symm
    | empty | expr | breakOut | continueLoop =>
      refine w.jumpsFrom_eq_of_plain rfl ?_
      rw [jumpsFrom_stmt, stmt]
      cases j <;> rfl
    | declare name type value | ret value | raise value =>
      refine w.jumpsFrom_eq_of_plain rfl ?_
      rw [jumpsFrom_stmt, stmt]
      cases value <;> cases j <;> rfl
    | ite condition thenArm elseArm =>
      refine w.jumpsFrom_eq_of_plain rfl ?_
      rw [jumpsFrom_stmt, stmt]
      exact Outcome.jumps_orElse.trans (congrArg _ (List.append_nil _).symm)
    | whileLoop | doLoop | foreachLoop =>
      refine w.jumpsFrom_eq_of_plain rfl ?_
      rw [jumpsFrom_stmt, stmt]
      exact LoopPass.jumps_run
    | forLoop init condition step body =>
      refine w.jumpsFrom_eq_of_plain rfl ?_
      rw [jumpsFrom_stmt, stmt_forLoop]
      cases hexit : (w.stmts σ.push init held).exit with
      | none =>
        simp only [openParts, parts, stmtParts, hexit]
        exact (List.append_nil _).symm
      | some entry =>
        simp only [openParts, parts, stmtParts, hexit]
        exact Outcome.jumps_andThen.trans (congrArg _ LoopPass.jumps_run)
    | switch scrutinee sections =>
      refine w.jumpsFrom_eq_of_plain rfl ?_
      rw [jumpsFrom_stmt, stmt]
      cases j with
      | breakOut => rfl
      | continueLoop => exact (List.append_nil _).symm
    | tryCatch body catches finalizer =>
      have hhandled : (w.handled σ body catches held).exits.jumps j =
          ((w.openParts j ⟨σ, .stmt (.tryCatch body catches finalizer), held⟩).flatMap
            (w.jumpsFrom j)) := by
        rw [handled_eq_orElse]
        exact Outcome.jumps_orElse.trans (congrArg _ (List.append_nil _).symm)
      rw [jumpsFrom_stmt, stmt_tryCatch, Outcome.jumps_finalizing, hhandled]
      change _ = List.filterMap (w.actAll [_]) _
      rw [actAll_singleton]
      rfl
    | lock target body =>
      cases hpath : (σ.place target).path with
      | none =>
        refine w.jumpsFrom_eq_of_plain (by simp only [exitActions, hpath]) ?_
        simp only [jumpsFrom_stmt, stmt, openParts, parts, stmtParts, hpath]
        exact (List.append_nil _).symm
      | some path =>
        have hbody : (w.stmt σ body ((w.expr σ target held).held.insert path)).exits.jumps j =
            (w.openParts j ⟨σ, .stmt (.lock target body), held⟩).flatMap (w.jumpsFrom j) := by
          simp only [openParts, parts, stmtParts, hpath]
          exact (List.append_nil _).symm
        rw [jumpsFrom_stmt, w.stmt_lock hpath, ← hbody]
        by_cases hin : path ∈ (w.expr σ target held).held
        · simp only [exitActions, hpath, hin, if_true, actAll_nil, List.filterMap_some]
          rfl
        · simp only [exitActions, hpath, hin, if_false, actAll_singleton]
          change (Outcome.releasing path _).exits.jumps j = _
          rw [Outcome.jumps_releasing, ← List.filterMap_eq_map']
          rfl
  | stmts body =>
    refine w.jumpsFrom_eq_of_plain rfl ?_
    cases body with
    | nil => cases j <;> rfl
    | cons s rest =>
      rw [jumpsFrom_stmts, stmts]
      cases hexit : (w.stmt σ s held).exit with
      | none =>
        simp only [openParts, parts, hexit]
        exact (List.append_nil _).symm
      | some held' =>
        simp only [openParts, parts, hexit]
        exact Outcome.jumps_andThen.trans (congrArg _ (List.append_nil _).symm)
  | sections l =>
    refine w.jumpsFrom_eq_of_plain rfl ?_
    cases l with
    | nil => cases j <;> rfl
    | cons s rest =>
      obtain ⟨isDefault, body⟩ := s
      rw [jumpsFrom_sections, sections]
      exact Outcome.jumps_orElse.trans (congrArg _ (List.append_nil _).symm)
  | catches l =>
    refine w.jumpsFrom_eq_of_plain rfl ?_
    cases l with
    | nil => cases j <;> rfl
    | cons c rest =>
      obtain ⟨type, name, body⟩ := c
      rw [jumpsFrom_catches]
      cases name with
      | none =>
        rw [catches_cons_none]
        exact Outcome.jumps_orElse.trans (congrArg _ (List.append_nil _).symm)
      | some name =>
        rw [catches_cons_some]
        exact Outcome.jumps_orElse.trans (congrArg _ (List.append_nil _).symm)

theorem mem_parts_of_mem_openParts (h : b ∈ w.openParts j a) : b ∈ w.parts a := by
  unfold openParts at h
  split at h
  · split at h
    · cases h
    · exact h
  · exact List.mem_of_mem_take h
  any_goals exact h
  cases h

/-- `JumpsOut j a s actions`: a jump of the kind `j` is taken with `s` on the way from the point `a`,
and it leaves the point past `actions`, the innermost first. -/
inductive JumpsOut (j : Jump) : Point → HeldSet → List ExitAction → Prop
  | taken {a : Point} {s : HeldSet} : s ∈ ownJumps j a → JumpsOut j a s []
  | outOf {a b : Point} {s : HeldSet} {actions : List ExitAction} :
      b ∈ w.openParts j a → JumpsOut j b s actions → JumpsOut j a s (actions ++ w.exitActions a)

theorem actAll_append {xs ys : List ExitAction} {s : HeldSet} :
    w.actAll (xs ++ ys) s = (w.actAll xs s).bind (w.actAll ys) :=
  List.foldlM_append

/-- A jump out of a point has been through each exit action on its way, once, in their order. -/
theorem mem_jumpsFrom_iff {d : HeldSet} : d ∈ w.jumpsFrom j a ↔
    ∃ s actions, w.JumpsOut j a s actions ∧ w.actAll actions s = some d := by
  constructor
  · intro hd
    induction a using w.wellFounded_parts.induction generalizing d with
    | _ a ih =>
      rw [jumpsFrom_eq, List.mem_append] at hd
      rcases hd with hown | hpart
      · exact ⟨d, [], .taken hown, rfl⟩
      · obtain ⟨c, hc, hact⟩ := List.mem_filterMap.1 hpart
        obtain ⟨b, hb, hcb⟩ := List.mem_flatMap.1 hc
        obtain ⟨s, actions, hout, hs⟩ := ih b (w.mem_parts_of_mem_openParts hb) hcb
        exact ⟨s, _, .outOf hb hout, by rw [actAll_append, hs, Option.bind_some, hact]⟩
  · rintro ⟨s, actions, hout, hs⟩
    induction hout generalizing d with
    | taken hown =>
      obtain rfl := Option.some.inj hs
      exact w.jumpsFrom_eq ▸ List.mem_append_left _ hown
    | outOf hb _ ih =>
      rw [actAll_append] at hs
      obtain ⟨c, hc, hact⟩ := Option.bind_eq_some_iff.1 hs
      rw [jumpsFrom_eq, List.mem_append]
      exact .inr (List.mem_filterMap.2 ⟨c, List.mem_flatMap.2 ⟨_, hb, ih hc⟩, hact⟩)

/-- The `finally` block of a `try` is run on each way out of its body and of its clauses: on what
their ends flow together to, and on each jump to a loop or a `switch` around, which is gone if the
block does not end. So a jump out of any number of such blocks and of locks comes to what it is meant
for past what each does, once, from the innermost on. -/
theorem finally_applied (σ : BodyScope) (held : HeldSet) (frames : Frames) :
    (∀ (body : List Stmt) (catches : List Catch) (finalizer : List Stmt),
      let tried := (w.stmts σ.push body held).leaveBlock
      let caught := w.clauses (σ.withLocals tried.locals) (w.handlerEntry σ body held) catches
      let o := w.stmt σ (.tryCatch body catches finalizer) held
      let run := fun s => (w.stmts (σ.withLocals o.locals).push finalizer s).exit
      o.exit = (caught.foldl (fun n c => n.join c.exit) tried.exit).bind run ∧
      o.recordIn frames =
        (caught.foldl (fun f c => c.recordIn f) (tried.recordIn frames)).rewriteSince run frames.marks ∧
      (o.recordIn frames).upTo frames.marks = frames) ∧
    ∀ (s : Stmt) (j : Jump), ∃ arrived,
      (((w.stmt σ s held).recordIn frames).target? j).map (·.jumps j) =
        (frames.target? j).map (fun f => f.jumps j ++ arrived) ∧
      ∀ d, d ∈ arrived ↔ ∃ start actions,
        w.JumpsOut j ⟨σ, .stmt s, held⟩ start actions ∧ w.actAll actions start = some d := by
  constructor
  · intro body catches finalizer tried caught o run
    have hhandled : w.handled σ body catches held = caught.foldl Outcome.orElse tried :=
      w.catches_eq_foldl catches σ tried _
    have ho : o = (caught.foldl Outcome.orElse tried).finalizing
        (fun s => (w.stmts (σ.withLocals o.locals).push finalizer s).leaveBlock)
        (w.finallyEntry σ body catches held) := by
      rw [← hhandled]
      exact w.stmt_tryCatch
    have hexit : caught.foldl (fun n c => n.join c.exit) tried.exit =
        (caught.foldl Outcome.orElse tried).exit :=
      List.foldl_hom Outcome.exit fun _ _ => rfl
    have hrecord : caught.foldl (fun f c => c.recordIn f) (tried.recordIn frames) =
        (caught.foldl Outcome.orElse tried).recordIn frames :=
      List.foldl_hom (fun c : Outcome => c.recordIn frames) fun _ _ => Outcome.recordIn_orElse.symm
    refine ⟨?_, ?_, Frames.upTo_record⟩
    · rw [hexit]
      exact (congrArg Outcome.exit ho).trans Outcome.exit_finalizing
    · rw [hrecord]
      exact (congrArg (fun o : Outcome => o.recordIn frames) ho).trans Outcome.recordIn_finalizing
  · intro s j
    exact ⟨w.jumpsFrom j ⟨σ, .stmt s, held⟩, Frames.target?_record, fun _ => w.mem_jumpsFrom_iff⟩

/-- A `lock` holds its lock for the body, which is walked once. On each way out, by its end or by a
jump to a loop or a `switch` around it, the lock is freed that it took, and nothing else is changed;
a lock on what was held already changes nothing. -/
theorem lock_restored {target : Expr} {path : LockPath}
    (hpath : (σ.place target).path = some path) (body : Stmt) (held : HeldSet) (frames : Frames) :
    let before := (w.expr σ target held).held
    let inner := w.stmt σ body (before.insert path)
    let o := w.stmt σ (.lock target body) held
    w.parts ⟨σ, .stmt (.lock target body), held⟩ =
        [⟨σ, .expr target, held⟩, ⟨σ, .stmt body, before.insert path⟩] ∧
      o.locals = inner.locals ∧ o.trace = (w.expr σ target held).trace ++ inner.trace ∧
      (path ∉ before →
        o.exit = inner.exit.map (·.erase path) ∧
        o.recordIn frames =
          (inner.recordIn frames).rewriteSince (fun s => some (s.erase path)) frames.marks ∧
        (o.recordIn frames).upTo frames.marks = frames ∧
        ∀ s, o.exit = some s ∨ s ∈ (o.recordIn frames).since frames.marks → path ∉ s) ∧
      (path ∈ before →
        o.exit = (w.stmt σ body before).exit ∧
        o.recordIn frames = (w.stmt σ body before).recordIn frames) := by
  intro before inner o
  have ho : o = (if path ∈ before then inner else inner.releasing path).after
      (w.expr σ target held).trace := w.stmt_lock hpath
  refine ⟨?_, ?_, ?_, fun hfree => ?_, fun hheld => ?_⟩
  · simp only [parts, stmtParts, hpath]
    rfl
  · rw [ho]
    split <;> rfl
  · rw [ho]
    split <;> rfl
  · rw [if_neg hfree] at ho
    have hgone (t : HeldSet) : path ∉ t.erase path := fun h => (OrderedSet.mem_erase.1 h).2 rfl
    rw [ho, Outcome.recordIn_after]
    refine ⟨rfl, Outcome.recordIn_releasing, Frames.upTo_record, ?_⟩
    rintro s (hexit | hjump)
    · obtain ⟨t, -, rfl⟩ := Option.map_eq_some_iff.1 hexit
      exact hgone t
    · obtain ⟨j, hj⟩ := Frames.mem_of_mem_since hjump
      rw [Outcome.jumps_releasing] at hj
      obtain ⟨t, -, rfl⟩ := List.mem_map.1 hj
      exact hgone t
  · have hinner : w.stmt σ body before = inner :=
      congrArg (w.stmt σ body) (OrderedSet.insert_of_mem hheld).symm
    rw [ho, if_pos hheld, hinner]
    exact ⟨rfl, rfl⟩

end WalkContext

namespace Counter

/-- `lock (lock) break;` -/
def lockBreak : Stmt := .lock (.name "lock" none) .breakOut

/-- The frames of a body in one loop, which was left without a lock before. -/
def oneLoop : Frames := [⟨true, fun _ => [∅]⟩]

/-- A `break` is taken with the lock and comes to the loop without it. -/
theorem lock_restored_break : let o := context.stmt scope lockBreak ∅
    context.parts ⟨scope, .stmt lockBreak, ∅⟩ =
        [⟨scope, .expr (.name "lock" none), ∅⟩, ⟨scope, .stmt .breakOut, .insert ∅ lock⟩] ∧
      (o.recordIn oneLoop).since oneLoop.marks = [∅] ∧
      (o.recordIn oneLoop).upTo oneLoop.marks = oneLoop := by
  have hpath : (scope.place (.name "lock" none)).path = some lock := by cbv
  have h := context.lock_restored hpath .breakOut ∅ oneLoop
  have hfree : lock ∉ (context.expr scope (.name "lock" none) ∅).held := by decide
  exact ⟨h.1, by cbv, (h.2.2.2.1 hfree).2.2.1⟩

/-- A `break` out of a `lock` frees the lock before a `finally` block around takes it again. -/
example :
    let takeLock : Stmt := .expr (.call (.member (.name "lock" none) "lock" none) [] none)
    (context.stmt scope (.tryCatch [lockBreak] [] [takeLock]) ∅).breaks = [.insert ∅ lock] := by
  cbv

end Counter

end LockDiscipline
