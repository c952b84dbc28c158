import LockDiscipline.Proofs.Held.BodyLocals
import LockDiscipline.Proofs.Held.ExprWalk

/-! The walk of a body is the walk of its flow, as long as no loop has a bare declaration for its
body. -/

namespace LockDiscipline

namespace Outcome

/-- The exits of an outcome, its locals left out. -/
def exits (o : Outcome) : Exits where
  exit := o.exit
  jumps
    | .breakOut => o.breaks
    | .continueLoop => o.continues
  trace := o.trace

theorem exits_eq {o : Outcome} {x : Exits} (hexit : o.exit = x.exit)
    (hbreaks : o.breaks = x.jumps .breakOut) (hcontinues : o.continues = x.jumps .continueLoop)
    (htrace : o.trace = x.trace) : o.exits = x := by
  ext1
  · exact hexit
  · funext j
    cases j with
    | breakOut => exact hbreaks
    | continueLoop => exact hcontinues
  · exact htrace

@[simp] theorem locals_after (before : Trace) (o : Outcome) :
    (o.after before).locals = o.locals := rfl

@[simp] theorem exits_leaveBlock (o : Outcome) : o.leaveBlock.exits = o.exits := rfl

@[simp] theorem exits_after (before : Trace) (o : Outcome) :
    (o.after before).exits = o.exits.after before := rfl

@[simp] theorem exits_ofEvaluated (σ : BodyScope) (e : Evaluated) :
    (ofEvaluated σ e).exits = .ofEvaluated e := by
  exact Outcome.exits_eq rfl rfl rfl rfl

@[simp] theorem exits_done (σ : BodyScope) (held : HeldSet) :
    (done σ held).exits = { exit := some held } := by
  exact Outcome.exits_eq rfl rfl rfl rfl

theorem exits_orElse (a b : Outcome) : (a.orElse b).exits = a.exits.orElse b.exits := by
  exact Outcome.exits_eq rfl rfl rfl rfl

theorem exits_releasing (path : LockPath) (o : Outcome) :
    (o.releasing path).exits = o.exits.releasing path := by
  exact Outcome.exits_eq rfl rfl rfl rfl

theorem exits_andThen_of_none {a : Outcome} (he : a.exit = none) (k : HeldSet → Exits) :
    a.exits.andThen k = a.exits := by
  simp only [Exits.andThen, exits, he]

theorem exits_andThen {a b : Outcome} {held : HeldSet} {k : HeldSet → Exits}
    (he : a.exit = some held) (hb : b.exits = k held) :
    (a.andThen b).exits = a.exits.andThen k := by
  have hx : a.exits.exit = some held := he
  simp only [Exits.andThen, hx, ← hb]
  exact exits_eq rfl rfl rfl rfl

theorem exits_finalizing {finalizer : HeldSet → Outcome} {k : HeldSet → Exits} {o : Outcome}
    {held : HeldSet} (hk : ∀ s, (finalizer s).exits = k s) :
    (o.finalizing finalizer
      (o.exit.elim (o.trace.floor held) (·.inter (o.trace.floor held)))).exits =
      o.exits.finalizing k held := by
  have hexit (s : HeldSet) : (finalizer s).exit = (k s).exit := congrArg Exits.exit (hk s)
  have htrace (s : HeldSet) : (finalizer s).trace = (k s).trace := congrArg Exits.trace (hk s)
  apply exits_eq
  · simp only [exits, finalizing, Exits.finalizing, FunctionTable.get_eq, hexit]
  · simp only [exits, finalizing, Exits.finalizing, FunctionTable.get_eq, hexit]
  · simp only [exits, finalizing, Exits.finalizing, FunctionTable.get_eq, hexit]
  · simp only [exits, finalizing, Exits.finalizing, Exits.finalizerEntry, Exits.replays,
      Exits.waysOut, waysOut, FunctionTable.get_eq, htrace]

end Outcome

namespace LoopPass

/-- A pass through a loop goes as its body's flow does, and declares nothing. -/
structure Follows (l : Locals) (p : LoopPass) (o : Exits) : Prop where
  locals : p.locals = l
  exit : p.exit = FlowState.joinAll none (o.jumps .breakOut)
  back : p.back = o.exit
  continues : o.jumps .continueLoop = []
  trace : p.trace = o.trace

theorem Follows.nextHead {l : Locals} {pass : LoopPass} {body : HeldSet → Exits} {head : HeldSet}
    (h : pass.Follows l (body head)) : pass.nextHead head = Exits.nextHead body head := by
  unfold LoopPass.nextHead Exits.nextHead
  rw [h.back]
  cases (body head).exit <;> rfl

/-- A loop is walked as its flow is, in the locals that its passes keep. -/
theorem run_follows {pass : Locals → HeldSet → LoopPass} {body : HeldSet → Exits} {l : Locals}
    (h : ∀ head, (pass l head).Follows l (body head)) (head : HeldSet) :
    (run pass l head).locals = l ∧
      (run pass l head).exits = (Exits.forever body head).landing .breakOut := by
  induction hn : head.size using Nat.strongRecOn generalizing head with
  | ind n ih =>
    rw [run, Exits.forever, Exits.stableHead, Exits.passes]
    simp only [(h head).nextHead, (h head).locals, ↓reduceIte]
    split
    · next hs =>
      refine ⟨rfl, ?_⟩
      refine Outcome.exits_eq ?_ rfl (h head).continues.symm ?_
      · simp only [Exits.landing, (h head).exit]
      · simp only [Exits.landing, (h head).trace]
    · next hs =>
      subst hn
      obtain ⟨hl, he⟩ := ih _ (Exits.size_nextHead hs) _ rfl
      refine ⟨hl, ?_⟩
      rw [Exits.forever] at he
      have hx := congrArg Exits.exit he
      have hj := congrArg Exits.jumps he
      have ht := congrArg Exits.trace he
      simp only [Outcome.exits, Exits.landing] at hx ht ⊢
      ext1
      · exact hx
      · exact hj
      · simp only [ht, (h head).trace, Trace.append_assoc]

end LoopPass

namespace WalkContext

variable (w : WalkContext)

/-- The states with which a loop ends by itself at a point with the state `held`. -/
def endsAt (endless : Bool) (held : HeldSet) (j : Jump) : List HeldSet :=
  if endless = false ∧ j = .breakOut then [held] else []

private theorem walk_loopExit (endless : Bool) (held : HeldSet) :
    (loopExit endless).walk held = { exit := some held, jumps := endsAt endless held } := by
  ext1
  · cases endless <;> rfl
  · funext j
    cases endless <;> cases j <;> rfl
  · cases endless <;> rfl

theorem loopExit_andThen (endless : Bool) (held : HeldSet) (k : HeldSet → Exits) :
    ((loopExit endless).walk held).andThen k =
      { k held with jumps := fun j => endsAt endless held j ++ (k held).jumps j } := by
  rw [walk_loopExit]
  rfl

/-- A loop that may end at its head. -/
theorem exitFirst_follows {l : Locals} {endless : Bool} {start : Evaluated} {o : Outcome}
    {body : Flow} (hl : o.locals = l) (hb : o.exits = body.walk start.held) :
    (LoopPass.exitFirst endless start o).Follows l
      ((Exits.ofEvaluated start).andThen
        (Flow.seq (loopExit endless) (.landing .continueLoop body)).walk) := by
  rw [Exits.ofEvaluated_andThen, Flow.walk, loopExit_andThen, Flow.walk, ← hb]
  constructor
  · exact hl
  · cases endless <;> rfl
  · rfl
  · cases endless <;> rfl
  · rfl

/-- A loop that may end before it comes back to its head. -/
theorem exitLast_follows {l : Locals} {endless : Bool} {o : Outcome}
    {tail : HeldSet → Evaluated} {body last : Flow} {head : HeldSet} (hl : o.locals = l)
    (hb : o.exits = body.walk head) (ht : ∀ held, last.walk held = .ofEvaluated (tail held)) :
    (LoopPass.evalLast (fun back => if endless then none else back) o tail).Follows l
      ((Flow.seq (.landing .continueLoop body) (.seq last (loopExit endless))).walk head) := by
  rw [Flow.walk, Flow.walk, ← hb]
  cases he : o.exit.joinAll o.continues with
  | none =>
    have hx : (o.exits.landing .continueLoop).exit = none := he
    simp only [Exits.andThen, hx, LoopPass.evalLast, he]
    constructor
    · exact hl
    · cases endless <;> rfl
    · exact hx.symm
    · rfl
    · exact Trace.append_empty
  | some back =>
    have hx : (o.exits.landing .continueLoop).exit = some back := he
    simp only [Exits.andThen, hx, LoopPass.evalLast, he, Flow.walk, ht, Exits.ofEvaluated, walk_loopExit]
    constructor
    · exact hl
    · apply FlowState.ext
      · cases endless <;> simp [endsAt, Exits.landing, Outcome.exits]
      · intro p
        cases endless <;> simp [endsAt, Exits.landing, Outcome.exits, or_imp, forall_and, and_comm]
    · rfl
    · cases endless <;> rfl
    · exact congrArg (o.trace ++ ·) Trace.append_empty.symm

/-- A loop that may end at its head and does more before it comes back there. -/
theorem exitFirst_last_follows {l : Locals} {endless : Bool} {start : Evaluated} {o : Outcome}
    {tail : HeldSet → Evaluated} {body last : Flow} (hl : o.locals = l)
    (hb : o.exits = body.walk start.held) (ht : ∀ held, last.walk held = .ofEvaluated (tail held)) :
    (LoopPass.evalLast (fun _ => if endless then none else some start.held) (o.after start.trace) tail).Follows l
      ((Exits.ofEvaluated start).andThen
        (Flow.seq (loopExit endless) (.seq (.landing .continueLoop body) last)).walk) := by
  rw [Exits.ofEvaluated_andThen, Flow.walk, loopExit_andThen, Flow.walk, Flow.walk, ← hb]
  cases he : o.exit.joinAll o.continues with
  | none =>
    have hx : (o.exits.landing .continueLoop).exit = none := he
    simp only [Exits.andThen, hx, LoopPass.evalLast, Outcome.after, he]
    constructor
    · exact hl
    · cases endless <;> rfl
    · rfl
    · cases endless <;> rfl
    · exact Trace.append_empty
  | some back =>
    have hx : (o.exits.landing .continueLoop).exit = some back := he
    simp only [Exits.andThen, hx, LoopPass.evalLast, Outcome.after, he, ht]
    constructor
    · exact hl
    · apply FlowState.ext
      · cases endless <;> simp [endsAt, Exits.landing, Outcome.exits, Exits.after, Exits.ofEvaluated]
      · intro p
        cases endless <;> simp [endsAt, Exits.landing, Outcome.exits, Exits.after, Exits.ofEvaluated]
    · rfl
    · cases endless <;> rfl
    · exact Trace.append_assoc

mutual

/-- A statement is walked as its flow is. -/
theorem walk_stmtFlow : ∀ (s : Stmt) (σ : BodyScope) (held : HeldSet),
    s.loopsClosed = true → (w.stmt σ s held).exits = (w.stmtFlow σ s).walk held
  | .block body, σ, held, h => by
    rw [stmt, stmtFlow, Outcome.exits_leaveBlock]
    exact walk_stmtsFlow body σ.push held h
  | .empty, σ, held, _ => by
    rw [stmt, stmtFlow, Outcome.exits_done]
    rfl
  | .declare name type init, σ, held, _ => by
    rw [stmt, stmtFlow, Outcome.exits_ofEvaluated, Flow.walk, walk_optExprFlow,
      Exits.ofEvaluated_andThen]
    rfl
  | .expr e, σ, held, _ => by
    rw [stmt, stmtFlow, Outcome.exits_ofEvaluated, walk_exprFlow]
  | .ret value, σ, held, _ | .raise value, σ, held, _ => by
    rw [stmt, stmtFlow, Flow.walk, walk_optExprFlow, Exits.ofEvaluated_andThen]
    exact Outcome.exits_eq rfl rfl rfl Trace.append_empty.symm
  | .breakOut, σ, held, _ | .continueLoop, σ, held, _ => by
    exact Outcome.exits_eq rfl rfl rfl rfl
  | .ite condition thenArm elseArm, σ, held, h => by
    simp only [Stmt.loopsClosed, Bool.and_eq_true] at h
    have hl := w.locals_stmt thenArm σ (w.expr σ condition held).held h.1
    rw [stmt, stmtFlow, Flow.walk, walk_exprFlow, Exits.ofEvaluated_andThen, Flow.walk,
      ← walk_stmtFlow thenArm σ _ h.1, ← walk_stmtFlow elseArm (σ.after thenArm) _ h.2]
    simp only [hl, BodyScope.after_withLocals, Outcome.exits_after, Outcome.exits_orElse]
  | .whileLoop condition body, σ, held, h => by
    simp only [Stmt.loopsClosed, Bool.and_eq_true, Bool.not_eq_true'] at h
    rw [stmt, stmtFlow]
    refine (LoopPass.run_follows (fun head => ?_) held).2
    have hl := w.locals_stmt body σ (w.expr σ condition head).held h.2
    rw [BodyScope.after_of_closed body h.1] at hl
    rw [Flow.walk, walk_exprFlow]
    exact exitFirst_follows hl (walk_stmtFlow body σ _ h.2)
  | .doLoop body condition, σ, held, h => by
    simp only [Stmt.loopsClosed, Bool.and_eq_true, Bool.not_eq_true'] at h
    rw [stmt, stmtFlow]
    refine (LoopPass.run_follows (fun head => ?_) held).2
    have hl := w.locals_stmt body σ head h.2
    rw [BodyScope.after_of_closed body h.1] at hl
    simp only [BodyScope.withLocals_locals, hl]
    exact exitLast_follows hl (walk_stmtFlow body σ head h.2) (w.walk_exprFlow σ condition)
  | .forLoop init condition step body, σ, held, h => by
    simp only [Stmt.loopsClosed, Bool.and_eq_true, Bool.not_eq_true'] at h
    obtain ⟨hi, hb, hsb⟩ := h
    have hinit := walk_stmtsFlow init σ.push held hi
    have henter := (w.locals_stmts init σ.push held hi).2
    rw [stmt, stmtFlow, Flow.walk, ← hinit]
    cases he : (w.stmts σ.push init held).exit with
    | none => exact (Outcome.exits_andThen_of_none he _).symm
    | some held' =>
      rw [he] at henter
      dsimp only
      rw [Outcome.exits_leaveBlock, henter rfl]
      refine Outcome.exits_andThen he ?_
      refine (LoopPass.run_follows (fun head => ?_) held').2
      have hl := w.locals_stmt body (σ.push.afterAll init)
        (w.optExpr (σ.push.afterAll init) condition head).held hsb
      rw [BodyScope.after_of_closed body hb] at hl
      rw [Flow.walk, walk_optExprFlow]
      have hσ : σ.withLocals (σ.push.afterAll init).locals = σ.push.afterAll init :=
        σ.withLocals_afterAll init σ.locals.push
      simp only [hσ, Outcome.locals_after, hl, BodyScope.withLocals_locals]
      exact exitFirst_last_follows hl (walk_stmtFlow body _ _ hsb) (w.walk_exprsFlow _ step)
  | .foreachLoop name type iterable body, σ, held, h => by
    simp only [Stmt.loopsClosed, Bool.and_eq_true, Bool.not_eq_true'] at h
    rw [stmt, stmtFlow, Flow.walk, walk_exprFlow, Exits.ofEvaluated_andThen,
      Outcome.exits_leaveBlock, Outcome.exits_after]
    refine congrArg (Exits.after _) (LoopPass.run_follows (fun head => ?_) _).2
    have hl := w.locals_stmt body (σ.push.declare name type none)
      (Evaluated.rebind (.var name) head).held h.2
    rw [BodyScope.after_of_closed body h.1] at hl
    rw [Flow.walk]
    exact exitFirst_follows hl (walk_stmtFlow body (σ.push.declare name type none) _ h.2)
  | .switch scrutinee sections, σ, held, h => by
    have hs := walk_sectionsFlow sections σ (w.expr σ scrutinee held).held h
    rw [stmt, stmtFlow, Flow.walk, walk_exprFlow, Exits.ofEvaluated_andThen, Flow.walk]
    cases sections.any Section.isDefault with
    | true =>
      simp only [↓reduceIte, ← hs]
      exact Outcome.exits_eq rfl rfl rfl rfl
    | false =>
      simp only [Bool.false_eq_true, ↓reduceIte, Flow.walk, ← hs]
      refine Outcome.exits_eq ?_ rfl (List.append_nil _).symm ?_
      · exact congrArg (FlowState.joinAll _) (List.append_nil _).symm
      · exact congrArg (_ ++ ·) Trace.append_empty.symm
  | .tryCatch body catches finalizer, σ, held, h => by
    simp only [Stmt.loopsClosed, Bool.and_eq_true] at h
    obtain ⟨⟨hb, hc⟩, hf⟩ := h
    have hl := pop_of_enclosing (w.locals_stmts body σ.push held hb).1
    have hlc := w.locals_catches catches σ (w.stmts σ.push body held).leaveBlock
      ((w.stmts σ.push body held).leaveBlock.trace.floor held) hc hl
    have hbody := walk_stmtsFlow body σ.push held hb
    have hcatches := walk_catchesFlow catches σ (w.stmts σ.push body held).leaveBlock
      ((w.stmts σ.push body held).leaveBlock.trace.floor held) hc hl
    rw [stmt, stmtFlow]
    rw [hlc, BodyScope.withLocals_locals]
    have hfin (s : HeldSet) : (w.stmts σ.push finalizer s).leaveBlock.exits =
        (w.stmtsFlow σ.push finalizer).walk s := walk_stmtsFlow finalizer σ.push s hf
    refine (Outcome.exits_finalizing hfin).trans ?_
    rw [hcatches, Flow.walk, Flow.walk, ← hbody]
    rfl
  | .lock target body, σ, held, h => by
    rw [stmt, stmtFlow, Flow.walk, walk_exprFlow, Exits.ofEvaluated_andThen]
    cases (σ.place target).path with
    | none =>
      dsimp only
      rw [Outcome.exits_after, walk_stmtFlow body σ _ h]
    | some path =>
      dsimp only
      rw [Flow.walk]
      split
      · rw [Outcome.exits_after, walk_stmtFlow body σ _ h]
      · rw [Outcome.exits_after, Outcome.exits_releasing, walk_stmtFlow body σ _ h]

theorem walk_stmtsFlow : ∀ (body : List Stmt) (σ : BodyScope) (held : HeldSet),
    Stmt.allLoopsClosed body = true → (w.stmts σ body held).exits = (w.stmtsFlow σ body).walk held
  | [], σ, held, _ => by
    rw [stmts, stmtsFlow, Outcome.exits_done]
    rfl
  | s :: rest, σ, held, h => by
    simp only [Stmt.allLoopsClosed, Bool.and_eq_true] at h
    have hl := w.locals_stmt s σ held h.1
    rw [stmts, stmtsFlow, Flow.walk, ← walk_stmtFlow s σ held h.1]
    cases he : (w.stmt σ s held).exit with
    | none => exact (Outcome.exits_andThen_of_none he _).symm
    | some held' =>
      refine Outcome.exits_andThen he ?_
      rw [hl, BodyScope.after_withLocals]
      exact walk_stmtsFlow rest (σ.after s) held' h.2

theorem walk_sectionsFlow : ∀ (sections : List Section) (σ : BodyScope) (held : HeldSet),
    Section.allLoopsClosed sections = true →
      (w.sections σ sections held).exits = (w.sectionsFlow σ sections).walk held
  | [], σ, held, _ => by
    exact Outcome.exits_eq rfl rfl rfl rfl
  | .mk _ body :: rest, σ, held, h => by
    simp only [Section.allLoopsClosed, Bool.and_eq_true] at h
    have hl := pop_of_enclosing (w.locals_stmts body σ.push held h.1).1
    rw [sections, sectionsFlow, Flow.walk]
    simp only [Outcome.leaveBlock, hl, BodyScope.withLocals_locals]
    rw [Outcome.exits_orElse, ← walk_sectionsFlow rest σ held h.2, ← walk_stmtsFlow body σ.push held h.1]
    rfl

/-- The clauses of a `try` are walked as their flows are, after what comes before them. -/
theorem walk_catchesFlow : ∀ (catches : List Catch) (σ : BodyScope) (before : Outcome)
    (entry : HeldSet), Catch.allLoopsClosed catches = true → before.locals = σ.locals →
      (w.catches σ before catches entry).exits =
        before.exits.orElse ((w.catchesFlow σ catches).walk entry)
  | [], σ, before, entry, _, _ => by
    exact Outcome.exits_eq FlowState.join_none.symm (List.append_nil _).symm
      (List.append_nil _).symm Trace.append_empty.symm
  | .mk type none body :: rest, σ, before, entry, h, hb => by
    simp only [Catch.allLoopsClosed, Bool.and_eq_true] at h
    have hi := pop_of_enclosing (w.locals_stmts body σ.push.push entry h.1).1
    have hw := walk_stmtsFlow body σ.push.push entry h.1
    rw [catches, catchesFlow, Flow.walk, ← hw]
    refine (walk_catchesFlow rest σ _ entry h.2 ?_).trans ?_
    · rw [hb]
      exact congrArg Locals.pop hi
    · rw [hb, Outcome.exits_orElse, Exits.orElse_assoc]
      rfl
  | .mk type (some name) body :: rest, σ, before, entry, h, hb => by
    simp only [Catch.allLoopsClosed, Bool.and_eq_true] at h
    have hi := pop_of_enclosing (w.locals_stmts body (σ.push.declare name type none).push
      (Evaluated.rebind (.var name) entry).held h.1).1
    have hw := walk_stmtsFlow body (σ.push.declare name type none).push
      (Evaluated.rebind (.var name) entry).held h.1
    rw [catches, catchesFlow, Flow.walk, Flow.walk, Flow.walk, Exits.ofEvaluated_andThen, ← hw]
    refine (walk_catchesFlow rest σ _ entry h.2 ?_).trans ?_
    · rw [hb]
      exact congrArg Locals.pop hi
    · rw [hb, Outcome.exits_orElse, Exits.orElse_assoc]
      rfl

end

/-- The body of a method is walked as its flow is. -/
theorem walk_bodyFlow {σ : BodyScope} {body : List Stmt} (held : HeldSet)
    (h : Stmt.allLoopsClosed body = true) :
    (w.walk σ body held).exits = (w.bodyFlow σ body).walk held :=
  w.walk_stmtsFlow body σ.push held h

end WalkContext
end LockDiscipline
