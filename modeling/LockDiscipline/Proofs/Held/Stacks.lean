import LockDiscipline.Proofs.Held.BareNames
import LockDiscipline.Proofs.Held.LoopHeads
import LockDiscipline.Proofs.Held.Replays

/-! The stacks of a walk. In place, each statement is left from any walker as its outcome says, by
induction on the statement, with a `return` for the jumps that no frame around it takes. So a walker
leaves each block, loop, `switch` and `try` that it enters and nothing else, and its `try`s are in
order at each moment. -/

namespace LockDiscipline

namespace WalkContext

variable (w : WalkContext) {σ : BodyScope} {held : HeldSet}

theorem enclosing_rounds (loop : Loop) :
    (w.rounds σ loop held).locals.enclosing = σ.locals.enclosing :=
  (LoopPass.adds_run (fun l head => w.adds_pass (σ := σ.withLocals l) loop head) σ.locals
    held).enclosing

end WalkContext

namespace Walk

variable {m m' : Walker} {held : HeldSet} {o o' : Outcome} {e : Evaluated} {σ : BodyScope}
  {body : Stmt} {takes : Jump → Bool}

/-- From `m`, the walk is left as the outcome says of what is entered with `held`. -/
def LeftAs (walk : Walk FlowState) (m : Walker) (held : HeldSet) (o : Outcome) : Prop :=
  walk.Meets m (m.OrderedAt held) o.exit (m.after o)

variable (w : WalkContext)

/-- A statement in place is left as the statement is that returns where it has a jump to nothing. -/
def Follows (s : Stmt) : Prop :=
  ∀ (takes : Jump → Bool) (m : Walker) (held : HeldSet), m.frames.takes = takes →
    (stmt w s held).LeftAs m held (w.stmt m.scope (s.targeted takes) held)

def FollowsAll (body : List Stmt) : Prop :=
  ∀ (takes : Jump → Bool) (m : Walker) (held : HeldSet), m.frames.takes = takes →
    (stmts w body held).LeftAs m held (w.stmts m.scope (Stmt.targetedAll takes body) held)

variable {w}

theorem orderedAt_stmt {s : Stmt} {d : HeldSet} (h : m.OrderedAt held)
    (hd : (w.stmt σ s held).exit = some d ∨ d = held) : (m.after (w.stmt σ s held)).OrderedAt d :=
  WalkContext.orderedAt_left (a := ⟨σ, .stmt s, held⟩) h hd

theorem orderedAt_stmts (w : WalkContext) (σ : BodyScope) (body : List Stmt) {d : HeldSet}
    (h : m.OrderedAt held) (hd : (w.stmts σ body held).exit = some d ∨ d = held) :
    (m.after (w.stmts σ body held)).OrderedAt d :=
  WalkContext.orderedAt_left (a := ⟨σ, .stmts body, held⟩) h hd

variable {walk : Walk FlowState} {next : HeldSet → Walk FlowState}

theorem LeftAs.noted {s : Stmt} (h : walk.LeftAs m held (w.stmt σ s held)) :
    (Walk.noting held id walk).LeftAs m held (w.stmt σ s held) :=
  Meets.noting h id fun _ hs ho => orderedAt_stmt ho (.inl hs)

theorem LeftAs.of_eq (h : walk.LeftAs m held o) (ho : o = o') : walk.LeftAs m held o' := ho ▸ h

theorem leftAs_return {exit : FlowState} :
    (pure exit : Walk FlowState).LeftAs m held { locals := m.scope.locals, exit } := by
  have hm : m.after { locals := m.scope.locals, exit } = m := by
    have hjumps : Outcome.recordIn { locals := m.scope.locals, exit } m.frames = m.frames :=
      (Frames.record_congr fun j _ => by cases j <;> rfl).trans Frames.record_nothing
    rw [Walker.after_of_empty rfl rfl, hjumps]
  exact Meets.of_eq meets_pure rfl hm.symm

/-- What is evaluated for its effects. -/
theorem Evaluates.leftAs {walk : Walk HeldSet} {f : HeldSet → FlowState}
    (h : walk.Evaluates m held e) : (walk >>= fun s => pure (f s)).LeftAs m held
      { Outcome.ofEvaluated m.scope e with exit := f e.held } :=
  Meets.of_eq (.bind h.meets meets_pure) rfl Walker.after_ofEvaluated.symm

/-- What is done after an evaluation. -/
theorem LeftAs.eval {walk : Walk HeldSet} (h : walk.Evaluates m held e)
    (hnext : (next e.held).LeftAs (m.passed e.trace) e.held o) :
    (walk >>= next).LeftAs m held (o.after e.trace) :=
  Meets.of_eq (.eval h hnext) rfl Walker.went_after

/-- What is done at the end of a part, if it is reached. -/
theorem LeftAs.onward {outcome : HeldSet → Outcome} (h : walk.LeftAs m held o)
    (hend : m.OrderedAt held → ∀ s, o.exit = some s → (m.after o).OrderedAt s)
    (hnext : ∀ s, (next s).LeftAs (m.after o) s (outcome s)) :
    (walk >>= fun out => Walk.onward out next).LeftAs m held
      (o.exit.elim o fun s => o.andThen (outcome s)) := by
  refine .bind h ?_
  cases hexit : o.exit with
  | none => exact .of_eq meets_pure hexit.symm rfl
  | some s => exact .of_eq (.of_imp (hnext s) fun ho => hend ho s hexit) rfl Walker.after_after

/-- What is done after a part from the state before it. -/
theorem LeftAs.either {other : Walk FlowState} (h : walk.LeftAs m held o)
    (hagain : m.OrderedAt held → (m.after o).OrderedAt held)
    (hother : other.LeftAs (m.after o) held o') :
    (walk >>= fun a => other >>= fun b => pure (a.join b)).LeftAs m held (o.orElse o') :=
  .bind h (.of_eq (.bind (.of_imp hother hagain) meets_pure) rfl Walker.after_after_orElse)

/-- A block is walked with its own locals, which are gone behind it. -/
theorem LeftAs.inBlock (h : walk.LeftAs { m with scope := m.scope.push } held o)
    (henclosing : o.locals.enclosing = m.scope.push.locals.enclosing) :
    (Walk.inBlock walk).LeftAs m held o.leaveBlock := by
  have hsome : o.locals.enclosing ≠ [] := henclosing ▸ List.cons_ne_nil _ _
  exact .bind meets_modify (.bind (Meets.of_imp h fun ho => ho.of_stacks rfl rfl)
    (.bind (meets_leaveBlock hsome) meets_pure))

theorem FollowsAll.inBlock {body : List Stmt} (h : FollowsAll w body) (takes : Jump → Bool)
    (m : Walker) (held : HeldSet) (htakes : m.frames.takes = takes) :
    (block held (stmts w body held)).LeftAs m held
      (w.stmts m.scope.push (Stmt.targetedAll takes body) held).leaveBlock := by
  have hbody := h takes { m with scope := m.scope.push } held htakes
  have henclosing := w.enclosing_stmts (Stmt.targetedAll takes body) m.scope.push held
  refine Meets.noting (hbody.inBlock henclosing) id fun s hs ho => ?_
  exact (orderedAt_stmts _ _ _ ho (.inl hs)).of_stacks rfl rfl

theorem LeftAs.declare {name : String} {type : Option String} {init : Option Expr}
    (h : walk.LeftAs { m with scope := m.scope.declare name type init } held o) :
    (Walk.declare name type init >>= fun _ => walk).LeftAs m held o :=
  .bind meets_modify (Meets.of_imp h fun ho => ho.of_stacks rfl rfl)

/-- A clause goes on with its variable bound. -/
theorem LeftAs.bindCaught {name : String} {type : Option String}
    (h : (next (Evaluated.rebind (.var name) held).held).LeftAs
      (Walker.passed { m with scope := m.scope.declare name type none }
        (Evaluated.rebind (.var name) held).trace) (Evaluated.rebind (.var name) held).held o) :
    (Walk.bindCaught type (some name) held >>= next).LeftAs m held
      (o.after (Evaluated.rebind (.var name) held).trace) := by
  have hrebind := evaluates_rebind { m with scope := m.scope.declare name type none } held
    (.var name)
  have hordered (ho : m.OrderedAt held) := hrebind.ordered (ho.of_stacks rfl rfl)
  have hbind : (Walk.bindCaught type (some name) held).Meets m (m.OrderedAt held) _ _ :=
    .bind meets_modify (.of_imp hrebind.meets fun ho => ho.of_stacks rfl rfl)
  exact .bind hbind (.of_eq (.of_imp h hordered) rfl Walker.went_after)

/-- A jump is recorded where it is taken. -/
theorem leftAs_jump {j : Jump} (hl : o.locals = m.scope.locals) (hexit : o.exit = none)
    (ht : o.trace = {})
    (hjumps : ∀ k, m.frames.takes k = true → (if k = j then [held] else []) = o.exits.jumps k) :
    (jump j held).LeftAs m held o := by
  refine Meets.of_eq (meets_modify.bind meets_pure) hexit.symm ?_
  rw [Walker.after_of_empty hl ht, Frames.record_congr hjumps]
  rfl

theorem Follows.inLoop (h : Follows w body) (m : Walker) (held : HeldSet) :
    let o := w.stmt m.scope body held
    (loopBody (stmt w body held)).Meets m (m.OrderedAt held) (o.exit, ⟨true, o.exits.jumps⟩)
      (m.went o.locals o.trace) := by
  have hbody := h _ { m with frames := m.frames.enter true } held Frames.takes_enter_loop
  rw [Stmt.targeted_true] at hbody
  exact meets_loopBody (hbody.of_imp .enterFrame)

theorem passesThrough_whileLoop (h : Follows w body) (condition : Expr) :
    PassesThrough w (.whileLoop condition body) (whilePass w condition (stmt w body)) := by
  intro m head p
  exact .of_eq (.eval (evaluates_expr w condition m head) (.bind (h.inLoop _ _) meets_pure)) rfl
    Walker.passed_went

theorem passesThrough_foreachLoop (h : Follows w body) (name : String) :
    PassesThrough w (.foreachLoop name body) (foreachPass name (stmt w body)) := by
  intro m head p
  exact .of_eq (.eval (evaluates_rebind _ _ _) (.bind (h.inLoop _ _) meets_pure)) rfl
    Walker.passed_went

/-- What is evaluated on the way back to the head of a loop. -/
theorem meets_tail {ordered : Prop} {tail : HeldSet → Walk HeldSet} {tail' : HeldSet → Evaluated}
    (back : FlowState) (htail : ∀ s, (tail s).Evaluates m s (tail' s))
    (hback : ∀ s, back = some s → ordered → m.OrderedAt s) :
    (onward back fun held => tail held >>= fun held => pure (some held)).Meets m ordered
      ((back.map tail').map (·.held)) (m.passed ((back.map tail').map (·.trace) |>.getD {})) := by
  cases back with
  | none => exact .of_eq meets_pure rfl Walker.passed_empty.symm
  | some s => exact .of_imp (.eval (htail s) meets_pure) (hback s rfl)

theorem orderedAt_back {s : Stmt} (ho : m.OrderedAt held) :
    let o := w.stmt m.scope s held
    ∀ s, o.exit.joinAll o.continues = some s → (m.went o.locals o.trace).OrderedAt s := by
  intro o s hs
  refine ho.went fun p hp hkeeps => ?_
  have hcarries : o.Carries p :=
    WalkContext.carries_of_keeps (a := ⟨m.scope, .stmt _, held⟩) hp hkeeps
  exact (FlowState.holds_joinAll.2 ⟨hcarries.exit, hcarries.continues⟩).mem hs

theorem passesThrough_doLoop (h : Follows w body) (condition : Expr) :
    PassesThrough w (.doLoop body condition) (doPass w (stmt w body) condition) := by
  intro m head p
  exact .of_eq (.bind (h.inLoop m head) (.bind
    (meets_tail _ (fun s => evaluates_expr w condition _ s) fun s hs ho => orderedAt_back ho s hs)
    meets_pure)) rfl Walker.went_passed

theorem passesThrough_forLoop (h : Follows w body) (condition : Option Expr) (step : List Expr) :
    PassesThrough w (.forLoop condition step body) (forPass w condition step (stmt w body)) := by
  intro m head p
  refine .of_eq (.eval (evaluates_optExpr w condition m head) (.bind (h.inLoop _ _) (.bind
    (meets_tail _ (fun s => evaluates_exprs w step _ s) fun s hs ho => orderedAt_back ho s hs)
    meets_pure))) rfl ?_
  rw [Walker.passed_went, Walker.went_passed]
  rfl

def FollowsSections (w : WalkContext) (l : List Section) : Prop :=
  ∀ (takes : Jump → Bool) (m : Walker) (held : HeldSet) (exit : FlowState), m.frames.takes = takes →
    let o := w.sections m.scope (Section.targetedAll takes l) held
    (switchSections w l held exit).Meets m (m.OrderedAt held) (exit.join o.exit) (m.after o)

def FollowsClauses (w : WalkContext) (l : List Catch) : Prop :=
  ∀ (takes : Jump → Bool) (m : Walker) (entry : HeldSet) (normal : FlowState),
    m.frames.takes = takes →
    let o := w.catches m.scope (.unreached m.scope.locals) (Catch.targetedAll takes l) entry
    (clauses w l entry normal).Meets m (m.OrderedAt entry) (normal.join o.exit) (m.after o)

theorem LeftAs.get {next : Walker → Walk FlowState} (h : (next m).LeftAs m held o) :
    (Walk.get >>= next).LeftAs m held o :=
  .bind meets_get h

/-- Where a lock is taken, it is freed in all jumps that are recorded meanwhile. -/
theorem leftAs_locked (h : Follows w body) (path : Option LockPath)
    (htakes : m.frames.takes = takes) : (locked (stmt w body) held path).LeftAs m held
      (path.elim (w.stmt m.scope (body.targeted takes) held) fun path =>
        if path ∈ held then w.stmt m.scope (body.targeted takes) held
        else (w.stmt m.scope (body.targeted takes) (held.insert path)).releasing path) := by
  cases path with
  | none => exact h takes m held htakes
  | some path =>
    rw [locked, Option.elim_some]
    split
    · exact h takes m held htakes
    · have hinsert (ho : m.OrderedAt held) : m.OrderedAt (held.insert path) :=
        ho.mono fun p hp => OrderedSet.mem_insert.2 (.inr hp)
      exact .bind meets_jumpMarks (.bind (.of_imp (h takes m _ htakes) hinsert) (.bind meets_modify
        (.of_eq meets_pure rfl Walker.after_releasing.symm)))

/-- A clause is left as its outcome says, and the clauses after it as theirs do. -/
theorem FollowsClauses.cons {rest : List Catch} {clause : Walk FlowState} {entry : HeldSet}
    {normal : FlowState} (hrest : FollowsClauses w rest) (hclause : clause.LeftAs m entry o)
    (hagain : m.OrderedAt entry → (m.after o).OrderedAt entry) (htakes : m.frames.takes = takes) :
    let others := w.catches (m.scope.withLocals o.locals) (.unreached o.locals)
      (Catch.targetedAll takes rest) entry
    (note entry >>= fun _ => clause >>= fun out => clauses w rest entry (normal.join out)).Meets m
      (m.OrderedAt entry) (normal.join (o.orElse others).exit) (m.after (o.orElse others)) := by
  have hothers := hrest takes (m.after o) entry (normal.join o.exit)
    (Walker.takes_after.trans htakes)
  exact .bind meets_note (.bind hclause (.of_imp (.of_eq hothers FlowState.join_assoc
    Walker.after_after_orElse) hagain))

theorem meets_finalize {finalizer : List Stmt} (h : FollowsAll w finalizer)
    (htakes : m.frames.takes = takes) (held : HeldSet) :
    let o := w.stmts m.scope.push (Stmt.targetedAll takes finalizer) held
    (finalize (block held (stmts w finalizer held))).Meets m (m.OrderedAt held) o.exit
      (m.passed o.trace) := by
  intro o
  have hpop : o.locals.pop = m.scope.locals :=
    WalkContext.pop_of_enclosing (w.enclosing_stmts _ m.scope.push held)
  have hm : { m.after o.leaveBlock with
      frames := (o.leaveBlock.recordIn m.frames).upTo m.frames.marks } = m.passed o.trace := by
    rw [Outcome.recordIn, Frames.upTo_record, Walker.passed, ← hpop]
    rfl
  exact .bind meets_jumpMarks (.bind (h.inBlock takes m held htakes) (.bind meets_modify
    (.of_eq meets_pure rfl hm)))

theorem replays_finalize {finalizer : List Stmt} (h : FollowsAll w finalizer) (σ : BodyScope)
    (takes : Jump → Bool) :
    Replays (fun s => silently (finalize (block s (stmts w finalizer s))))
      (fun s => (w.stmts σ.push (Stmt.targetedAll takes finalizer) s).leaveBlock) σ takes where
  meets m s hscope htakes := by
    subst hscope
    have hfinalize := meets_finalize (m := { m with reporting := false }) h htakes s
    exact meets_silently (hfinalize.of_imp fun ho => ho.of_stacks rfl rfl)
  kept s d hexit p hp hkeeps :=
    (WalkContext.carries_of_keeps (w := w) (a := ⟨σ.push, .stmts _, s⟩) hp hkeeps).exit.mem hexit

/-- The body of a `try` and its clauses are left as the `try` is up to its `finally` block. -/
theorem meets_handle {body : List Stmt} {catches : List Catch} (hbody : FollowsAll w body)
    (hcatches : FollowsClauses w catches) (htakes : m.frames.takes = takes) :
    let body' := Stmt.targetedAll takes body
    let catches' := Catch.targetedAll takes catches
    let o := w.handled m.scope body' catches' held
    (handle (stmts w body) (clauses w catches) held).Meets m (m.OrderedAt held)
      (o.exit, w.exceptionalEntry m.scope body' catches' held) (m.after o) := by
  intro body' catches' o
  let opened (m : Walker) : Walker := { m with tries := ⟨held, m.frames.recorded⟩ :: m.tries }
  let b := (w.stmts m.scope.push body' held).leaveBlock
  let entry := w.handlerEntry m.scope body' held
  let c := w.catches (m.scope.withLocals b.locals) (.unreached b.locals) catches' entry
  have ho : o = b.orElse c := w.handled_eq_orElse
  have htried := hbody.inBlock takes (opened (opened m)) held htakes
  have hcaught := hcatches takes ((opened m).after b) entry b.exit (Walker.takes_after.trans htakes)
  have hopened (h : m.OrderedAt held) : (opened (opened m)).OrderedAt held := h.enterTry.enterTry
  -- The clauses start where all points of the body are above what the inner `try` has seen.
  have hentry (h : m.OrderedAt held) : ((opened m).after b).OrderedAt entry := by
    have hend : ((opened (opened m)).after b).OrderedAt held :=
      (orderedAt_stmts _ _ _ (hopened h) (.inr rfl)).of_stacks rfl rfl
    exact hend.leaveTry rfl
  have hexceptional : c.trace.floor entry = w.exceptionalEntry m.scope body' catches' held := by
    rw [WalkContext.exceptionalEntry, WalkContext.trace_handled, Trace.floor_append]
    rfl
  refine .bind meets_modify (.bind meets_modify (.bind (.of_imp htried hopened)
    (.bind (meets_leaveTry rfl) (.bind (.of_imp hcaught hentry) (.bind (meets_leaveTry rfl)
      (.of_eq meets_pure ?_ ?_))))))
  · rw [ho, ← hexceptional]
    rfl
  · rw [ho]
    change (m.after b).after c = _
    exact Walker.after_after_orElse

/-- What leaves the parts before a `finally` block goes through the block, each jump as it waits. -/
theorem meets_finish {finalizer : List Stmt} (h : FollowsAll w finalizer) {exceptional : HeldSet}
    (htakes : m.frames.takes = takes) (hgone : ∀ j, takes j = false → o.exits.jumps j = []) :
    let σ := m.scope.withLocals o.locals
    let run s := (w.stmts σ.push (Stmt.targetedAll takes finalizer) s).leaveBlock
    let start := o.exit.elim exceptional (·.inter exceptional)
    (finish (stmts w finalizer) m.frames.marks o.exit exceptional).Meets (m.after o)
      (∀ s ∈ start :: o.waysOut, (m.after o).OrderedAt s) (o.finalizing run start).exit
        (m.after (o.finalizing run start)) := by
  intro σ run start
  let fs := o.recordIn m.frames
  have htakes' : fs.takes = takes := Walker.takes_after.trans htakes
  have hlength : fs.length = m.frames.marks.length :=
    Frames.length_record.trans (List.length_map _).symm
  have hmem (s : HeldSet) : s ∈ o.waysOut ↔ (∃ j, s ∈ o.exits.jumps j) ∨ o.exit = some s :=
    Exits.mem_waysOut (o := o.exits)
  -- A jump that nothing takes would not be replayed.
  have hsince (s : HeldSet) : s ∈ fs.since m.frames.marks ↔ ∃ j, s ∈ o.exits.jumps j :=
    Outcome.mem_since_recordIn fun j hj => hgone j (htakes ▸ hj)
  let entered := (m.after o).passed (run start).trace
  have hframes : entered.frames = [] ++ fs := rfl
  have hrun := replays_finalize h σ takes
  have hentry := meets_finalize (m := m.after o) h htakes' start
  obtain ⟨t, ht, hjumps⟩ := hrun.rewriteJumps hlength rfl htakes' hframes
  let left : Walker := { entered.passed t with
    frames := fs.rewriteSince (fun s => (run s).exit) m.frames.marks }
  obtain ⟨t', ht', hend⟩ := hrun.onward (m := left) rfl
    ((Frames.takes_rewriteSince hlength).trans htakes') o.exit
  have hcovers : Covers run o.waysOut (t ++ t') := (ht.append ht').congr fun s => by
    rw [List.mem_append, hsince, Option.mem_toList, hmem]
  have hordered (ho : ∀ s ∈ start :: o.waysOut, (m.after o).OrderedAt s) :
      ∀ s ∈ fs.since m.frames.marks, entered.OrderedAt s := fun s hs =>
    (ho s (List.mem_cons_of_mem _ ((hmem s).2 (.inl ((hsince s).1 hs))))).passed
  refine .bind (.of_imp hentry fun ho => ho start List.mem_cons_self) (.bind
    (.of_imp hjumps hordered) (.of_eq (.of_imp hend fun ho s hs => ?_) ?_ ?_))
  · exact ht.orderedAt_rewriteSince hrun.kept (hordered ho) hlength hframes
      (ho s (List.mem_cons_of_mem _ ((hmem s).2 (.inr hs)))).passed
  · exact Outcome.exit_finalizing.symm
  · rw [hcovers.after_finalizing, ← Walker.passed_passed, ← Walker.passed_passed]
    rfl

/-- A `try` in place is left as its parts are, each followed by what comes after it. -/
theorem leftAs_tryParts {body : List Stmt} {catches : List Catch} {finalizer : List Stmt}
    (hbody : FollowsAll w body) (hcatches : FollowsClauses w catches)
    (hfinalizer : FollowsAll w finalizer) (htakes : m.frames.takes = takes) :
    (tryParts (stmts w body) (clauses w catches) (stmts w finalizer) held).LeftAs m held
      (w.stmt m.scope (.tryCatch (Stmt.targetedAll takes body) (Catch.targetedAll takes catches)
        (Stmt.targetedAll takes finalizer)) held) := by
  let body' := Stmt.targetedAll takes body
  let catches' := Catch.targetedAll takes catches
  let o := w.handled m.scope body' catches' held
  have hgone (j : Jump) (hj : takes j = false) : o.exits.jumps j = [] :=
    w.jumps_handled (w.jumps_targetedAll body j _ held hj)
      fun σ entry => w.jumps_catches_targetedAll catches j σ entry hj
  have hordered (ho : m.OrderedAt held) :
      ∀ s ∈ w.finallyEntry m.scope body' catches' held :: o.waysOut, (m.after o).OrderedAt s := by
    refine fun s hs => ho.after (fun p hp hkeeps => ?_)
      fun p hp hkeeps => (WalkContext.carries_handled hp hkeeps).jumps
    have hcarries : o.Carries p := WalkContext.carries_handled hp hkeeps
    rcases List.mem_cons.1 hs with rfl | hs
    · exact hcarries.exit.elim_inter (Trace.mem_floor.2 ⟨hp, hkeeps⟩)
    · exact hcarries.waysOut s hs
  rw [WalkContext.stmt_tryCatch]
  exact .bind meets_jumpMarks (.bind (meets_handle hbody hcatches htakes)
    (.of_imp (meets_finish hfinalizer htakes hgone) hordered))

mutual

/-- A statement in place is left as the statement is that returns where it has a jump to nothing. -/
theorem follows_stmt (w : WalkContext) : ∀ s : Stmt, Follows w s
  | .block body, takes, m, held, ht => by
    rw [stmt, Stmt.targeted]
    refine .noted ?_
    rw [WalkContext.stmt]
    exact (follows_stmts w body).inBlock takes m held ht
  | .empty, takes, m, held, ht => by
    rw [stmt, Stmt.targeted]
    exact .noted leftAs_return
  | .declare name type init, takes, m, held, ht => by
    rw [stmt, Stmt.targeted]
    refine .noted ?_
    rw [WalkContext.stmt]
    exact .of_eq (.eval (evaluates_optExpr w init m held)
      (.declare (evaluates_rebind _ _ _).leftAs)) rfl
  | .expr e, takes, m, held, ht => by
    rw [stmt, Stmt.targeted]
    refine .noted ?_
    rw [WalkContext.stmt]
    exact (evaluates_expr w e m held).leftAs
  | .ret value, takes, m, held, ht | .raise value, takes, m, held, ht => by
    rw [stmt, Stmt.targeted]
    refine .noted ?_
    rw [WalkContext.stmt]
    exact (evaluates_optExpr w value m held).leftAs
  | .breakOut, takes, m, held, ht | .continueLoop, takes, m, held, ht => by
    rw [stmt, Stmt.targeted]
    refine .noted ?_
    split
    · next htaken =>
      rw [WalkContext.stmt]
      exact leftAs_jump rfl rfl rfl fun k _ => by cases k <;> rfl
    · next htaken =>
      rw [WalkContext.stmt]
      refine leftAs_jump rfl rfl rfl fun k hk => ?_
      rw [ht] at hk
      cases k with
      | breakOut | continueLoop => first | rfl | exact absurd hk htaken
  | .ite condition thenArm elseArm, takes, m, held, ht => by
    rw [stmt, Stmt.targeted]
    refine .noted ?_
    rw [WalkContext.stmt]
    exact .eval (evaluates_expr w condition m held) (.either (follows_stmt w thenArm takes _ _ ht)
      (fun ho => orderedAt_stmt ho (.inr rfl))
      (follows_stmt w elseArm takes _ _ (Walker.takes_after.trans ht)))
  | .whileLoop condition body, takes, m, held, ht => by
    rw [stmt, Stmt.targeted]
    refine .noted ?_
    rw [WalkContext.stmt_whileLoop]
    exact meets_runLoop (passesThrough_whileLoop (follows_stmt w body) condition) m held
  | .doLoop body condition, takes, m, held, ht => by
    rw [stmt, Stmt.targeted]
    refine .noted ?_
    rw [WalkContext.stmt_doLoop]
    exact meets_runLoop (passesThrough_doLoop (follows_stmt w body) condition) m held
  | .forLoop init condition step body, takes, m, held, ht => by
    rw [stmt, Stmt.targeted]
    refine .noted ?_
    rw [WalkContext.stmt_forLoop]
    refine LeftAs.inBlock (.onward (follows_stmts w init takes _ held ht)
      (fun ho s hs => orderedAt_stmts _ _ _ ho (.inl hs))
      fun s => meets_runLoop (passesThrough_forLoop (follows_stmt w body) condition step) _ s) ?_
    have hinit := w.enclosing_stmts (Stmt.targetedAll takes init) m.scope.push held
    cases (w.stmts m.scope.push (Stmt.targetedAll takes init) held).exit with
    | none => exact hinit
    | some s => exact (w.enclosing_rounds _).trans hinit
  | .foreachLoop name type iterable body, takes, m, held, ht => by
    rw [stmt, Stmt.targeted]
    refine .noted ?_
    rw [WalkContext.stmt_foreachLoop]
    have hloop := passesThrough_foreachLoop (follows_stmt w body) name
    refine .of_eq (.eval (evaluates_expr w iterable m held)
      (LeftAs.inBlock (.declare (meets_runLoop hloop _ _)) (w.enclosing_rounds _))) rfl
  | .switch scrutinee sections, takes, m, held, ht => by
    let e := w.expr m.scope scrutinee held
    let sections' := Section.targetedAll (Jump.takenInSwitch takes) sections
    let s := w.sections m.scope sections' e.held
    let o := w.stmt m.scope (.switch scrutinee sections') held
    have hsections := follows_sections w sections _
      { m.passed e.trace with frames := m.frames.enter false } e.held none
      (Frames.takes_enter_switch.trans (congrArg _ ht))
    have hframes : s.recordIn (m.frames.enter false) = _ :: o.recordIn m.frames := w.recordIn_switch
    have hafter : m.after o =
        { m.went s.locals (e.trace ++ s.trace) with frames := o.recordIn m.frames } := by
      rw [Walker.after]
      simp only [o, WalkContext.stmt]
      rfl
    rw [stmt, Stmt.targeted]
    refine .noted (Meets.of_eq (.eval (evaluates_expr w scrutinee m held) (.bind meets_modify (.bind
      (.of_imp hsections .enterFrame) (.bind (meets_leaveFrame hframes) meets_pure)))) ?_ ?_)
    · rw [WalkContext.stmt, ← Section.any_isDefault_targetedAll]
      rfl
    · refine Eq.trans ?_ hafter.symm
      rw [← Walker.passed_went]
      rfl
  | .tryCatch body catches finalizer, takes, m, held, ht => by
    rw [stmt, Stmt.targeted]
    exact .noted (leftAs_tryParts (follows_stmts w body) (follows_clauses w catches)
      (follows_stmts w finalizer) ht)
  | .lock target body, takes, m, held, ht => by
    rw [stmt, Stmt.targeted]
    refine .noted ?_
    refine .of_eq (.eval (evaluates_expr w target m held) (.get (leftAs_locked
      (follows_stmt w body) (m.scope.place target).path ht))) ?_
    rw [WalkContext.stmt]
    cases (m.scope.place target).path with
    | none => rfl
    | some path =>
      dsimp only [Option.elim_some]
      split <;> rfl

theorem follows_stmts (w : WalkContext) : ∀ body : List Stmt, FollowsAll w body
  | [], takes, m, held, ht => by
    rw [stmts, Stmt.targetedAll, WalkContext.stmts]
    exact leftAs_return
  | s :: rest, takes, m, held, ht => by
    rw [stmts, Stmt.targetedAll, WalkContext.stmts]
    refine .of_eq (.onward (follows_stmt w s takes m held ht)
      (fun ho s hs => orderedAt_stmt ho (.inl hs))
      fun s => follows_stmts w rest takes _ s (Walker.takes_after.trans ht)) ?_
    cases (w.stmt m.scope (s.targeted takes) held).exit <;> rfl

theorem follows_sections (w : WalkContext) : ∀ l : List Section, FollowsSections w l
  | [], takes, m, held, exit, ht => by
    rw [switchSections, Section.targetedAll, WalkContext.sections]
    exact .of_eq leftAs_return FlowState.join_none.symm rfl
  | .mk _ body :: rest, takes, m, held, exit, ht => by
    rw [switchSections, Section.targetedAll, WalkContext.sections]
    have hbody := (follows_stmts w body).inBlock takes m held ht
    refine .bind hbody (.of_imp (.of_eq (follows_sections w rest takes _ held _
      (Walker.takes_after.trans ht)) FlowState.join_assoc Walker.after_after_orElse) ?_)
    exact fun ho => (orderedAt_stmts _ _ _ ho (.inr rfl)).of_stacks rfl rfl

theorem follows_clauses (w : WalkContext) : ∀ l : List Catch, FollowsClauses w l
  | [], takes, m, entry, normal, ht => by
    rw [clauses, Catch.targetedAll, WalkContext.catches]
    exact .of_eq leftAs_return FlowState.join_none.symm rfl
  | .mk type name body :: rest, takes, m, entry, normal, ht => by
    rw [clauses, Catch.targetedAll]
    cases name with
    | none =>
      have henclosing := w.enclosing_stmts (Stmt.targetedAll takes body) m.scope.push.push entry
      have hpop := WalkContext.pop_of_enclosing henclosing
      rw [WalkContext.catches_cons_none]
      refine (follows_clauses w rest).cons (.inBlock (.bind meets_pure
        ((follows_stmts w body).inBlock takes _ entry ht)) (congrArg _ hpop)) (fun ho => ?_) ht
      exact (orderedAt_stmts _ _ _ ho (.inr rfl)).of_stacks rfl rfl
    | some name =>
      let inner := m.scope.push.declare name type none
      let bound := Evaluated.rebind (.var name) entry
      have hpop := WalkContext.pop_of_enclosing
        (w.enclosing_stmts (Stmt.targetedAll takes body) inner.push bound.held)
      have henclosing := congrArg Locals.enclosing hpop
      rw [WalkContext.catches_cons_some]
      refine (follows_clauses w rest).cons (.inBlock (.bindCaught
        ((follows_stmts w body).inBlock takes _ _ ht)) henclosing) (fun ho => ?_) ht
      -- The clause goes on below the entry, once its variable is bound.
      have hbound := (evaluates_rebind _ _ (.var name)).ordered ho
      have hbody := orderedAt_stmts w inner.push (Stmt.targetedAll takes body) hbound (.inr rfl)
      rw [Walker.passed_after] at hbody
      refine (hbody.mono fun p hp => ?_).of_stacks rfl rfl
      rw [Evaluated.held_rebind] at hp
      exact (HeldSet.mem_invalidate.1 hp).1

end

theorem mem_moments_stmt {w : WalkContext} {s : Stmt} {out : FlowState} {moments : List Moment}
    (h : stmt w s held m = some ⟨out, m', moments⟩) :
    ⟨held, m⟩ ∈ moments ∧ ∀ d, out = some d → ⟨d, m'⟩ ∈ moments := by
  have hnoting : ∃ walk : Walk FlowState, stmt w s held = noting held id walk := by
    cases s <;> exact ⟨_, by rw [stmt]⟩
  obtain ⟨walk, hwalk⟩ := hnoting
  rw [hwalk] at h
  have hends := mem_moments_noting h
  exact hends

/-- The stacks of a walker stay balanced and in order. From any walker, a statement is walked to an
end, so that nothing is taken from a stack that is empty. The blocks around the statement, the
frames and the open `try`s are then as many as before, and the jumps recorded before are as they
were. If the `try`s are in order where the statement is entered, they are at each moment of its
walk, its start and its end among them: what a `try` has seen held all along was so along those
inside of it, is held at the moment, and is held at each jump recorded since that waits, also once
this was taken out of `lock`s and through `finally` blocks. The walk of a body starts with nothing
entered. It is left as the body is that returns where it has a jump to nothing, with the same
accesses. -/
theorem stacks_balanced_and_ordered (w : WalkContext) :
    (∀ (s : Stmt) (held : HeldSet) (m : Walker), ∃ out m' moments,
      stmt w s held m = some ⟨out, m', moments⟩ ∧
      m'.scope.locals.enclosing = m.scope.locals.enclosing ∧
      m'.frames.length = m.frames.length ∧ m'.tries.length = m.tries.length ∧
      m'.frames.upTo m.frames.marks = m.frames ∧
      (⟨held, m⟩ ∈ moments ∧ ∀ d, out = some d → ⟨d, m'⟩ ∈ moments) ∧
      (m.OrderedAt held → ∀ x ∈ moments, x.walker.OrderedAt x.held)) ∧
    ∀ (σ : BodyScope) (body : List Stmt) (held : HeldSet),
      let o := w.walk σ (Stmt.targetedAll (fun _ => false) body) held
      ∃ moments, block held (stmts w body held) { scope := σ } =
          some ⟨o.exit, { scope := σ, accesses := o.trace.accesses }, moments⟩ ∧
        ∀ x ∈ moments, x.walker.OrderedAt x.held := by
  refine ⟨fun s held m => ?_, fun σ body held => ?_⟩
  · let o := w.stmt m.scope (s.targeted m.frames.takes) held
    obtain ⟨moments, hwalk, hordered⟩ := follows_stmt w s m.frames.takes m held rfl
    have henclosing : o.locals.enclosing = m.scope.locals.enclosing :=
      (w.adds_stmt (s.targeted m.frames.takes) m.scope held).enclosing
    exact ⟨o.exit, m.after o, moments, hwalk, henclosing, Frames.length_record, List.length_map _,
      Frames.upTo_record, mem_moments_stmt hwalk, hordered⟩
  · let o := w.walk σ (Stmt.targetedAll (fun _ => false) body) held
    let m : Walker := { scope := σ }
    obtain ⟨moments, hwalk, hordered⟩ := (follows_stmts w body).inBlock (fun _ => false) m held rfl
    have hlocals : o.locals = σ.locals :=
      WalkContext.pop_of_enclosing (w.enclosing_stmts (Stmt.targetedAll _ body) σ.push held)
    have hm : m.after o = { scope := σ, accesses := o.trace.accesses } := by
      rw [Walker.after, Walker.went, hlocals]
      rfl
    have hstart : m.OrderedAt held :=
      ⟨.nil, List.forall_mem_nil _, List.forall_mem_nil _⟩
    exact ⟨moments, hm ▸ hwalk, hordered hstart⟩

/-- A loop that a walker is not inside of cannot be left. -/
example (σ : BodyScope) : leaveFrame { scope := σ } = none := rfl

end Walk

end LockDiscipline
