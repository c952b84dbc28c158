import Mathlib.Logic.Relation
import LockDiscipline.Proofs.Held.Merge

/-! The points of a walk. The walk of a part of a body is made of walks of smaller parts, each from
the state that those before it left; a loop goes round from a smaller head. So there is no endless
descent, and a walk comes to its end however loops and `finally` blocks are nested. -/

namespace LockDiscipline

/-- A loop, past what is done before its first round. -/
inductive Loop where
  | whileLoop (condition : Expr) (body : Stmt)
  | doLoop (body : Stmt) (condition : Expr)
  | forLoop (condition : Option Expr) (step : List Expr) (body : Stmt)
  | foreachLoop (name : String) (body : Stmt)

/-- What a walk does from a point on. -/
inductive Task where
  | change (effect : LockEffect) (path : LockPath)
  | rebind (place : LockPath)
  | bindings (receiver : Option LockPath) (args : List (Option LockPath)) (bs : List LockBinding)
  | expr (e : Expr)
  | exprs (es : List Expr)
  | stmt (s : Stmt)
  | stmts (body : List Stmt)
  | sections (l : List Section)
  | catches (l : List Catch)
  /-- One pass through a loop, from its head. -/
  | pass (loop : Loop)
  /-- The passes that find the head, and the last one. -/
  | rounds (loop : Loop)

/-- A point of a walk: the locals and the locks with which a task is entered. -/
structure Point where
  scope : BodyScope
  task : Task
  held : HeldSet

@[simp] theorem BodyScope.locals_withLocals (σ : BodyScope) (l : Locals) :
    (σ.withLocals l).locals = l := rfl

namespace Outcome

/-- No way out, of a part that does not exist. -/
def unreached (l : Locals) : Outcome := { locals := l, exit := none }

variable {a b c : Outcome} {σ : BodyScope}

@[simp] theorem trace_ofEvaluated {e : Evaluated} : (ofEvaluated σ e).trace = e.trace := rfl

@[simp] theorem trace_leaveBlock : a.leaveBlock.trace = a.trace := rfl

@[simp] theorem trace_after {before : Trace} : (a.after before).trace = before ++ a.trace := rfl

@[simp] theorem trace_andThen : (a.andThen b).trace = a.trace ++ b.trace := rfl

@[simp] theorem trace_orElse : (a.orElse b).trace = a.trace ++ b.trace := rfl

@[simp] theorem trace_releasing {path : LockPath} : (a.releasing path).trace = a.trace := rfl

theorem unreached_orElse {l : Locals} : (unreached l).orElse a = a := rfl

theorem orElse_unreached : a.orElse (unreached a.locals) = a := by
  simp [orElse, andThen, unreached]

theorem orElse_assoc : (a.orElse b).orElse c = a.orElse (b.orElse c) := by
  simp [orElse, andThen, FlowState.join_assoc, Trace.append_assoc]

end Outcome

namespace LoopPass

/-- The ways out of a pass: out of the loop, and back to its head. -/
def outcome (p : LoopPass) : Outcome :=
  { locals := p.locals, exit := p.exit, continues := p.back.toList, trace := p.trace }

theorem mem_nextHead {p : LoopPass} {head : HeldSet} {q : LockPath} :
    q ∈ p.nextHead head ↔ q ∈ head ∧ p.back.Holds q := by
  unfold nextHead
  cases p.back with
  | none => simp
  | some back => simp

variable (pass : Locals → HeldSet → LoopPass) {l : Locals} {head : HeldSet}

/-- A loop whose head is found is gone through once more, in the locals that the pass leaves. -/
theorem run_of_stable (h : (pass l head).nextHead head = head) : run pass l head =
    let last := pass (pass l head).locals head
    { locals := last.locals, exit := last.exit,
      trace := (pass l head).trace.silent ++ last.trace } := by
  rw [run, dif_pos h]
  split
  · next hl => rw [hl]
  · rfl

/-- A loop goes on from the smaller head. -/
theorem run_of_unstable (h : (pass l head).nextHead head ≠ head) : run pass l head =
    let o := run pass (pass l head).locals ((pass l head).nextHead head)
    { o with trace := (pass l head).trace.silent ++ o.trace } := by
  rw [run, dif_neg h]

end LoopPass

/-- The syntax that a task has still to walk. A loop is larger than a pass through it, and smaller
than the statement it stands in. -/
noncomputable def Task.size : Task → Nat
  | .change .. | .rebind _ | .bindings .. => 0
  | .expr e => 3 * sizeOf e + 2
  | .exprs es => 3 * sizeOf es + 2
  | .stmt s => 3 * sizeOf s + 2
  | .stmts body => 3 * sizeOf body + 2
  | .sections l => 3 * sizeOf l + 2
  | .catches l => 3 * sizeOf l + 2
  | .pass loop => 3 * sizeOf loop
  | .rounds loop => 3 * sizeOf loop + 1

/-- What is left of a task that stays at its syntax: the effects that are not applied yet, or the
locks that the head of a loop can still lose. -/
def Point.left (a : Point) : Nat :=
  match a.task with
  | .bindings _ _ bs => bs.length + 1
  | .rounds _ => a.held.size
  | _ => 0

namespace WalkContext

variable (w : WalkContext)

/-- One pass through a loop. -/
def pass (σ : BodyScope) : Loop → HeldSet → LoopPass
  | .whileLoop condition body, head =>
    let c := w.expr σ condition head
    .exitFirst condition.isTrue c (w.stmt σ body c.held)
  | .doLoop body condition, head =>
    let b := w.stmt σ body head
    .evalLast (fun back => if condition.isTrue then none else back) b
      (w.expr (σ.withLocals b.locals) condition)
  | .forLoop condition step body, head =>
    let c := w.optExpr σ condition head
    let b := (w.stmt σ body c.held).after c.trace
    .evalLast (fun _ => if condition.all Expr.isTrue then none else some c.held) b
      (w.exprs (σ.withLocals b.locals) step)
  | .foreachLoop name body, head =>
    let r := Evaluated.rebind (.var name) head
    .exitFirst false r (w.stmt σ body r.held)

/-- One pass through a loop, in the locals that the pass before it left. -/
def passIn (σ : BodyScope) (loop : Loop) (l : Locals) : HeldSet → LoopPass :=
  w.pass (σ.withLocals l) loop

/-- Goes round a loop that is entered with `held`. -/
def rounds (σ : BodyScope) (loop : Loop) (held : HeldSet) : Outcome :=
  LoopPass.run (w.passIn σ loop) σ.locals held

theorem rounds_of_stable {σ : BodyScope} {loop : Loop} {held : HeldSet}
    (h : (w.pass σ loop held).nextHead held = held) : w.rounds σ loop held =
      let p := w.pass σ loop held
      let last := w.pass (σ.withLocals p.locals) loop held
      { locals := last.locals, exit := last.exit, trace := p.trace.silent ++ last.trace } :=
  LoopPass.run_of_stable (w.passIn σ loop) (l := σ.locals) h

theorem rounds_of_unstable {σ : BodyScope} {loop : Loop} {held : HeldSet}
    (h : (w.pass σ loop held).nextHead held ≠ held) : w.rounds σ loop held =
      let p := w.pass σ loop held
      let o := w.rounds (σ.withLocals p.locals) loop (p.nextHead held)
      { o with trace := p.trace.silent ++ o.trace } :=
  LoopPass.run_of_unstable (w.passIn σ loop) (l := σ.locals) h

variable {σ : BodyScope} {held : HeldSet}

theorem stmt_whileLoop {condition : Expr} {body : Stmt} :
    w.stmt σ (.whileLoop condition body) held = w.rounds σ (.whileLoop condition body) held := by
  rw [stmt]
  rfl

theorem stmt_doLoop {body : Stmt} {condition : Expr} :
    w.stmt σ (.doLoop body condition) held = w.rounds σ (.doLoop body condition) held := by
  rw [stmt]
  rfl

theorem stmt_forLoop {init : List Stmt} {condition : Option Expr} {step : List Expr} {body : Stmt} :
    w.stmt σ (.forLoop init condition step body) held =
      let i := w.stmts σ.push init held
      let rounds := w.rounds (σ.withLocals i.locals) (.forLoop condition step body)
      (i.exit.elim i fun entry => i.andThen (rounds entry)).leaveBlock := by
  rw [stmt]
  dsimp only
  cases (w.stmts σ.push init held).exit <;> rfl

theorem stmt_foreachLoop {name : String} {type : Option String} {iterable : Expr} {body : Stmt} :
    w.stmt σ (.foreachLoop name type iterable body) held =
      let e := w.expr σ iterable held
      ((w.rounds (σ.push.declare name type none) (.foreachLoop name body) e.held).after
        e.trace).leaveBlock := by
  rw [stmt]
  rfl

/-- A `lock` on what is held already takes it no second time, and does not free it. -/
theorem stmt_lock {target : Expr} {body : Stmt} {path : LockPath}
    (h : (σ.place target).path = some path) : w.stmt σ (.lock target body) held =
      let e := w.expr σ target held
      let o := w.stmt σ body (e.held.insert path)
      (if path ∈ e.held then o else o.releasing path).after e.trace := by
  rw [stmt, h]
  by_cases hin : path ∈ (w.expr σ target held).held
  · simp only [hin, OrderedSet.insert_of_mem hin, if_true]
  · simp only [hin, if_false]

/-- The clauses of a `try` need of what comes before them the locals only. -/
theorem catches_eq_orElse (l : List Catch) (σ : BodyScope) (before : Outcome) (entry : HeldSet) :
    w.catches σ before l entry = before.orElse
      (w.catches (σ.withLocals before.locals) (.unreached before.locals) l entry) := by
  induction l generalizing σ before with
  | nil => exact Outcome.orElse_unreached.symm
  | cons c rest ih =>
    obtain ⟨type, name, body⟩ := c
    cases name with
    | none | some name =>
      rw [catches, catches, Outcome.unreached_orElse]
      refine ((ih σ _).trans Outcome.orElse_assoc).trans ?_
      refine Eq.trans ?_ (congrArg before.orElse (ih (σ.withLocals before.locals) _).symm)
      rfl

theorem catches_cons_some {type : Option String} {name : String} {body : List Stmt}
    {rest : List Catch} : w.catches σ (.unreached σ.locals) (.mk type (some name) body :: rest) held =
      let bound := Evaluated.rebind (.var name) held
      let o := w.stmts (σ.push.declare name type none).push body bound.held
      ((o.leaveBlock.after bound.trace).leaveBlock).orElse
        (w.catches (σ.withLocals o.locals.pop.pop) (.unreached o.locals.pop.pop) rest held) := by
  rw [catches, catches_eq_orElse, Outcome.unreached_orElse]
  rfl

theorem catches_cons_none {type : Option String} {body : List Stmt} {rest : List Catch} :
    w.catches σ (.unreached σ.locals) (.mk type none body :: rest) held =
      let o := w.stmts σ.push.push body held
      (o.leaveBlock.leaveBlock).orElse
        (w.catches (σ.withLocals o.locals.pop.pop) (.unreached o.locals.pop.pop) rest held) := by
  rw [catches, catches_eq_orElse, Outcome.unreached_orElse]
  rfl

/-- The state in which each clause of a `try` is entered, before its variable is bound. -/
def handlerEntry (σ : BodyScope) (body : List Stmt) (held : HeldSet) : HeldSet :=
  (w.stmts σ.push body held).trace.floor held

/-- A `try` up to its `finally` block. -/
def handled (σ : BodyScope) (body : List Stmt) (catches : List Catch) (held : HeldSet) : Outcome :=
  w.catches σ (w.stmts σ.push body held).leaveBlock catches (w.handlerEntry σ body held)

/-- The state in which an exception that no clause takes comes to the `finally` block. -/
def exceptionalEntry (σ : BodyScope) (body : List Stmt) (catches : List Catch) (held : HeldSet) :
    HeldSet :=
  (w.handled σ body catches held).trace.floor held

/-- The state in which a `finally` block is walked for its accesses. -/
def finallyEntry (σ : BodyScope) (body : List Stmt) (catches : List Catch) (held : HeldSet) :
    HeldSet :=
  let floor := w.exceptionalEntry σ body catches held
  (w.handled σ body catches held).exit.elim floor (·.inter floor)

theorem stmt_tryCatch {body : List Stmt} {catches : List Catch} {finalizer : List Stmt} :
    w.stmt σ (.tryCatch body catches finalizer) held =
      let o := w.handled σ body catches held
      o.finalizing (fun s => (w.stmts (σ.withLocals o.locals).push finalizer s).leaveBlock)
        (w.finallyEntry σ body catches held) := by
  rw [stmt]
  rfl

/-- The clauses of a `try` come after its body. -/
theorem handled_eq_orElse {body : List Stmt} {catches : List Catch} :
    w.handled σ body catches held =
      let b := (w.stmts σ.push body held).leaveBlock
      b.orElse (w.catches (σ.withLocals b.locals) (.unreached b.locals) catches
        (w.handlerEntry σ body held)) :=
  w.catches_eq_orElse catches σ _ _

theorem trace_handled {body : List Stmt} {catches : List Catch} :
    (w.handled σ body catches held).trace =
      let b := (w.stmts σ.push body held).leaveBlock
      b.trace ++ (w.catches (σ.withLocals b.locals) (.unreached b.locals) catches
        (w.handlerEntry σ body held)).trace :=
  congrArg Outcome.trace w.handled_eq_orElse

/-- How the walk leaves a point. -/
def outcome (a : Point) : Outcome :=
  let σ := a.scope
  match a.task with
  | .change effect path => .ofEvaluated σ (.applyEffect effect path a.held)
  | .rebind place => .ofEvaluated σ (.rebind place a.held)
  | .bindings receiver args bs => .ofEvaluated σ (applyBindings receiver args bs a.held)
  | .expr e => .ofEvaluated σ (w.expr σ e a.held)
  | .exprs es => .ofEvaluated σ (w.exprs σ es a.held)
  | .stmt s => w.stmt σ s a.held
  | .stmts body => w.stmts σ body a.held
  | .sections l => w.sections σ l a.held
  | .catches l => w.catches σ (.unreached σ.locals) l a.held
  | .pass loop => (w.pass σ loop a.held).outcome
  | .rounds loop => w.rounds σ loop a.held

/-! The walks that the walk at a point is made of, in their order. -/

def callParts (σ : BodyScope) (args : List (Option LockPath)) (held : HeldSet) :
    Option (MemberSite MethodDecl) → List Point
  | some site =>
    [⟨σ, .bindings site.receiver args (w.bindings (.method site.owner site.decl)), held⟩]
  | none => []

def lockCallParts (σ : BodyScope) (base : Place) (method : String) (held : HeldSet) : List Point :=
  match w.api.effect? method, base.type, base.path with
  | some effect, some type, some path =>
    if w.api.isLockType type then [⟨σ, .change effect path, held⟩] else []
  | _, _, _ => []

def exprParts (σ : BodyScope) : Expr → HeldSet → List Point
  | .literal _, _ | .this, _ | .name .., _ => []
  | .member base _ _, held => [⟨σ, .expr base, held⟩]
  | .call (.name id _) args _, held =>
    ⟨σ, .exprs args, held⟩ ::
      w.callParts σ (args.map fun e => (σ.place e).path) (w.exprs σ args held).held
        (σ.bareMethod id args.length)
  | .call (.member base id _) args span, held =>
    let b := w.expr σ base held
    let a := w.exprs σ args b.held
    let site := σ.methodOf (σ.place base) id args.length
    let paths := args.map fun e => (σ.place e).path
    ⟨σ, .expr base, held⟩ :: ⟨σ, .exprs args, b.held⟩ ::
      (w.callParts σ paths a.held site ++
        if args.isEmpty then
          w.lockCallParts σ (σ.place base) id (w.callSite paths span a.held site).held
        else [])
  | .call callee args _, held =>
    [⟨σ, .expr callee, held⟩, ⟨σ, .exprs args, (w.expr σ callee held).held⟩]
  | .assign target value, held =>
    let t := w.expr σ target held
    let v := w.expr σ value t.held
    ⟨σ, .expr target, held⟩ :: ⟨σ, .expr value, t.held⟩ ::
      ((σ.place target).path.map fun place => ⟨σ, .rebind place, v.held⟩).toList
  | .unary _ operand, held => [⟨σ, .expr operand, held⟩]
  | .binary _ left right, held => [⟨σ, .expr left, held⟩, ⟨σ, .expr right, (w.expr σ left held).held⟩]
  | .conditional condition thenArm elseArm, held =>
    let c := w.expr σ condition held
    [⟨σ, .expr condition, held⟩, ⟨σ, .expr thenArm, c.held⟩, ⟨σ, .expr elseArm, c.held⟩]
  | .new _ args, held => [⟨σ, .exprs args, held⟩]

def optParts (σ : BodyScope) (e : Option Expr) (held : HeldSet) : List Point :=
  (e.map fun e => ⟨σ, .expr e, held⟩).toList

/-- A pass comes to its `step` with what comes back from the body, by its end or by a `continue`. -/
def passParts (σ : BodyScope) : Loop → HeldSet → List Point
  | .whileLoop condition body, head =>
    [⟨σ, .expr condition, head⟩, ⟨σ, .stmt body, (w.expr σ condition head).held⟩]
  | .doLoop body condition, head =>
    let b := w.stmt σ body head
    ⟨σ, .stmt body, head⟩ ::
      ((b.exit.joinAll b.continues).map fun back =>
        ⟨σ.withLocals b.locals, .expr condition, back⟩).toList
  | .forLoop condition step body, head =>
    let c := w.optExpr σ condition head
    let b := w.stmt σ body c.held
    optParts σ condition head ++ ⟨σ, .stmt body, c.held⟩ ::
      ((b.exit.joinAll b.continues).map fun back =>
        ⟨σ.withLocals b.locals, .exprs step, back⟩).toList
  | .foreachLoop name body, head =>
    [⟨σ, .rebind (.var name), head⟩, ⟨σ, .stmt body, (Evaluated.rebind (.var name) head).held⟩]

def stmtParts (σ : BodyScope) : Stmt → HeldSet → List Point
  | .block body, held => [⟨σ.push, .stmts body, held⟩]
  | .empty, _ | .breakOut, _ | .continueLoop, _ => []
  | .declare name _ init, held =>
    optParts σ init held ++ [⟨σ, .rebind (.var name), (w.optExpr σ init held).held⟩]
  | .expr e, held => [⟨σ, .expr e, held⟩]
  | .ret value, held | .raise value, held => optParts σ value held
  | .ite condition thenArm elseArm, held =>
    let c := w.expr σ condition held
    let t := w.stmt σ thenArm c.held
    [⟨σ, .expr condition, held⟩, ⟨σ, .stmt thenArm, c.held⟩,
      ⟨σ.withLocals t.locals, .stmt elseArm, c.held⟩]
  | .whileLoop condition body, held => [⟨σ, .rounds (.whileLoop condition body), held⟩]
  | .doLoop body condition, held => [⟨σ, .rounds (.doLoop body condition), held⟩]
  | .forLoop init condition step body, held =>
    let i := w.stmts σ.push init held
    ⟨σ.push, .stmts init, held⟩ ::
      (i.exit.map fun held =>
        ⟨σ.withLocals i.locals, .rounds (.forLoop condition step body), held⟩).toList
  | .foreachLoop name type iterable body, held =>
    [⟨σ, .expr iterable, held⟩,
      ⟨σ.push.declare name type none, .rounds (.foreachLoop name body),
        (w.expr σ iterable held).held⟩]
  | .switch scrutinee sections, held =>
    [⟨σ, .expr scrutinee, held⟩, ⟨σ, .sections sections, (w.expr σ scrutinee held).held⟩]
  | .tryCatch body catches finalizer, held =>
    let b := (w.stmts σ.push body held).leaveBlock
    let o := w.handled σ body catches held
    ⟨σ.push, .stmts body, held⟩ ::
      ⟨σ.withLocals b.locals, .catches catches, w.handlerEntry σ body held⟩ ::
      (w.finallyEntry σ body catches held :: o.waysOut).map fun s =>
        ⟨(σ.withLocals o.locals).push, .stmts finalizer, s⟩
  | .lock target body, held =>
    let e := w.expr σ target held
    [⟨σ, .expr target, held⟩, ⟨σ, .stmt body, (σ.place target).path.elim e.held e.held.insert⟩]

/-- A clause of a `try` is entered with its variable bound. -/
def catchParts (σ : BodyScope) : List Catch → HeldSet → List Point
  | [], _ => []
  | .mk type (some name) body :: rest, entry =>
    let bound := Evaluated.rebind (.var name) entry
    let o := w.stmts (σ.push.declare name type none).push body bound.held
    [⟨σ, .rebind (.var name), entry⟩, ⟨(σ.push.declare name type none).push, .stmts body, bound.held⟩,
      ⟨σ.withLocals o.locals.pop.pop, .catches rest, entry⟩]
  | .mk _ none body :: rest, entry =>
    let o := w.stmts σ.push.push body entry
    [⟨σ.push.push, .stmts body, entry⟩, ⟨σ.withLocals o.locals.pop.pop, .catches rest, entry⟩]

def parts (a : Point) : List Point :=
  let σ := a.scope
  match a.task with
  | .change .. | .rebind _ | .bindings _ _ [] | .exprs [] | .stmts [] | .sections [] => []
  | .bindings receiver args (b :: rest) =>
    match b.lock.path.instantiate receiver args with
    | some path =>
      [⟨σ, .change b.effect path, a.held⟩,
        ⟨σ, .bindings receiver args rest, b.effect.apply path a.held⟩]
    | none => [⟨σ, .bindings receiver args rest, a.held⟩]
  | .expr e => w.exprParts σ e a.held
  | .exprs (e :: rest) =>
    [⟨σ, .expr e, a.held⟩, ⟨σ, .exprs rest, (w.expr σ e a.held).held⟩]
  | .stmt s => w.stmtParts σ s a.held
  | .stmts (s :: rest) =>
    let o := w.stmt σ s a.held
    ⟨σ, .stmt s, a.held⟩ :: (o.exit.map fun held => ⟨σ.withLocals o.locals, .stmts rest, held⟩).toList
  | .sections (.mk _ body :: rest) =>
    let o := (w.stmts σ.push body a.held).leaveBlock
    [⟨σ.push, .stmts body, a.held⟩, ⟨σ.withLocals o.locals, .sections rest, a.held⟩]
  | .catches l => w.catchParts σ l a.held
  | .pass loop => w.passParts σ loop a.held
  | .rounds loop =>
    let p := w.pass σ loop a.held
    [⟨σ, .pass loop, a.held⟩,
      ⟨σ.withLocals p.locals,
        if p.nextHead a.held = a.held then .pass loop else .rounds loop, p.nextHead a.held⟩]

variable {a b : Point}

@[simp] theorem outcome_change {effect : LockEffect} {path : LockPath} :
    w.outcome ⟨σ, .change effect path, held⟩ = .ofEvaluated σ (.applyEffect effect path held) := rfl

@[simp] theorem outcome_rebind {place : LockPath} :
    w.outcome ⟨σ, .rebind place, held⟩ = .ofEvaluated σ (.rebind place held) := rfl

@[simp] theorem outcome_bindings {receiver : Option LockPath} {args : List (Option LockPath)}
    {bs : List LockBinding} : w.outcome ⟨σ, .bindings receiver args bs, held⟩ =
      .ofEvaluated σ (applyBindings receiver args bs held) := rfl

@[simp] theorem outcome_expr {e : Expr} :
    w.outcome ⟨σ, .expr e, held⟩ = .ofEvaluated σ (w.expr σ e held) := rfl

@[simp] theorem outcome_exprs {es : List Expr} :
    w.outcome ⟨σ, .exprs es, held⟩ = .ofEvaluated σ (w.exprs σ es held) := rfl

@[simp] theorem outcome_stmt {s : Stmt} : w.outcome ⟨σ, .stmt s, held⟩ = w.stmt σ s held := rfl

@[simp] theorem outcome_stmts {body : List Stmt} :
    w.outcome ⟨σ, .stmts body, held⟩ = w.stmts σ body held := rfl

@[simp] theorem outcome_sections {l : List Section} :
    w.outcome ⟨σ, .sections l, held⟩ = w.sections σ l held := rfl

@[simp] theorem outcome_catches {l : List Catch} : w.outcome ⟨σ, .catches l, held⟩ =
    w.catches σ (.unreached σ.locals) l held := rfl

@[simp] theorem outcome_pass {loop : Loop} :
    w.outcome ⟨σ, .pass loop, held⟩ = (w.pass σ loop held).outcome := rfl

@[simp] theorem outcome_rounds {loop : Loop} :
    w.outcome ⟨σ, .rounds loop, held⟩ = w.rounds σ loop held := rfl

/-- What holds of every point that an optional part makes. -/
theorem forall_mem_optional {α : Type} {o : Option α} {f : α → Point} {P : Point → Prop} :
    (∀ b ∈ (o.map f).toList, P b) ↔ ∀ x, o = some x → P (f x) := by
  cases o <;> simp

private theorem size_callParts {args : List (Option LockPath)}
    {site : Option (MemberSite MethodDecl)} {n : Nat} :
    ∀ b ∈ w.callParts σ args held site, b.task.size < n + 2 := by
  cases site with
  | none => exact List.forall_mem_nil _
  | some site => exact List.forall_mem_singleton.2 (Nat.succ_pos _)

private theorem size_lockCallParts {base : Place} {method : String} {n : Nat} :
    ∀ b ∈ w.lockCallParts σ base method held, b.task.size < n + 2 := by
  unfold lockCallParts
  split
  · split
    · exact List.forall_mem_singleton.2 (Nat.succ_pos _)
    · exact List.forall_mem_nil _
  · exact List.forall_mem_nil _

private theorem size_exprParts (e : Expr) :
    ∀ b ∈ w.exprParts σ e held, b.task.size < 3 * sizeOf e + 2 := by
  cases e with
  | literal | this | name => exact List.forall_mem_nil _
  | call callee args span =>
    have hargs : 3 * sizeOf args + 2 < 3 * sizeOf (Expr.call callee args span) + 2 := by
      simp only [Expr.call.sizeOf_spec]
      omega
    have hcallee : sizeOf callee < sizeOf (Expr.call callee args span) := by
      simp only [Expr.call.sizeOf_spec]
      omega
    cases callee with
    | name id s => exact List.forall_mem_cons.2 ⟨hargs, w.size_callParts⟩
    | member base id s =>
      simp only [exprParts, List.forall_mem_cons, List.forall_mem_append]
      refine ⟨?_, hargs, w.size_callParts, ?_⟩
      · simp only [Expr.member.sizeOf_spec] at hcallee
        simp only [Task.size]
        omega
      · split
        · exact w.size_lockCallParts
        · exact List.forall_mem_nil _
    | _ =>
      simp only [exprParts, List.forall_mem_cons]
      refine ⟨?_, hargs, List.forall_mem_nil _⟩
      simp only [Task.size]
      omega
  | assign target value =>
    simp only [exprParts, List.forall_mem_cons, forall_mem_optional, Task.size,
      Expr.assign.sizeOf_spec]
    refine ⟨?_, ?_, fun _ _ => ?_⟩ <;> omega
  | member | unary | new =>
    simp only [exprParts, List.forall_mem_singleton, Task.size, Expr.member.sizeOf_spec,
      Expr.unary.sizeOf_spec, Expr.new.sizeOf_spec]
    omega
  | binary | conditional =>
    simp only [exprParts, List.forall_mem_cons, Task.size, Expr.binary.sizeOf_spec,
      Expr.conditional.sizeOf_spec]
    refine ⟨?_, ?_, ?_⟩
    · omega
    · omega
    · first | exact List.forall_mem_nil _ | exact ⟨by omega, List.forall_mem_nil _⟩

private theorem size_optParts (e : Option Expr) {n : Nat} (h : 3 * sizeOf e + 2 ≤ n) :
    ∀ b ∈ optParts σ e held, b.task.size < n := by
  rw [optParts, forall_mem_optional]
  rintro e rfl
  simp only [Task.size, Option.some.sizeOf_spec] at h ⊢
  omega

private theorem size_passParts (loop : Loop) :
    ∀ b ∈ w.passParts σ loop held, b.task.size < 3 * sizeOf loop := by
  cases loop with
  | forLoop condition step body =>
    simp only [passParts, List.forall_mem_append, List.forall_mem_cons, forall_mem_optional,
      Loop.forLoop.sizeOf_spec]
    refine ⟨size_optParts condition ?_, ?_, fun _ _ => ?_⟩
    · omega
    · simp only [Task.size]
      omega
    · simp only [Task.size]
      omega
  | doLoop body condition =>
    simp only [passParts, List.forall_mem_cons, forall_mem_optional, Task.size,
      Loop.doLoop.sizeOf_spec]
    refine ⟨?_, fun _ _ => ?_⟩
    · omega
    · omega
  | whileLoop condition body =>
    simp only [passParts, List.forall_mem_cons, Task.size, Loop.whileLoop.sizeOf_spec]
    refine ⟨?_, ?_, List.forall_mem_nil _⟩
    · omega
    · omega
  | foreachLoop name body =>
    simp only [passParts, List.forall_mem_cons, Task.size, Loop.foreachLoop.sizeOf_spec]
    refine ⟨?_, ?_, List.forall_mem_nil _⟩
    · omega
    · omega

private theorem size_stmtParts (s : Stmt) :
    ∀ b ∈ w.stmtParts σ s held, b.task.size < 3 * sizeOf s + 2 := by
  cases s with
  | declare name type init =>
    simp only [stmtParts, List.forall_mem_append]
    refine ⟨size_optParts init ?_, ?_⟩
    · simp only [Stmt.declare.sizeOf_spec]
      omega
    · exact List.forall_mem_singleton.2 (Nat.succ_pos _)
  | ret value | raise value =>
    refine size_optParts value ?_
    simp only [Stmt.ret.sizeOf_spec, Stmt.raise.sizeOf_spec]
    omega
  | forLoop init condition step body =>
    simp only [stmtParts, List.forall_mem_cons, forall_mem_optional, Task.size,
      Stmt.forLoop.sizeOf_spec, Loop.forLoop.sizeOf_spec]
    refine ⟨?_, fun _ _ => ?_⟩
    · omega
    · omega
  | tryCatch body catches finalizer =>
    simp only [stmtParts, List.forall_mem_cons, List.forall_mem_map, Task.size,
      Stmt.tryCatch.sizeOf_spec]
    refine ⟨?_, ?_, ?_, fun _ _ => ?_⟩
    · omega
    · omega
    · omega
    · omega
  | empty | breakOut | continueLoop => exact List.forall_mem_nil _
  | block | expr | whileLoop | doLoop =>
    simp only [stmtParts, List.forall_mem_singleton, Task.size, Stmt.block.sizeOf_spec,
      Stmt.expr.sizeOf_spec, Stmt.whileLoop.sizeOf_spec, Stmt.doLoop.sizeOf_spec,
      Loop.whileLoop.sizeOf_spec, Loop.doLoop.sizeOf_spec]
    omega
  | ite condition thenArm elseArm =>
    simp only [stmtParts, List.forall_mem_cons, Task.size, Stmt.ite.sizeOf_spec]
    refine ⟨?_, ?_, ?_, List.forall_mem_nil _⟩
    · omega
    · omega
    · omega
  | foreachLoop | switch | lock =>
    simp only [stmtParts, List.forall_mem_cons, Task.size, Stmt.foreachLoop.sizeOf_spec,
      Stmt.switch.sizeOf_spec, Stmt.lock.sizeOf_spec, Loop.foreachLoop.sizeOf_spec]
    refine ⟨?_, ?_, List.forall_mem_nil _⟩
    · omega
    · omega

private theorem size_catchParts (l : List Catch) :
    ∀ b ∈ w.catchParts σ l held, b.task.size < 3 * sizeOf l + 2 := by
  match l with
  | [] => exact List.forall_mem_nil _
  | .mk type (some name) body :: rest =>
    simp only [catchParts, List.forall_mem_cons, Task.size, List.cons.sizeOf_spec,
      Catch.mk.sizeOf_spec]
    refine ⟨?_, ?_, ?_, List.forall_mem_nil _⟩
    · omega
    · omega
    · omega
  | .mk type none body :: rest =>
    simp only [catchParts, List.forall_mem_cons, Task.size, List.cons.sizeOf_spec,
      Catch.mk.sizeOf_spec]
    refine ⟨?_, ?_, List.forall_mem_nil _⟩
    · omega
    · omega

/-- A part has less syntax to walk, or less to do at the same syntax. -/
theorem smaller_of_mem_parts (h : b ∈ w.parts a) :
    Prod.Lex (· < ·) (· < ·) (b.task.size, b.left) (a.task.size, a.left) := by
  obtain ⟨σ, task, held⟩ := a
  rw [Prod.lex_def]
  revert h
  revert b
  change ∀ b ∈ _, _
  cases task with
  | change | rebind => exact List.forall_mem_nil _
  | bindings receiver args bs =>
    cases bs with
    | nil => exact List.forall_mem_nil _
    | cons b rest =>
      have hrest : rest.length + 1 < (b :: rest).length + 1 := Nat.lt_succ_self _
      simp only [parts]
      split
      · exact List.forall_mem_cons.2
          ⟨.inr ⟨rfl, Nat.succ_pos _⟩, List.forall_mem_singleton.2 (.inr ⟨rfl, hrest⟩)⟩
      · exact List.forall_mem_singleton.2 (.inr ⟨rfl, hrest⟩)
  | expr e => exact fun b hb => .inl (w.size_exprParts e b hb)
  | exprs es =>
    cases es with
    | nil => exact List.forall_mem_nil _
    | cons e rest =>
      simp only [parts, List.forall_mem_cons, Task.size, List.cons.sizeOf_spec]
      refine ⟨.inl ?_, .inl ?_, List.forall_mem_nil _⟩
      · omega
      · omega
  | stmt s => exact fun b hb => .inl (w.size_stmtParts s b hb)
  | stmts body =>
    cases body with
    | nil => exact List.forall_mem_nil _
    | cons s rest =>
      simp only [parts, List.forall_mem_cons, forall_mem_optional, Task.size, List.cons.sizeOf_spec]
      refine ⟨.inl ?_, fun _ _ => .inl ?_⟩
      · omega
      · omega
  | sections l =>
    cases l with
    | nil => exact List.forall_mem_nil _
    | cons s rest =>
      obtain ⟨d, body⟩ := s
      simp only [parts, List.forall_mem_cons, Task.size, List.cons.sizeOf_spec,
        Section.mk.sizeOf_spec]
      refine ⟨.inl ?_, .inl ?_, List.forall_mem_nil _⟩
      · omega
      · omega
  | catches l => exact fun b hb => .inl (w.size_catchParts l b hb)
  | pass loop => exact fun b hb => .inl (w.size_passParts loop b hb)
  | rounds loop =>
    simp only [parts, List.forall_mem_cons]
    refine ⟨.inl (Nat.lt_succ_self _), ?_, List.forall_mem_nil _⟩
    -- The last pass is smaller than the rounds; a further round starts with fewer locks.
    split
    · exact .inl (Nat.lt_succ_self _)
    · next hs => exact .inr ⟨rfl, LoopPass.size_nextHead_lt hs⟩

/-- There is no endless descent in a walk. -/
theorem wellFounded_parts : WellFounded fun b a => b ∈ w.parts a :=
  Subrelation.wf (fun h => w.smaller_of_mem_parts h)
    (InvImage.wf (fun a : Point => (a.task.size, a.left)) (Prod.lex Nat.lt_wfRel Nat.lt_wfRel).wf)

/-- Whether a walk from one point comes by another. -/
def Visits : Point → Point → Prop := Relation.ReflTransGen fun a b => b ∈ w.parts a

end WalkContext

end LockDiscipline
