import LockDiscipline.Body.LockApi
import LockDiscipline.Body.Scope
import LockDiscipline.FunctionTable
import LockDiscipline.Lock.HeldSet

/-!
The locks held at each point of a method body. Each statement takes a set of held locks to the sets
with which it can be left: by its end, by a `break`, or by a `continue`. Where paths meet, the locks
held on all of them stay held. The head of a loop loses locks until one more pass through the body
takes none away, and a handler starts from the locks that every state of its `try` body kept.
-/

namespace LockDiscipline

/-- A read, write or call of a member. -/
structure Access where
  member : MemberRef
  /-- The path of the object the member is reached through. -/
  receiver : Option LockPath
  /-- The paths of the arguments of a call; a field has none. -/
  args : List (Option LockPath)
  isStatic : Bool
  span : Option Span
  deriving DecidableEq, Repr

/-- What a walk meets on its way: the locks held in every state that a change of locks led to, none
if there was no change, and the accesses with the locks held at them. -/
structure Trace where
  kept : FlowState := none
  accesses : List (Access × HeldSet) := []

namespace Trace

/-- One trace after the other. -/
def append (a b : Trace) : Trace :=
  ⟨a.kept.join b.kept, a.accesses ++ b.accesses⟩

instance : Append Trace := ⟨append⟩

/-- The trace with its accesses left out, of a pass that only finds out which locks stay held. -/
def silent (a : Trace) : Trace := { a with accesses := [] }

/-- The trace of one access. -/
def ofAccess (access : Access) (held : HeldSet) : Trace := { accesses := [(access, held)] }

/-- The locks of `held` that no state on the way lacks. -/
def floor (a : Trace) (held : HeldSet) : HeldSet :=
  match a.kept with
  | some kept => held.inter kept
  | none => held

end Trace

/-- How an expression is left. -/
structure Evaluated where
  held : HeldSet
  trace : Trace := {}

/-- How a statement is left: with which locals, by its end, and by the jumps out of it. -/
structure Outcome where
  locals : Locals
  exit : FlowState
  breaks : List HeldSet := []
  continues : List HeldSet := []
  trace : Trace := {}

/-- What a walk knows besides the body: the lock methods, and what annotated methods do to locks. -/
structure WalkContext where
  api : LockApi
  bindings : MemberRef → List LockBinding

namespace LockEffect

/-- The state after the lock at `path` was taken or freed. -/
def apply (effect : LockEffect) (path : LockPath) (held : HeldSet) : HeldSet :=
  match effect with
  | .acquire => held.insert path
  | .release => held.erase path

end LockEffect

namespace Evaluated

/-- Nothing happened. -/
def unchanged (held : HeldSet) : Evaluated := { held }

/-- The trace so far, put before what came after. -/
def after (before : Trace) (e : Evaluated) : Evaluated := { e with trace := before ++ e.trace }

/-- Takes or frees the lock at `path`. -/
def applyEffect (effect : LockEffect) (path : LockPath) (held : HeldSet) : Evaluated :=
  let held' := effect.apply path held
  { held := held', trace := { kept := some held' } }

/-- The place `place` gets another object, so the locks reached through it are no longer known. -/
def rebind (place : LockPath) (held : HeldSet) : Evaluated :=
  if held.toList.any (·.reachedThrough place) then
    let held' := held.invalidate place
    { held := held', trace := { kept := some held' } }
  else unchanged held

end Evaluated

namespace WalkContext

/-- The access of a field at a site, if there is one. -/
def fieldTrace (id : String) (span : Option Span) (held : HeldSet) :
    Option (MemberSite FieldDecl) → Trace
  | some site => .ofAccess ⟨.field site.owner id, site.receiver, [], site.decl.isStatic, span⟩ held
  | none => {}

/-- Applies the effects of an annotated method, in order. An effect whose lock has no path at the
call is left out. -/
def applyBindings (receiver : Option LockPath) (args : List (Option LockPath)) :
    List LockBinding → HeldSet → Evaluated
  | [], held => .unchanged held
  | b :: rest, held =>
    match b.lock.path.instantiate receiver args with
    | some path =>
      let e := Evaluated.applyEffect b.effect path held
      (applyBindings receiver args rest e.held).after e.trace
    | none => applyBindings receiver args rest held

/-- The call of a method at a site: its access, then the effects of its annotations. -/
def callSite (w : WalkContext) (args : List (Option LockPath)) (span : Option Span)
    (held : HeldSet) : Option (MemberSite MethodDecl) → Evaluated
  | some site =>
    let member := MemberRef.method site.owner site.decl
    (applyBindings site.receiver args (w.bindings member) held).after
      (.ofAccess ⟨member, site.receiver, args, site.decl.isStatic, span⟩ held)
  | none => .unchanged held

/-- The call of a known lock method without arguments on what lies at `base`. -/
def lockCall (w : WalkContext) (base : Place) (method : String) (held : HeldSet) : Evaluated :=
  match w.api.effect? method, base.type, base.path with
  | some effect, some type, some path =>
    if w.api.isLockType type then .applyEffect effect path held else .unchanged held
  | _, _, _ => .unchanged held

mutual

/-- Evaluates an expression. -/
def expr (w : WalkContext) (σ : BodyScope) : Expr → HeldSet → Evaluated
  | .literal _, held => .unchanged held
  | .this, held => .unchanged held
  | .name id span, held => { held, trace := fieldTrace id span held (σ.bareField id) }
  | .member base id span, held =>
    let b := w.expr σ base held
    { b with trace := b.trace ++ fieldTrace id span b.held (σ.fieldOf (σ.place base) id) }
  | .call (.name id _) args span, held =>
    let a := w.exprs σ args held
    (w.callSite (args.map fun e => (σ.place e).path) span a.held
      (σ.bareMethod id args.length)).after a.trace
  | .call (.member base id _) args span, held =>
    let b := w.expr σ base held
    let a := (w.exprs σ args b.held).after b.trace
    let place := σ.place base
    let c := (w.callSite (args.map fun e => (σ.place e).path) span a.held
      (σ.methodOf place id args.length)).after a.trace
    if args.isEmpty then (w.lockCall place id c.held).after c.trace else c
  | .call callee args _, held =>
    let c := w.expr σ callee held
    (w.exprs σ args c.held).after c.trace
  | .assign target value, held =>
    let t := w.expr σ target held
    let v := (w.expr σ value t.held).after t.trace
    match (σ.place target).path with
    | some place => (Evaluated.rebind place v.held).after v.trace
    | none => v
  | .unary _ operand, held => w.expr σ operand held
  | .binary op left right, held =>
    let l := w.expr σ left held
    let r := (w.expr σ right l.held).after l.trace
    if op.shortCircuits then { r with held := l.held.inter r.held } else r
  | .conditional condition thenArm elseArm, held =>
    let c := w.expr σ condition held
    let t := w.expr σ thenArm c.held
    let e := w.expr σ elseArm c.held
    { held := e.held.inter t.held, trace := c.trace ++ (t.trace ++ e.trace) }
  | .new _ args, held => w.exprs σ args held

/-- Evaluates expressions one after another. -/
def exprs (w : WalkContext) (σ : BodyScope) : List Expr → HeldSet → Evaluated
  | [], held => .unchanged held
  | e :: rest, held =>
    let a := w.expr σ e held
    (w.exprs σ rest a.held).after a.trace

end

/-- Evaluates an expression that may be missing. -/
def optExpr (w : WalkContext) (σ : BodyScope) : Option Expr → HeldSet → Evaluated
  | some e, held => w.expr σ e held
  | none, held => .unchanged held

end WalkContext

/-- One pass through a loop, from the head: how the loop is left, and the state with which control
comes back to the head. -/
structure LoopPass where
  locals : Locals
  exit : FlowState
  back : FlowState
  trace : Trace

namespace LoopPass

/-- The head's state once the pass has come back to it. -/
def nextHead (head : HeldSet) (p : LoopPass) : HeldSet :=
  match p.back with
  | some back => head.inter back
  | none => head

theorem size_nextHead_lt {head : HeldSet} {p : LoopPass} (h : p.nextHead head ≠ head) :
    (p.nextHead head).size < head.size := by
  unfold nextHead at h ⊢
  split at h
  · exact OrderedSet.size_inter_lt h
  · exact absurd rfl h

/-- Takes locks from the head until a pass takes none; then one more pass goes through the body from
there, which is the same again unless a local was declared. The passes before it count by the states
they visit, not by their accesses. -/
def run (pass : Locals → HeldSet → LoopPass) (l : Locals) (head : HeldSet) : Outcome :=
  let p := pass l head
  if h : p.nextHead head = head then
    let last := if p.locals = l then p else pass p.locals head
    { locals := last.locals, exit := last.exit, trace := p.trace.silent ++ last.trace }
  else
    have := size_nextHead_lt h
    let o := run pass p.locals (p.nextHead head)
    { o with trace := p.trace.silent ++ o.trace }
termination_by head.size

end LoopPass

namespace Outcome

/-- The statement is left by its end, with nothing declared. -/
def done (σ : BodyScope) (held : HeldSet) : Outcome := { locals := σ.locals, exit := some held }

/-- The outcome of evaluating an expression for its effects. -/
def ofEvaluated (σ : BodyScope) (e : Evaluated) : Outcome :=
  { locals := σ.locals, exit := some e.held, trace := e.trace }

/-- What happened before, put before the outcome. -/
def after (before : Trace) (o : Outcome) : Outcome := { o with trace := before ++ o.trace }

/-- The outcome of `first`, with `second` to go on from its end. -/
def andThen (first second : Outcome) : Outcome :=
  { locals := second.locals
    exit := second.exit
    breaks := first.breaks ++ second.breaks
    continues := first.continues ++ second.continues
    trace := first.trace ++ second.trace }

/-- The outcome of either of two arms: they start from the same state and meet at their ends. -/
def orElse (first second : Outcome) : Outcome :=
  { first.andThen second with exit := first.exit.join second.exit }

/-- The outcome with the block that was entered for it left again. -/
def leaveBlock (o : Outcome) : Outcome := { o with locals := o.locals.pop }

/-- The outcome with the lock at `path` freed on every way out. -/
def releasing (path : LockPath) (o : Outcome) : Outcome :=
  { o with
    exit := o.exit.map (·.erase path)
    breaks := o.breaks.map (·.erase path)
    continues := o.continues.map (·.erase path) }

/-- The states with which the statement is left, by its end or by a jump. -/
def waysOut (o : Outcome) : List HeldSet := o.breaks ++ o.continues ++ o.exit.toList

/-- Runs `finalizer` on every way out of `o`, after it was walked from `start` for its accesses. A
jump inside it goes nowhere. -/
def finalizing (finalizer : HeldSet → Outcome) (start : HeldSet) (o : Outcome) : Outcome :=
  let runs : FunctionTable finalizer := .ofList (start :: o.waysOut)
  let onJump := fun states : List HeldSet => states.filterMap fun s => (runs.get s).exit
  let replays := o.waysOut.map fun s => (runs.get s).trace.silent
  { o with
    exit := o.exit.bind fun s => (runs.get s).exit
    breaks := onJump o.breaks
    continues := onJump o.continues
    trace := o.trace ++ ((runs.get start).trace ++ replays.foldl (· ++ ·) {}) }

end Outcome

namespace LoopPass

/-- A pass that goes into the body with the locks of `start`, and out of the loop with the same. -/
def exitFirst (endless : Bool) (start : Evaluated) (body : Outcome) : LoopPass :=
  { locals := body.locals
    exit := FlowState.joinAll (if endless then none else some start.held) body.breaks
    back := FlowState.joinAll body.exit body.continues
    trace := start.trace ++ body.trace }

/-- A pass that evaluates `tail` before it comes back to the head; `exit` is the state with which
the loop ends by itself, given the one that comes back. -/
def evalLast (exit : FlowState → FlowState) (body : Outcome) (tail : HeldSet → Evaluated) :
    LoopPass :=
  let t := (FlowState.joinAll body.exit body.continues).map tail
  { locals := body.locals
    exit := FlowState.joinAll (exit (t.map (·.held))) body.breaks
    back := t.map (·.held)
    trace := body.trace ++ (t.map (·.trace)).getD {} }

end LoopPass

namespace WalkContext

mutual

/-- Walks a statement that is reached with `held`. -/
def stmt (w : WalkContext) (σ : BodyScope) : Stmt → HeldSet → Outcome
  | .block body, held => (w.stmts σ.push body held).leaveBlock
  | .empty, held => .done σ held
  | .declare name type init, held =>
    let e := w.optExpr σ init held
    .ofEvaluated (σ.declare name type init) ((Evaluated.rebind (.var name) e.held).after e.trace)
  | .expr e, held => .ofEvaluated σ (w.expr σ e held)
  | .ret value, held => { Outcome.ofEvaluated σ (w.optExpr σ value held) with exit := none }
  | .raise value, held => { Outcome.ofEvaluated σ (w.optExpr σ value held) with exit := none }
  | .breakOut, held => { locals := σ.locals, exit := none, breaks := [held] }
  | .continueLoop, held => { locals := σ.locals, exit := none, continues := [held] }
  | .ite condition thenArm elseArm, held =>
    let c := w.expr σ condition held
    let t := w.stmt σ thenArm c.held
    (t.orElse (w.stmt (σ.withLocals t.locals) elseArm c.held)).after c.trace
  | .whileLoop condition body, held =>
    LoopPass.run (fun l head =>
      let σ := σ.withLocals l
      let c := w.expr σ condition head
      .exitFirst condition.isTrue c (w.stmt σ body c.held)) σ.locals held
  | .doLoop body condition, held =>
    LoopPass.run (fun l head =>
      let b := w.stmt (σ.withLocals l) body head
      .evalLast (fun back => if condition.isTrue then none else back) b
        (w.expr (σ.withLocals b.locals) condition)) σ.locals held
  | .forLoop init condition step body, held =>
    let i := w.stmts σ.push init held
    match i.exit with
    | none => i.leaveBlock
    | some held =>
      (i.andThen (LoopPass.run (fun l head =>
        let σ := σ.withLocals l
        let c := w.optExpr σ condition head
        let b := (w.stmt σ body c.held).after c.trace
        .evalLast (fun _ => if condition.all Expr.isTrue then none else some c.held) b
          (w.exprs (σ.withLocals b.locals) step)) i.locals held)).leaveBlock
  | .foreachLoop name type iterable body, held =>
    let e := w.expr σ iterable held
    ((LoopPass.run (fun l head =>
      let r := Evaluated.rebind (.var name) head
      .exitFirst false r (w.stmt (σ.withLocals l) body r.held))
        (σ.push.declare name type none).locals e.held).after e.trace).leaveBlock
  | .switch scrutinee sections, held =>
    let e := w.expr σ scrutinee held
    let s := w.sections σ sections e.held
    let exit := if sections.any Section.isDefault then s.exit else s.exit.join (some e.held)
    { s with exit := exit.joinAll s.breaks, breaks := [], trace := e.trace ++ s.trace }
  | .tryCatch body catches finalizer, held =>
    let b := (w.stmts σ.push body held).leaveBlock
    let o := w.catches σ b catches (b.trace.floor held)
    let floor := o.trace.floor held
    o.finalizing (fun s => (w.stmts (σ.withLocals o.locals).push finalizer s).leaveBlock)
      (o.exit.elim floor (·.inter floor))
  | .lock target body, held =>
    let e := w.expr σ target held
    match (σ.place target).path with
    | none => (w.stmt σ body e.held).after e.trace
    | some path =>
      if path ∈ e.held then (w.stmt σ body e.held).after e.trace
      else ((w.stmt σ body (e.held.insert path)).releasing path).after e.trace

/-- Walks statements one after another, as far as they are reached. -/
def stmts (w : WalkContext) (σ : BodyScope) : List Stmt → HeldSet → Outcome
  | [], held => .done σ held
  | s :: rest, held =>
    let o := w.stmt σ s held
    match o.exit with
    | none => o
    | some held => o.andThen (w.stmts (σ.withLocals o.locals) rest held)

/-- Walks the sections of a `switch`, each from the same state; no section is no way through. -/
def sections (w : WalkContext) (σ : BodyScope) : List Section → HeldSet → Outcome
  | [], _ => { locals := σ.locals, exit := none }
  | .mk _ body :: rest, held =>
    let o := (w.stmts σ.push body held).leaveBlock
    o.orElse (w.sections (σ.withLocals o.locals) rest held)

/-- Walks the clauses of a `try` after `before`, each from the state `entry` with its variable
bound. -/
def catches (w : WalkContext) (σ : BodyScope) (before : Outcome) : List Catch → HeldSet → Outcome
  | [], _ => before
  | .mk type name body :: rest, entry =>
    let inner := (σ.withLocals before.locals).push
    let (inner, bound) := match name with
      | some name => (inner.declare name type none, Evaluated.rebind (.var name) entry)
      | none => (inner, .unchanged entry)
    let o := (((w.stmts inner.push body bound.held).leaveBlock).after bound.trace).leaveBlock
    w.catches σ (before.orElse o) rest entry

end

/-- Walks the body of a method, entered with `held`. -/
def walk (w : WalkContext) (σ : BodyScope) (body : List Stmt) (held : HeldSet) : Outcome :=
  (w.stmts σ.push body held).leaveBlock

end WalkContext

end LockDiscipline
