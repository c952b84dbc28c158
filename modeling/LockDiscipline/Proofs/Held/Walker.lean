import LockDiscipline.Proofs.Held.Leaving

/-! A walk that keeps in place what it is inside of. A walker has a stack of the blocks around it,
with their locals, one of the loops and `switch`es, with the jumps that wait for their ends, and one
of the `try`s, with the locks that no state since has been without. It pushes to a stack what it
enters, and there is no result of a walk that should leave what it is not inside of. -/

namespace LockDiscipline

/-- The frame with more jumps behind those recorded. -/
def JumpFrame.extend (f : JumpFrame) (breaks continues : List HeldSet) : JumpFrame :=
  { f with jumps := fun j => f.jumps j ++ match j with
      | .breakOut => breaks
      | .continueLoop => continues }

namespace Frames

/-- How many jumps of each kind wait in the frame with so many frames around it. -/
def recorded : Frames → Nat → Jump → Nat
  | [], _ => fun _ => 0
  | f :: rest, n => if n = rest.length then f.mark else recorded rest n

/-- The states of the jumps recorded since there were as many as `before` says. -/
def recordedSince (before : Nat → Jump → Nat) : Frames → List HeldSet
  | [] => []
  | f :: rest =>
    f.since (before rest.length) .breakOut ++ f.since (before rest.length) .continueLoop ++
      recordedSince before rest

/-- The frame with `n` frames around it. -/
def at? (n : Nat) : Frames → Option JumpFrame
  | [] => none
  | f :: rest => if rest.length = n then some f else at? n rest

def modifyAt (n : Nat) (change : JumpFrame → JumpFrame) : Frames → Frames
  | [] => []
  | f :: rest => if rest.length = n then change f :: rest else f :: modifyAt n change rest

/-- Whether one of the frames takes jumps of a kind. -/
def takes (frames : Frames) (j : Jump) : Bool := frames.any (·.takes j)

end Frames

/-- A `try` that a walker is inside of: the locks that all states since have held, and how many
jumps waited when it was entered. -/
structure OpenTry where
  seen : HeldSet
  recorded : Nat → Jump → Nat

/-- What a walk keeps in place. The stacks begin with what is innermost. -/
@[ext]
structure Walker where
  scope : BodyScope
  frames : Frames := []
  tries : List OpenTry := []
  reporting : Bool := true
  accesses : List (Access × HeldSet) := []

/-- The state of a walk at a point that it comes to. -/
structure Moment where
  held : HeldSet
  walker : Walker

/-- A part of a walk, with what it gives and the moments on its way. -/
structure Stretch (α : Type) where
  value : α
  walker : Walker
  moments : List Moment := []

/-- Walks on from a walker. There is no result where a stack is empty that something should be taken
from. -/
def Walk (α : Type) := Walker → Option (Stretch α)

/-- How a pass through a loop is left: out of the loop, and back to its head. -/
structure PassEnds where
  exit : FlowState
  back : FlowState

/-- The head's state once the pass has come back to it. -/
def PassEnds.nextHead (head : HeldSet) (ends : PassEnds) : HeldSet := ends.back.elim head head.inter

theorem PassEnds.size_nextHead_lt {head : HeldSet} {ends : PassEnds}
    (h : ends.nextHead head ≠ head) : (ends.nextHead head).size < head.size := by
  unfold nextHead at h ⊢
  cases hback : ends.back with
  | none =>
    rw [hback] at h
    exact absurd rfl h
  | some back =>
    rw [hback] at h
    exact OrderedSet.size_inter_lt h

namespace Walk

instance : Monad Walk where
  pure a := fun m => some ⟨a, m, []⟩
  bind x f := fun m => (x m).bind fun first =>
    (f first.value first.walker).map fun second =>
      { second with moments := first.moments ++ second.moments }

/-- Marks a moment. -/
def note (held : HeldSet) : Walk Unit := fun m => some ⟨(), m, [⟨held, m⟩]⟩

def get : Walk Walker := fun m => some ⟨m, m, []⟩

def modify (change : Walker → Walker) : Walk Unit := fun m => some ⟨(), change m, []⟩

/-- Marks the moments before and after, the latter if it is reached. -/
def noting {α : Type} (held : HeldSet) (reached : α → FlowState) (walk : Walk α) : Walk α := do
  note held
  let a ← walk
  ((reached a).elim (pure ()) note : Walk Unit)
  return a

def enterBlock : Walk Unit := modify fun m => { m with scope := m.scope.push }

/-- The outermost block, that of the parameters, is never left. -/
def leaveBlock : Walk Unit := fun m =>
  if m.scope.locals.enclosing = [] then none
  else some ⟨(), { m with scope := m.scope.pop }, []⟩

def enterFrame (isLoop : Bool) : Walk Unit :=
  modify fun m => { m with frames := m.frames.enter isLoop }

def leaveFrame : Walk JumpFrame := fun m =>
  match m.frames with
  | [] => none
  | f :: rest => some ⟨f, { m with frames := rest }, []⟩

def enterTry (held : HeldSet) : Walk Unit :=
  modify fun m => { m with tries := ⟨held, m.frames.recorded⟩ :: m.tries }

/-- Leaves a `try` with the locks that all states in it have held. -/
def leaveTry : Walk HeldSet := fun m =>
  match m.tries with
  | [] => none
  | t :: rest => some ⟨t.seen, { m with tries := rest }, []⟩

def declare (name : String) (type : Option String) (init : Option Expr) : Walk Unit :=
  modify fun m => { m with scope := m.scope.declare name type init }

def setReporting (on : Bool) : Walk Unit := modify fun m => { m with reporting := on }

/-- Walks without reports. -/
def silently {α : Type} (walk : Walk α) : Walk α := do
  let before ← get
  setReporting false
  let a ← walk
  setReporting before.reporting
  return a

def report (access : Access) (held : HeldSet) : Walk Unit :=
  modify fun m =>
    { m with accesses := m.accesses ++ if m.reporting then [(access, held)] else [] }

/-- Goes on with other locks, of which each open `try` takes notice. -/
def change (held : HeldSet) : Walk HeldSet := do
  modify fun m => { m with tries := m.tries.map fun t => { t with seen := t.seen.inter held } }
  note held
  return held

def apply (effect : LockEffect) (path : LockPath) (held : HeldSet) : Walk HeldSet :=
  change (effect.apply path held)

def rebind (place : LockPath) (held : HeldSet) : Walk HeldSet :=
  if held.toList.any (·.reachedThrough place) then change (held.invalidate place) else pure held

/-- Records a jump. Where nothing takes it, it is gone. -/
def jump (j : Jump) (held : HeldSet) : Walk FlowState := do
  modify fun m => { m with frames := m.frames.record fun k => if k = j then [held] else [] }
  return none

def fieldAccess (id : String) (span : Option Span) (held : HeldSet) :
    Option (MemberSite FieldDecl) → Walk Unit
  | some site => report ⟨.field site.owner id, site.receiver, [], site.decl.isStatic, span⟩ held
  | none => pure ()

def applyBindings (receiver : Option LockPath) (args : List (Option LockPath)) :
    List LockBinding → HeldSet → Walk HeldSet
  | [], held => pure held
  | b :: rest, held => do
    let held ← (b.lock.path.instantiate receiver args).elim (pure held) (apply b.effect · held)
    applyBindings receiver args rest held

variable (w : WalkContext)

def callSite (args : List (Option LockPath)) (span : Option Span) (held : HeldSet) :
    Option (MemberSite MethodDecl) → Walk HeldSet
  | some site => do
    let member := MemberRef.method site.owner site.decl
    report ⟨member, site.receiver, args, site.decl.isStatic, span⟩ held
    applyBindings site.receiver args (w.bindings member) held
  | none => pure held

def lockCall (base : Place) (method : String) (held : HeldSet) : Walk HeldSet :=
  match w.api.effect? method, base.type, base.path with
  | some effect, some type, some path =>
    if w.api.isLockType type then apply effect path held else pure held
  | _, _, _ => pure held

mutual

def expr : Expr → HeldSet → Walk HeldSet
  | .literal _, held => noting held some (pure held)
  | .this, held => noting held some (pure held)
  | .name id span, held => noting held some do
    let m ← get
    fieldAccess id span held (m.scope.bareField id)
    return held
  | .member base id span, held => noting held some do
    let held ← expr base held
    let m ← get
    fieldAccess id span held (m.scope.fieldOf (m.scope.place base) id)
    return held
  | .call (.name id _) args span, held => noting held some do
    let held ← exprs args held
    let m ← get
    callSite w (args.map fun e => (m.scope.place e).path) span held
      (m.scope.bareMethod id args.length)
  | .call (.member base id _) args span, held => noting held some do
    let held ← expr base held
    let held ← exprs args held
    let m ← get
    let held ← callSite w (args.map fun e => (m.scope.place e).path) span held
      (m.scope.methodOf (m.scope.place base) id args.length)
    if args.isEmpty then lockCall w (m.scope.place base) id held else pure held
  | .call callee args _, held => noting held some do
    let held ← expr callee held
    exprs args held
  | .assign target value, held => noting held some do
    let held ← expr target held
    let held ← expr value held
    let m ← get
    (m.scope.place target).path.elim (pure held) (rebind · held)
  | .unary _ operand, held => noting held some (expr operand held)
  | .binary op left right, held => noting held some do
    let before ← expr left held
    let after ← expr right before
    return if op.shortCircuits then before.inter after else after
  | .conditional condition thenArm elseArm, held => noting held some do
    let held ← expr condition held
    let afterThen ← expr thenArm held
    let afterElse ← expr elseArm held
    return afterElse.inter afterThen
  | .new _ args, held => noting held some (exprs args held)

def exprs : List Expr → HeldSet → Walk HeldSet
  | [], held => pure held
  | e :: rest, held => do
    let held ← expr e held
    exprs rest held

end

def optExpr (e : Option Expr) (held : HeldSet) : Walk HeldSet :=
  e.elim (pure held) fun e => expr w e held

/-- Goes on where the point is reached. -/
def onward (state : FlowState) (walk : HeldSet → Walk FlowState) : Walk FlowState :=
  state.elim (pure none) walk

def inBlock (walk : Walk FlowState) : Walk FlowState := do
  enterBlock
  let out ← walk
  leaveBlock
  return out

/-- Walks the statements of a block. -/
def block (held : HeldSet) (body : Walk FlowState) : Walk FlowState :=
  noting held id (inBlock body)

/-- Walks the body of a loop, with a frame for the jumps out of it. -/
def loopBody (body : Walk FlowState) : Walk (FlowState × JumpFrame) := do
  enterFrame true
  let out ← body
  let frame ← leaveFrame
  return (out, frame)

/-- Takes locks from the head until a pass takes none. -/
def settle (pass : HeldSet → Walk PassEnds) (head : HeldSet) : Walk HeldSet := do
  note head
  let ends ← pass head
  if h : ends.nextHead head = head then pure head
  else
    have := PassEnds.size_nextHead_lt h
    settle pass (ends.nextHead head)
termination_by head.size

/-- Finds the head of a loop without reports, and goes through it once more. -/
def runLoop (pass : HeldSet → Walk PassEnds) (entry : HeldSet) : Walk FlowState := do
  let head ← silently (settle pass entry)
  note head
  let ends ← pass head
  return ends.exit

/-- Declares the variable of a clause, if it has one. -/
def bindCaught (type : Option String) : Option String → HeldSet → Walk HeldSet
  | some name, entry => do
    declare name type none
    rebind (.var name) entry
  | none, entry => pure entry

def jumpMarks : Walk (List (Jump → Nat)) := fun m => some ⟨m.frames.marks, m, []⟩

/-- Drops the jumps recorded behind the marks. -/
def dropJumps (marks : List (Jump → Nat)) : Walk Unit :=
  modify fun m => { m with frames := m.frames.upTo marks }

/-- Walks a `finally` block. No jump out of it is kept. -/
def finalize (finalizer : Walk FlowState) : Walk FlowState := do
  let marks ← jumpMarks
  let out ← finalizer
  dropJumps marks
  return out

/-- Passes states through `exit`; those that do not come out are gone. -/
def passAll (exit : HeldSet → Walk FlowState) : List HeldSet → Walk (List HeldSet)
  | [] => pure []
  | s :: rest => do
    let out ← exit s
    let others ← passAll exit rest
    return out.toList ++ others

/-- Passes the jumps behind the mark in one frame through `exit`. They do not wait meanwhile. -/
def rewriteFrame (exit : HeldSet → Walk FlowState) (n : Nat) (mark : Jump → Nat) : Walk Unit := do
  let m ← get
  (m.frames.at? n).elim (pure ()) fun f => do
    modify fun m => { m with frames := m.frames.modifyAt n (·.upTo mark) }
    let breaks ← passAll exit (f.since mark .breakOut)
    let continues ← passAll exit (f.since mark .continueLoop)
    modify fun m => { m with frames := m.frames.modifyAt n (·.extend breaks continues) }

/-- Passes the jumps behind the marks through `exit`, frame by frame from the outermost on. -/
def rewriteJumps (exit : HeldSet → Walk FlowState) : List (Jump → Nat) → Walk Unit
  | [] => pure ()
  | mark :: outer => do
    rewriteJumps exit outer
    rewriteFrame exit outer.length mark

/-- A pass through a loop that may end at its head. -/
def whilePass (condition : Expr) (body : HeldSet → Walk FlowState) (head : HeldSet) :
    Walk PassEnds := do
  let held ← expr w condition head
  let (out, frame) ← loopBody (body held)
  return {
    exit := FlowState.joinAll (if condition.isTrue then none else some held)
      (frame.jumps .breakOut)
    back := out.joinAll (frame.jumps .continueLoop) }

def doPass (body : HeldSet → Walk FlowState) (condition : Expr) (head : HeldSet) :
    Walk PassEnds := do
  let (out, frame) ← loopBody (body head)
  let back ← onward (out.joinAll (frame.jumps .continueLoop)) fun held => do
    let held ← expr w condition held
    return some held
  return {
    exit := FlowState.joinAll (if condition.isTrue then none else back) (frame.jumps .breakOut)
    back }

def forPass (condition : Option Expr) (step : List Expr) (body : HeldSet → Walk FlowState)
    (head : HeldSet) : Walk PassEnds := do
  let held ← optExpr w condition head
  let (out, frame) ← loopBody (body held)
  let back ← onward (out.joinAll (frame.jumps .continueLoop)) fun held => do
    let held ← exprs w step held
    return some held
  return {
    exit := FlowState.joinAll (if condition.all Expr.isTrue then none else some held)
      (frame.jumps .breakOut)
    back }

def foreachPass (name : String) (body : HeldSet → Walk FlowState) (head : HeldSet) :
    Walk PassEnds := do
  let held ← rebind (.var name) head
  let (out, frame) ← loopBody (body held)
  return {
    exit := FlowState.joinAll (some held) (frame.jumps .breakOut)
    back := out.joinAll (frame.jumps .continueLoop) }

/-- Walks the body of a `try`, and its clauses from what all of the body has held. Gives how they
are left, and what all of both has held. -/
def handle (body : HeldSet → Walk FlowState) (clauses : HeldSet → FlowState → Walk FlowState)
    (held : HeldSet) : Walk (FlowState × HeldSet) := do
  enterTry held
  enterTry held
  let out ← block held (body held)
  let entry ← leaveTry
  let normal ← clauses entry out
  let exceptional ← leaveTry
  return (normal, exceptional)

/-- Walks a `finally` block from what an exception and the end of the parts before come to it with,
and takes through it the jumps behind the marks and then that end. -/
def finish (finalizer : HeldSet → Walk FlowState) (marks : List (Jump → Nat)) (normal : FlowState)
    (exceptional : HeldSet) : Walk FlowState := do
  let start := normal.elim exceptional (·.inter exceptional)
  let _ ← finalize (block start (finalizer start))
  rewriteJumps (fun s => silently (finalize (block s (finalizer s)))) marks
  onward normal fun s => silently (finalize (block s (finalizer s)))

/-- Walks a `try`. One without a `finally` block is one whose block is empty. -/
def tryParts (body : HeldSet → Walk FlowState) (clauses : HeldSet → FlowState → Walk FlowState)
    (finalizer : HeldSet → Walk FlowState) (held : HeldSet) : Walk FlowState := do
  let marks ← jumpMarks
  let (normal, exceptional) ← handle body clauses held
  finish finalizer marks normal exceptional

/-- Walks the body of a `lock`. The lock is freed at its end and in the jumps out of it, unless it
was held before. -/
def locked (body : HeldSet → Walk FlowState) (held : HeldSet) : Option LockPath → Walk FlowState
  | none => body held
  | some path =>
    if path ∈ held then body held
    else do
      let marks ← jumpMarks
      let out ← body (held.insert path)
      modify fun m => { m with
        frames := m.frames.rewriteSince (fun s => some (s.erase path)) marks }
      return out.map (·.erase path)

mutual

def stmt : Stmt → HeldSet → Walk FlowState
  | .block body, held => noting held id (block held (stmts body held))
  | .empty, held => noting held id (pure (some held))
  | .declare name type init, held => noting held id do
    let held ← optExpr w init held
    declare name type init
    let held ← rebind (.var name) held
    return some held
  | .expr e, held => noting held id do
    let held ← expr w e held
    return some held
  | .ret value, held => noting held id do
    let _ ← optExpr w value held
    return none
  | .raise value, held => noting held id do
    let _ ← optExpr w value held
    return none
  | .breakOut, held => noting held id (jump .breakOut held)
  | .continueLoop, held => noting held id (jump .continueLoop held)
  | .ite condition thenArm elseArm, held => noting held id do
    let held ← expr w condition held
    let afterThen ← stmt thenArm held
    let afterElse ← stmt elseArm held
    return afterThen.join afterElse
  | .whileLoop condition body, held =>
    noting held id (runLoop (whilePass w condition (stmt body)) held)
  | .doLoop body condition, held =>
    noting held id (runLoop (doPass w (stmt body) condition) held)
  | .forLoop init condition step body, held => noting held id <| inBlock do
    let entry ← stmts init held
    onward entry (runLoop (forPass w condition step (stmt body)))
  | .foreachLoop name type iterable body, held => noting held id do
    let entry ← expr w iterable held
    inBlock do
      declare name type none
      runLoop (foreachPass name (stmt body)) entry
  | .switch scrutinee sections, held => noting held id do
    let held ← expr w scrutinee held
    enterFrame false
    let exit ← switchSections sections held none
    let exit := if sections.any Section.isDefault then exit else exit.join (some held)
    let frame ← leaveFrame
    return exit.joinAll (frame.jumps .breakOut)
  | .tryCatch body catches finalizer, held =>
    noting held id (tryParts (stmts body) (clauses catches) (stmts finalizer) held)
  | .lock target body, held => noting held id do
    let held ← expr w target held
    let m ← get
    locked (stmt body) held (m.scope.place target).path

def stmts : List Stmt → HeldSet → Walk FlowState
  | [], held => pure (some held)
  | s :: rest, held => do
    let out ← stmt s held
    onward out (stmts rest)

def switchSections : List Section → HeldSet → FlowState → Walk FlowState
  | [], _, exit => pure exit
  | .mk _ body :: rest, held, exit => do
    let out ← block held (stmts body held)
    switchSections rest held (exit.join out)

def clauses : List Catch → HeldSet → FlowState → Walk FlowState
  | [], _, normal => pure normal
  | .mk type name body :: rest, entry, normal => do
    note entry
    let out ← inBlock do
      let held ← bindCaught type name entry
      block held (stmts body held)
    clauses rest entry (normal.join out)

end

end Walk

end LockDiscipline
