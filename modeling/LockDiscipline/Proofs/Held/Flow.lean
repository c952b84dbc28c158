import LockDiscipline.Proofs.Held.Merge

/-! Bodies with their names resolved. A flow keeps what an analysis of held locks has to know of a
statement: the accesses, the changes of locks, and the ways from one to the next. Every loop is one
endless loop left by jumps, and expressions and statements are of one kind. -/

namespace LockDiscipline

/-- The jumps that a loop or a `switch` takes up. -/
inductive Jump where
  | breakOut
  | continueLoop
  deriving DecidableEq

/-- How an execution leaves a part of a body. -/
inductive Ending where
  | done
  | jump (j : Jump)
  | returned
  | raised
  deriving DecidableEq

/-- A part of a body, with its names resolved. -/
inductive Flow where
  | access (a : Access)
  | change (effect : LockEffect) (path : LockPath)
  | rebind (place : LockPath)
  /-- Leaves at once; with the ending `done`, does nothing. -/
  | leave (e : Ending)
  | never
  | seq (first second : Flow)
  | either (first second : Flow)
  /-- Goes round until an ending other than `done` leaves it. -/
  | forever (body : Flow)
  /-- The jumps of one kind out of the body come to its end. -/
  | landing (j : Jump) (body : Flow)
  /-- An exception out of the body may go on with the handler. -/
  | catching (body handler : Flow)
  | finalized (body finalizer : Flow)
  /-- Holds a lock for the body, unless it is held already. -/
  | locked (path : LockPath) (body : Flow)

namespace Flow

abbrev nothing : Flow := leave .done

/-- Leaves the loop around it, or goes on. -/
abbrev mayBreak : Flow := either (leave (.jump .breakOut)) nothing

end Flow

/-- How a walk leaves a flow: by its end and by jumps, as an `Outcome` without locals. -/
@[ext]
structure Exits where
  exit : FlowState
  jumps : Jump → List HeldSet := fun _ => []
  trace : Trace := {}

namespace Exits

/-- What an expression does is left by its end. -/
def ofEvaluated (e : Evaluated) : Exits := { exit := some e.held, trace := e.trace }

def leave (e : Ending) (held : HeldSet) : Exits :=
  match e with
  | .done => { exit := some held }
  | .jump j => { exit := none, jumps := fun k => if k = j then [held] else [] }
  | .returned | .raised => { exit := none }

/-- Goes on from the end of `first`, if it is reached. -/
def andThen (first : Exits) (second : HeldSet → Exits) : Exits :=
  match first.exit with
  | none => first
  | some held =>
    { exit := (second held).exit
      jumps := fun j => first.jumps j ++ (second held).jumps j
      trace := first.trace ++ (second held).trace }

def orElse (first second : Exits) : Exits :=
  { exit := first.exit.join second.exit
    jumps := fun j => first.jumps j ++ second.jumps j
    trace := first.trace ++ second.trace }

/-- Jumps of the kind `j` come to the end. -/
def landing (j : Jump) (o : Exits) : Exits :=
  { o with
    exit := o.exit.joinAll (o.jumps j)
    jumps := fun k => if k = j then [] else o.jumps k }

/-- Frees the lock at `path` on every way out. -/
def releasing (path : LockPath) (o : Exits) : Exits :=
  { o with
    exit := o.exit.map (·.erase path)
    jumps := fun j => (o.jumps j).map (·.erase path) }

/-- The states with which the flow is left, by jumps or by its end. -/
def waysOut (o : Exits) : List HeldSet :=
  o.jumps .breakOut ++ o.jumps .continueLoop ++ o.exit.toList

/-- The state in which a finalizer is walked for its accesses: what stays held on every way to it,
by the end of `o` or by an exception. -/
def finalizerEntry (held : HeldSet) (o : Exits) : HeldSet :=
  o.exit.elim (o.trace.floor held) (·.inter (o.trace.floor held))

/-- The finalizer's trace on each way out, without its accesses. -/
def replays (finalizer : HeldSet → Exits) (o : Exits) : Trace :=
  (o.waysOut.map fun s => (finalizer s).trace.silent).foldl (· ++ ·) {}

/-- Runs `finalizer` on every way out of `o`, entered with `held`. -/
def finalizing (finalizer : HeldSet → Exits) (held : HeldSet) (o : Exits) : Exits :=
  { exit := o.exit.bind fun s => (finalizer s).exit
    jumps := fun j => (o.jumps j).filterMap fun s => (finalizer s).exit
    trace := o.trace ++ ((finalizer (o.finalizerEntry held)).trace ++ o.replays finalizer) }

/-- The head of a loop once the body came back to it. -/
def nextHead (body : HeldSet → Exits) (head : HeldSet) : HeldSet :=
  (body head).exit.elim head head.inter

theorem size_nextHead {body : HeldSet → Exits} {head : HeldSet} (h : nextHead body head ≠ head) :
    (nextHead body head).size < head.size := by
  unfold nextHead at h ⊢
  cases he : (body head).exit with
  | none =>
    rw [he] at h
    exact absurd rfl h
  | some back =>
    rw [he] at h
    exact OrderedSet.size_inter_lt h

/-- The state of a loop's head that no further pass through the body makes smaller. -/
def stableHead (body : HeldSet → Exits) (head : HeldSet) : HeldSet :=
  if h : nextHead body head = head then head
  else
    have := size_nextHead h
    stableHead body (nextHead body head)
termination_by head.size

/-- The passes that find the stable head, without their accesses. -/
def passes (body : HeldSet → Exits) (head : HeldSet) : Trace :=
  if h : nextHead body head = head then (body head).trace.silent
  else
    have := size_nextHead h
    (body head).trace.silent ++ passes body (nextHead body head)
termination_by head.size

/-- Goes round from a stable head; what leaves the loop leaves its last pass. -/
def forever (body : HeldSet → Exits) (head : HeldSet) : Exits :=
  let last := body (stableHead body head)
  { exit := none, jumps := last.jumps, trace := passes body head ++ last.trace }

end Exits

namespace Flow

/-- Walks a flow that is reached with `held`. -/
def walk : Flow → HeldSet → Exits
  | .access a, held => { exit := some held, trace := .ofAccess a held }
  | .change effect path, held => .ofEvaluated (.applyEffect effect path held)
  | .rebind place, held => .ofEvaluated (.rebind place held)
  | .leave e, held => .leave e held
  | .never, _ => { exit := none }
  | .seq first second, held => (first.walk held).andThen second.walk
  | .either first second, held => (first.walk held).orElse (second.walk held)
  | .forever body, held => .forever body.walk held
  | .landing j body, held => (body.walk held).landing j
  | .catching body handler, held =>
    let o := body.walk held
    o.orElse (handler.walk (o.trace.floor held))
  | .finalized body finalizer, held => (body.walk held).finalizing finalizer.walk held
  | .locked path body, held =>
    if path ∈ held then body.walk held else (body.walk (held.insert path)).releasing path

end Flow

end LockDiscipline
