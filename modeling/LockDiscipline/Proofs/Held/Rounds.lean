import LockDiscipline.Proofs.Held.Monotone
import LockDiscipline.Proofs.Held.Points

/-! The head of a loop. A pass is a monotone function of the state at the head, so the passes come
down to the largest head that a pass brings back, and there are no more of them than locks to lose. -/

namespace LockDiscipline

/-- Whether `head` is the largest part of `entry` that comes back whole from a pass. Where a pass does
not come back, everything does. -/
structure GreatestHead (back : HeldSet → FlowState) (entry head : HeldSet) : Prop where
  subset : head ⊆ entry
  comesBack : ∀ s, back head = some s → head ⊆ s
  greatest : ∀ part, part ⊆ entry → (∀ s, back part = some s → part ⊆ s) → part ⊆ head

namespace LoopPass

variable (pass : Locals → HeldSet → LoopPass) {l : Locals} {head : HeldSet}

/-- The locals and the heads from which the passes start that find the head of a loop. -/
def silentStarts (l : Locals) (head : HeldSet) :
    List (Locals × HeldSet) :=
  (l, head) ::
    if h : (pass l head).nextHead head = head then []
    else
      have := size_nextHead_lt h
      silentStarts (pass l head).locals ((pass l head).nextHead head)
termination_by head.size

/-- The locals and the head from which the last pass starts. -/
def lastStart (l : Locals) (head : HeldSet) :
    Locals × HeldSet :=
  if h : (pass l head).nextHead head = head then ((pass l head).locals, head)
  else
    have := size_nextHead_lt h
    lastStart (pass l head).locals ((pass l head).nextHead head)
termination_by head.size

/-- A loop is left as its last pass leaves it, after passes that make no report. -/
theorem run_eq (l : Locals) (head : HeldSet) : run pass l head =
    let last := pass (lastStart pass l head).1 (lastStart pass l head).2
    { locals := last.locals
      exit := last.exit
      trace := (silentStarts pass l head).foldr (fun x t => (pass x.1 x.2).trace.silent ++ t)
        last.trace } := by
  induction hn : head.size using Nat.strongRecOn generalizing l head with
  | ind n ih =>
    rw [lastStart, silentStarts]
    by_cases h : (pass l head).nextHead head = head
    · rw [run_of_stable pass h, dif_pos h, dif_pos h]
      rfl
    · subst hn
      rw [run_of_unstable pass h, dif_neg h, dif_neg h, ih _ (size_nextHead_lt h) _ _ rfl]
      rfl

/-- Each pass but the last silent one takes a lock from the head. -/
theorem length_silentStarts (l : Locals) (head : HeldSet) :
    (silentStarts pass l head).length ≤ head.size + 1 := by
  induction hn : head.size using Nat.strongRecOn generalizing l head with
  | ind n ih =>
    rw [silentStarts]
    split
    · simp
    · next h =>
      have hlt := size_nextHead_lt h
      have hle := ih _ (hn ▸ hlt) (pass l head).locals _ rfl
      rw [List.length_cons]
      omega

section Closed

variable (hlocals : ∀ head, (pass l head).locals = l)

include hlocals

theorem exists_heads (head : HeldSet) : ∃ (silent : List HeldSet) (last : HeldSet),
    silentStarts pass l head = silent.map (Prod.mk l) ∧ lastStart pass l head = (l, last) := by
  induction hn : head.size using Nat.strongRecOn generalizing head with
  | ind n ih =>
    rw [silentStarts, lastStart, hlocals]
    split
    · exact ⟨[head], head, rfl, rfl⟩
    · next h =>
      obtain ⟨silent, last, hsilent, hlast⟩ := ih _ (hn ▸ size_nextHead_lt h) _ rfl
      exact ⟨head :: silent, last, by rw [hsilent]; rfl, hlast⟩

/-- If what comes back grows with the head, the last pass starts from the largest head. -/
theorem greatestHead_lastStart
    (hmono : ∀ a b, a ⊆ b → (pass l a).back.Below (pass l b).back) (head : HeldSet) :
    GreatestHead (fun h => (pass l h).back) head (lastStart pass l head).2 := by
  induction hn : head.size using Nat.strongRecOn generalizing head with
  | ind n ih =>
    rw [lastStart, hlocals]
    split
    · next h =>
      refine ⟨OrderedSet.Subset.refl head, fun s hs p hp => ?_, fun part hpart _ => hpart⟩
      rw [← h, mem_nextHead] at hp
      exact hp.2.mem hs
    · next h =>
      obtain ⟨hsubset, hback, hgreatest⟩ := ih _ (hn ▸ size_nextHead_lt h) _ rfl
      refine ⟨fun p hp => (mem_nextHead.1 (hsubset p hp)).1, hback, fun part hpart hs => ?_⟩
      -- A part that comes back whole comes back from the larger head too, so it is not lost.
      refine hgreatest part (fun p hp => mem_nextHead.2 ⟨hpart p hp, ?_⟩) hs
      have hback : (pass l part).back.Holds p := FlowState.holds_iff.2 fun s hs' => hs s hs' p hp
      exact hback.mono (hmono part head hpart)

end Closed

end LoopPass

namespace Loop

def body : Loop → Stmt
  | .whileLoop _ body | .doLoop body _ | .forLoop _ _ body | .foreachLoop _ body => body

/-- Whether no declaration in a round is seen by the next one. -/
def closed (loop : Loop) : Bool := !loop.body.declaresBare && loop.body.loopsClosed

end Loop

namespace WalkContext

variable (w : WalkContext) {σ σ' : BodyScope} {held entry : HeldSet} {loop : Loop}

/-- The loop that a closed statement goes round is closed, and leads out of the statement. -/
theorem loop_of_mem_parts {s : Stmt} (hs : s.loopsClosed = true)
    (h : ⟨σ', .rounds loop, entry⟩ ∈ w.parts ⟨σ, .stmt s, held⟩) :
    loop.closed = true ∧ (w.stmt σ s held).exit = (w.rounds σ' loop entry).exit := by
  have hnone (e : Option Expr) : ⟨σ', .rounds loop, entry⟩ ∉ optParts σ e held := by
    cases e <;> simp [optParts]
  cases s with
  | whileLoop condition body =>
    simp only [parts, stmtParts, List.mem_singleton, Point.mk.injEq, Task.rounds.injEq] at h
    obtain ⟨rfl, rfl, rfl⟩ := h
    exact ⟨hs, congrArg Outcome.exit w.stmt_whileLoop⟩
  | doLoop body condition =>
    simp only [parts, stmtParts, List.mem_singleton, Point.mk.injEq, Task.rounds.injEq] at h
    obtain ⟨rfl, rfl, rfl⟩ := h
    exact ⟨hs, congrArg Outcome.exit w.stmt_doLoop⟩
  | forLoop init condition step body =>
    simp only [Stmt.loopsClosed, Bool.and_eq_true] at hs
    simp only [parts, stmtParts, List.mem_cons, Point.mk.injEq, reduceCtorEq, false_and, and_false,
      false_or, Option.mem_toList, Option.map_eq_some_iff, Task.rounds.injEq] at h
    obtain ⟨_, hexit, rfl, rfl, rfl⟩ := h
    refine ⟨Bool.and_eq_true_iff.2 hs.2, ?_⟩
    rw [stmt_forLoop]
    dsimp only
    rw [hexit]
    rfl
  | foreachLoop name type iterable body =>
    simp only [parts, stmtParts, List.mem_cons, Point.mk.injEq, reduceCtorEq, false_and, and_false,
      false_or, Task.rounds.injEq, List.not_mem_nil, or_false] at h
    obtain ⟨rfl, rfl, rfl⟩ := h
    refine ⟨hs, ?_⟩
    rw [stmt_foreachLoop]
    rfl
  | ret value | raise value => exact absurd h (hnone value)
  | declare name type init => simp [parts, stmtParts, hnone] at h
  | _ => simp [parts, stmtParts] at h

/-- One round of a loop, with its names resolved. -/
def roundFlow (σ : BodyScope) : Loop → Flow
  | .whileLoop condition body =>
    .seq (w.exprFlow σ condition) <|
    .seq (loopExit condition.isTrue) (.landing .continueLoop (w.stmtFlow σ body))
  | .doLoop body condition =>
    .seq (.landing .continueLoop (w.stmtFlow σ body)) <|
    .seq (w.exprFlow σ condition) (loopExit condition.isTrue)
  | .forLoop condition step body =>
    .seq (w.optExprFlow σ condition) <|
    .seq (loopExit (condition.all Expr.isTrue)) <|
    .seq (.landing .continueLoop (w.stmtFlow σ body)) (w.exprsFlow σ step)
  | .foreachLoop name body =>
    .seq (.rebind (.var name)) <|
    .seq (loopExit false) (.landing .continueLoop (w.stmtFlow σ body))

/-- A pass through a closed loop goes as its round does. -/
theorem pass_follows (hclosed : loop.closed = true) (head : HeldSet) :
    (w.pass σ loop head).Follows σ.locals ((w.roundFlow σ loop).walk head) := by
  simp only [Loop.closed, Bool.and_eq_true, Bool.not_eq_true'] at hclosed
  have hlocals (held : HeldSet) : (w.stmt σ loop.body held).locals = σ.locals := by
    rw [w.locals_stmt loop.body σ held hclosed.2, BodyScope.after_of_closed loop.body hclosed.1]
  have hwalk (held : HeldSet) := w.walk_stmtFlow loop.body σ held hclosed.2
  cases loop with
  | whileLoop condition body =>
    rw [roundFlow, Flow.walk, walk_exprFlow]
    exact exitFirst_follows (hlocals _) (hwalk _)
  | doLoop body condition =>
    have hbody : (w.stmt σ body head).locals = σ.locals := hlocals head
    rw [pass, hbody]
    exact exitLast_follows (hlocals _) (hwalk _) (w.walk_exprFlow σ condition)
  | forLoop condition step body =>
    have hbody : (w.stmt σ body (w.optExpr σ condition head).held).locals = σ.locals := hlocals _
    rw [pass, roundFlow, Flow.walk, walk_optExprFlow, Outcome.locals_after, hbody]
    exact exitFirst_last_follows (hlocals _) (hwalk _) (w.walk_exprsFlow σ step)
  | foreachLoop name body =>
    rw [roundFlow, Flow.walk]
    exact exitFirst_follows (hlocals _) (hwalk _)

/-- A pass that starts from more locks comes back with more. -/
theorem back_below (hclosed : loop.closed = true) {a b : HeldSet} (h : a ⊆ b) :
    (w.pass σ loop a).back.Below (w.pass σ loop b).back := by
  rw [(w.pass_follows hclosed a).back, (w.pass_follows hclosed b).back]
  exact ((w.roundFlow σ loop).walk_below a b h).exit

/-- A closed loop is left as its last pass leaves it, which starts from the largest head within the
entry that a pass brings back. All passes start in the locals of the entry, and at most one more than
there are locks at the entry come before the last. No body makes a walk descend without end. -/
theorem rounds_greatest {s : Stmt} (hs : s.loopsClosed = true)
    (hloop : ⟨σ', .rounds loop, entry⟩ ∈ w.parts ⟨σ, .stmt s, held⟩) :
    (w.stmt σ s held).exit = (w.rounds σ' loop entry).exit ∧
    (∀ start : HeldSet, ∃ (silent : List HeldSet) (last : HeldSet),
      LoopPass.silentStarts (w.passIn σ' loop) σ'.locals start = silent.map (Prod.mk σ'.locals) ∧
      LoopPass.lastStart (w.passIn σ' loop) σ'.locals start = (σ'.locals, last) ∧
      w.rounds σ' loop start =
        { locals := σ'.locals
          exit := (w.pass σ' loop last).exit
          trace := silent.foldr (fun head t => (w.pass σ' loop head).trace.silent ++ t)
            (w.pass σ' loop last).trace } ∧
      silent.length ≤ start.size + 1 ∧
      GreatestHead (fun head => (w.pass σ' loop head).back) start last) ∧
    WellFounded fun b a => b ∈ w.parts a := by
  obtain ⟨hclosed, hexit⟩ := w.loop_of_mem_parts hs hloop
  refine ⟨hexit, fun start => ?_, w.wellFounded_parts⟩
  have hlocals (head : HeldSet) : (w.passIn σ' loop σ'.locals head).locals = σ'.locals :=
    (w.pass_follows hclosed head).locals
  obtain ⟨silent, last, hsilent, hlast⟩ := LoopPass.exists_heads _ hlocals start
  have hgreatest := LoopPass.greatestHead_lastStart _ hlocals
    (fun _ _ hsub => w.back_below hclosed hsub) start
  have hlength := LoopPass.length_silentStarts (w.passIn σ' loop) σ'.locals start
  rw [hsilent, List.length_map] at hlength
  rw [hlast] at hgreatest
  refine ⟨silent, last, hsilent, hlast, ?_, hlength, hgreatest⟩
  rw [rounds, LoopPass.run_eq, hsilent, hlast]
  dsimp only
  rw [List.foldr_map]
  exact congrArg (fun l => Outcome.mk l _ _ _ _) (hlocals last)

end WalkContext

namespace Counter

/-- `while (x) { x; lock.unlock(); }` -/
def freedInLoop : Loop :=
  .whileLoop readX
    (.block [.expr readX, .expr (.call (.member (.name "lock" none) "unlock" none) [] none)])

/-- A lock that is held before the loop only is not held at its head. -/
theorem greatestHead_freedInLoop :
    GreatestHead (fun head => (context.pass scope freedInLoop head).back) (.insert ∅ lock) ∅ := by
  have hclosed : Stmt.loopsClosed (.whileLoop readX freedInLoop.body) = true := by decide
  have hloop : ⟨scope, .rounds freedInLoop, ∅⟩ ∈
      context.parts ⟨scope, .stmt (.whileLoop readX freedInLoop.body), ∅⟩ := .head _
  obtain ⟨silent, last, -, hlast, -, -, hgreatest⟩ :=
    (context.rounds_greatest hclosed hloop).2.1 (.insert ∅ lock)
  have hempty : LoopPass.lastStart (context.passIn scope freedInLoop) scope.locals (.insert ∅ lock) =
      (scope.locals, ∅) := by decide +kernel
  rw [hempty] at hlast
  obtain rfl := (Prod.mk.inj hlast).2
  exact hgreatest

end Counter

end LockDiscipline
