import LockDiscipline.Proofs.Held.Grounded
import LockDiscipline.Proofs.Held.Points

/-! A walk keeps a lock that it is entered with when it does not take the lock away where it stands
and each of its parts keeps it. -/

namespace LockDiscipline

/-- Whether the point takes the lock at `p` away: it frees the lock, or puts another object into a
place that the lock is reached through. -/
def Point.Touches (a : Point) (p : LockPath) : Prop :=
  match a.task with
  | .change .release path => path = p
  | .rebind place => p.reachedThrough place = true
  | _ => False

namespace WalkContext

variable (w : WalkContext) {a : Point} {σ : BodyScope} {held : HeldSet} {p : LockPath}

private theorem keeps_callParts (span : Option Span) {args : List (Option LockPath)}
    {site : Option (MemberSite MethodDecl)} : (w.callSite args span held site).trace.Keeps p ↔
      ∀ b ∈ w.callParts σ args held site, (w.outcome b).trace.Keeps p := by
  cases site with
  | none => simp [callSite, callParts, Evaluated.unchanged]
  | some site => simp [callSite, callParts, Evaluated.after]

private theorem keeps_lockCallParts {base : Place} {method : String} :
    (w.lockCall base method held).trace.Keeps p ↔
      ∀ b ∈ w.lockCallParts σ base method held, (w.outcome b).trace.Keeps p := by
  unfold lockCall lockCallParts
  cases w.api.effect? method with
  | none => simp [Evaluated.unchanged]
  | some effect =>
    cases base.type with
    | none => simp [Evaluated.unchanged]
    | some type =>
      cases base.path with
      | none => simp [Evaluated.unchanged]
      | some path => by_cases ht : w.api.isLockType type = true <;> simp [ht, Evaluated.unchanged]

private theorem keeps_exprParts (e : Expr) : (w.expr σ e held).trace.Keeps p ↔
    ∀ b ∈ w.exprParts σ e held, (w.outcome b).trace.Keeps p := by
  cases e with
  | literal | this => simp [exprParts, expr, Evaluated.unchanged]
  | name id span => cases h : σ.bareField id <;> simp [exprParts, expr, fieldTrace, h]
  | member base id span =>
    cases h : σ.fieldOf (σ.place base) id <;> simp [exprParts, expr, fieldTrace, h]
  | call callee args span =>
    cases callee with
    | name id s => simp [exprParts, expr, Evaluated.after, ← w.keeps_callParts span]
    | member base id s =>
      cases h : args.isEmpty with
      | false =>
        simp [exprParts, expr, Evaluated.after, ← w.keeps_callParts span, h, and_assoc]
      | true =>
        simp [exprParts, expr, Evaluated.after, ← w.keeps_callParts span, ← keeps_lockCallParts, h,
          or_imp, forall_and, and_assoc]
    | _ => simp [exprParts, expr, Evaluated.after]
  | assign target value =>
    cases h : (σ.place target).path <;> simp [exprParts, expr, Evaluated.after, h, and_assoc]
  | binary op left right =>
    cases h : op.shortCircuits <;> simp [exprParts, expr, Evaluated.after, h]
  | unary | conditional | new => simp [exprParts, expr]

private theorem keeps_optParts (e : Option Expr) : (w.optExpr σ e held).trace.Keeps p ↔
    ∀ b ∈ optParts σ e held, (w.outcome b).trace.Keeps p := by
  cases e <;> simp [optExpr, optParts, Evaluated.unchanged]

private theorem keeps_passParts (loop : Loop) : (w.pass σ loop held).trace.Keeps p ↔
    ∀ b ∈ w.passParts σ loop held, (w.outcome b).trace.Keeps p := by
  cases loop with
  | whileLoop | foreachLoop => simp [pass, passParts, LoopPass.exitFirst]
  | doLoop body condition =>
    simp only [pass, passParts, LoopPass.evalLast]
    cases (w.stmt σ body held).exit.joinAll (w.stmt σ body held).continues <;> simp
  | forLoop condition step body =>
    simp only [pass, passParts, LoopPass.evalLast, Outcome.after]
    cases (w.stmt σ body (w.optExpr σ condition held).held).exit.joinAll
      (w.stmt σ body (w.optExpr σ condition held).held).continues <;>
    simp [← keeps_optParts, or_imp, forall_and, and_assoc]

private theorem keeps_stmtParts (s : Stmt) : (w.stmt σ s held).trace.Keeps p ↔
    ∀ b ∈ w.stmtParts σ s held, (w.outcome b).trace.Keeps p := by
  cases s with
  | block | expr | ite | switch => simp [stmt, stmtParts]
  | empty | breakOut | continueLoop => simp [stmt, stmtParts, Outcome.done]
  | declare name type init =>
    simp [stmt, stmtParts, Evaluated.after, ← keeps_optParts, or_imp, forall_and]
  | ret value | raise value => simp [stmt, stmtParts, ← keeps_optParts]
  | whileLoop => simp [stmtParts, stmt_whileLoop]
  | doLoop => simp [stmtParts, stmt_doLoop]
  | forLoop init condition step body =>
    simp only [stmt_forLoop, stmtParts]
    cases (w.stmts σ.push init held).exit <;> simp
  | foreachLoop => simp [stmtParts, stmt_foreachLoop]
  | tryCatch body catches finalizer =>
    simp [stmt_tryCatch, stmtParts, Outcome.finalizing, Trace.keeps_foldl_append, trace_handled,
      and_assoc]
  | lock target body =>
    cases hpath : (σ.place target).path with
    | none => simp [stmt, stmtParts, hpath]
    | some path =>
      rw [w.stmt_lock hpath]
      dsimp only
      split <;> simp [stmtParts, hpath]

private theorem keeps_catchParts (l : List Catch) :
    (w.catches σ (.unreached σ.locals) l held).trace.Keeps p ↔
      ∀ b ∈ w.catchParts σ l held, (w.outcome b).trace.Keeps p := by
  match l with
  | [] => simp [catches, catchParts, Outcome.unreached]
  | .mk type (some name) body :: rest => simp [catches_cons_some, catchParts, and_assoc]
  | .mk type none body :: rest => simp [catches_cons_none, catchParts]

/-- A lock that is held at a point is kept from there on exactly if the point does not take it away
and each part of the walk keeps it. -/
theorem keeps_iff (hp : p ∈ a.held) : (w.outcome a).trace.Keeps p ↔
    ¬ a.Touches p ∧ ∀ b ∈ w.parts a, (w.outcome b).trace.Keeps p := by
  obtain ⟨σ, task, held⟩ := a
  have huntouched {q : Prop} : q ↔ ¬ False ∧ q := ⟨fun h => ⟨id, h⟩, And.right⟩
  cases task with
  | change effect path =>
    cases effect with
    | acquire =>
      have hkept : p ∈ held.insert path := OrderedSet.mem_insert.2 (.inr hp)
      simpa [Point.Touches, parts, Trace.Keeps, Evaluated.applyEffect, LockEffect.apply] using hkept
    | release =>
      have hkept : p ∈ held.erase path ↔ path ≠ p :=
        OrderedSet.mem_erase.trans ⟨fun h => Ne.symm h.2, fun h => ⟨hp, Ne.symm h⟩⟩
      simpa [Point.Touches, parts, Trace.Keeps, Evaluated.applyEffect, LockEffect.apply] using hkept
  | rebind place =>
    have hkept : p ∈ held.invalidate place ↔ p.reachedThrough place = false :=
      HeldSet.mem_invalidate.trans ⟨And.right, fun h => ⟨hp, h⟩⟩
    simpa [Point.Touches, parts, Evaluated.keeps_rebind hp] using hkept
  | bindings receiver args bs =>
    cases bs with
    | nil => simp [parts, Point.Touches, applyBindings, Evaluated.unchanged]
    | cons b rest =>
      cases h : b.lock.path.instantiate receiver args <;>
        simp [parts, Point.Touches, applyBindings, Evaluated.after, h, Evaluated.applyEffect]
  | expr e => exact (w.keeps_exprParts e).trans huntouched
  | exprs es =>
    cases es with
    | nil => simp [parts, Point.Touches, exprs, Evaluated.unchanged]
    | cons e rest => simp [parts, Point.Touches, exprs, Evaluated.after]
  | stmt s => exact (w.keeps_stmtParts s).trans huntouched
  | stmts body =>
    cases body with
    | nil => simp [parts, Point.Touches, stmts, Outcome.done]
    | cons s rest =>
      simp only [parts, outcome_stmts, stmts]
      cases (w.stmt σ s held).exit <;> simp [Point.Touches]
  | sections l =>
    cases l with
    | nil => simp [parts, Point.Touches, sections]
    | cons s rest =>
      obtain ⟨d, body⟩ := s
      simp [parts, Point.Touches, sections]
  | catches l => exact (w.keeps_catchParts l).trans huntouched
  | pass loop => exact (w.keeps_passParts loop).trans huntouched
  | rounds loop =>
    by_cases h : (w.pass σ loop held).nextHead held = held
    · simp [parts, Point.Touches, w.rounds_of_stable h, h, LoopPass.outcome]
    · simp [parts, Point.Touches, w.rounds_of_unstable h, h, LoopPass.outcome]

end WalkContext

end LockDiscipline
