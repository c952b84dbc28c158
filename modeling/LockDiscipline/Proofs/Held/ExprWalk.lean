import LockDiscipline.Proofs.Held.BodyFlow

/-! The walk of an expression is the walk of its flow. -/

namespace LockDiscipline

namespace Exits

/-- What happened before, put before the exits. -/
def after (before : Trace) (o : Exits) : Exits := { o with trace := before ++ o.trace }

@[simp] theorem ofEvaluated_andThen (e : Evaluated) (second : HeldSet → Exits) :
    (ofEvaluated e).andThen second = (second e.held).after e.trace := rfl

@[simp] theorem ofEvaluated_after (before : Trace) (e : Evaluated) :
    ofEvaluated (e.after before) = (ofEvaluated e).after before := rfl

theorem orElse_assoc (a b c : Exits) : (a.orElse b).orElse c = a.orElse (b.orElse c) := by
  ext1
  · exact FlowState.join_assoc
  · funext j
    exact List.append_assoc _ _ _
  · exact Trace.append_assoc

end Exits

namespace WalkContext

variable (w : WalkContext) (σ : BodyScope)

private theorem walk_fieldFlow (id : String) (span : Option Span) (held : HeldSet)
    (site : Option (MemberSite FieldDecl)) :
    (fieldFlow id span site).walk held =
      { exit := some held, trace := fieldTrace id span held site } := by
  cases site <;> rfl

private theorem walk_bindingsFlow (receiver : Option LockPath) (args : List (Option LockPath))
    (bs : List LockBinding) (held : HeldSet) :
    (bindingsFlow receiver args bs).walk held =
      .ofEvaluated (applyBindings receiver args bs held) := by
  induction bs generalizing held with
  | nil => rfl
  | cons b rest ih =>
    rw [bindingsFlow, applyBindings]
    cases b.lock.path.instantiate receiver args with
    | none => exact ih held
    | some path =>
      simp only [Flow.walk, Exits.ofEvaluated_andThen, ih]
      rfl

private theorem walk_callFlow (args : List (Option LockPath)) (span : Option Span) (held : HeldSet)
    (site : Option (MemberSite MethodDecl)) :
    (w.callFlow args span site).walk held = .ofEvaluated (w.callSite args span held site) := by
  cases site with
  | none => rfl
  | some site =>
    simp only [callFlow, callSite, Flow.walk, walk_bindingsFlow, Exits.andThen]
    rfl

private theorem walk_lockCallFlow (base : Place) (method : String) (held : HeldSet) :
    (w.lockCallFlow base method).walk held = .ofEvaluated (w.lockCall base method held) := by
  unfold lockCallFlow lockCall
  cases w.api.effect? method with
  | none => rfl
  | some effect =>
    cases base.type with
    | none => rfl
    | some type =>
      cases base.path with
      | none => rfl
      | some path => by_cases ht : w.api.isLockType type = true <;> simp only [ht, if_true] <;> rfl

mutual

/-- An expression is walked as its flow is. -/
theorem walk_exprFlow : ∀ (e : Expr) (held : HeldSet),
    (w.exprFlow σ e).walk held = .ofEvaluated (w.expr σ e held)
  | .literal _, held => rfl
  | .this, held => rfl
  | .name id span, held => by
    rw [exprFlow, expr, walk_fieldFlow]
    rfl
  | .member base id span, held => by
    rw [exprFlow, expr, Flow.walk, walk_exprFlow base, Exits.ofEvaluated_andThen, walk_fieldFlow]
    rfl
  | .call (.name id _) args span, held => by
    rw [exprFlow, expr, Flow.walk, walk_exprsFlow args, Exits.ofEvaluated_andThen, walk_callFlow]
    rfl
  | .call (.member base id _) args span, held => by
    have hcalled (c : Flow) : (Flow.seq (.seq (w.exprFlow σ base) (w.exprsFlow σ args)) c).walk held =
        ((c.walk (w.exprs σ args (w.expr σ base held).held).held).after
          ((w.expr σ base held).trace ++
            (w.exprs σ args (w.expr σ base held).held).trace)) := by
      simp only [Flow.walk, walk_exprFlow base, walk_exprsFlow args, Exits.ofEvaluated_andThen,
        ← Exits.ofEvaluated_after]
      rfl
    rw [exprFlow, expr]
    split
    · simp only [Flow.walk] at hcalled ⊢
      rw [hcalled, walk_callFlow, ← Exits.ofEvaluated_after, Exits.ofEvaluated_andThen,
        walk_lockCallFlow]
      rfl
    · rw [hcalled, walk_callFlow]
      rfl
  | .call (.literal _) args _, held | .call .this args _, held | .call (.call ..) args _, held
  | .call (.assign ..) args _, held | .call (.unary ..) args _, held
  | .call (.binary ..) args _, held | .call (.conditional ..) args _, held
  | .call (.new ..) args _, held => by
    rw [exprFlow, expr, Flow.walk, walk_exprFlow, Exits.ofEvaluated_andThen, walk_exprsFlow args]
    · rfl
    all_goals nofun
  | .assign target value, held => by
    rw [exprFlow, expr]
    cases (σ.place target).path with
    | none =>
      simp only [Flow.walk, walk_exprFlow target, walk_exprFlow value, Exits.ofEvaluated_andThen]
      rfl
    | some place =>
      simp only [Flow.walk, walk_exprFlow target, walk_exprFlow value, Exits.ofEvaluated_andThen,
        ← Exits.ofEvaluated_after]
  | .unary _ operand, held => by
    rw [exprFlow, expr, walk_exprFlow operand]
  | .binary op left right, held => by
    rw [exprFlow, expr]
    split
    · simp only [Flow.walk, walk_exprFlow left, walk_exprFlow right, Exits.ofEvaluated_andThen]
      rfl
    · simp only [Flow.walk, walk_exprFlow left, walk_exprFlow right, Exits.ofEvaluated_andThen]
      rfl
  | .conditional condition thenArm elseArm, held => by
    rw [exprFlow, expr]
    simp only [Flow.walk, walk_exprFlow condition, walk_exprFlow thenArm, walk_exprFlow elseArm,
      Exits.ofEvaluated_andThen]
    -- The arms meet in the other order.
    have hmeet := OrderedSet.inter_comm (w.expr σ thenArm (w.expr σ condition held).held).held
      (w.expr σ elseArm (w.expr σ condition held).held).held
    simp only [Exits.ofEvaluated, Exits.orElse, Exits.after, FlowState.join, hmeet]
    rfl
  | .new _ args, held => by
    rw [exprFlow, expr, walk_exprsFlow args]

theorem walk_exprsFlow : ∀ (es : List Expr) (held : HeldSet),
    (w.exprsFlow σ es).walk held = .ofEvaluated (w.exprs σ es held)
  | [], held => rfl
  | e :: rest, held => by
    rw [exprsFlow, exprs, Flow.walk, walk_exprFlow e, Exits.ofEvaluated_andThen,
      walk_exprsFlow rest]
    rfl

end

theorem walk_optExprFlow (σ : BodyScope) (e : Option Expr) (held : HeldSet) :
    (w.optExprFlow σ e).walk held = .ofEvaluated (w.optExpr σ e held) := by
  cases e with
  | none => rfl
  | some e => exact w.walk_exprFlow σ e held

end WalkContext

end LockDiscipline
