import LockDiscipline.Proofs.Held.OpenTries

/-! What a walk in place does to a walker, step by step. It comes to an end, with what the walk of
the same part gives, and if the `try`s are in order where it starts, they are at each moment. -/

namespace LockDiscipline

open List (forall_mem_nil forall_mem_singleton forall_mem_append)

namespace Evaluated

variable {a b : Trace} {e : Evaluated}

theorem after_after : (e.after b).after a = e.after (a ++ b) := by
  simp only [after, Trace.append_assoc]

theorem unchanged_after : (unchanged e.held).after e.trace = e := by
  simp only [after, unchanged, Trace.append_empty]

end Evaluated

namespace Walk

variable {α β : Type} {m m' m'' : Walker} {held s : HeldSet} {ordered : Prop} {a a' : α} {b : β}

theorem bind_eq_some_iff {walk : Walk α} {next : α → Walk β} {last : Stretch β} :
    (walk >>= next) m = some last ↔ ∃ first second, walk m = some first ∧
      next first.value first.walker = some second ∧
      { second with moments := first.moments ++ second.moments } = last := by
  change (walk m).bind _ = some last ↔ _
  simp only [Option.bind_eq_some_iff, Option.map_eq_some_iff]
  constructor
  · rintro ⟨first, hfirst, second, hsecond, hlast⟩
    exact ⟨first, second, hfirst, hsecond, hlast⟩
  · rintro ⟨first, second, hfirst, hsecond, hlast⟩
    exact ⟨first, hfirst, second, hsecond, hlast⟩

/-- From `m`, the walk gives `a` and leaves `m'`. If `ordered` holds, the `try`s are in order at
each moment on its way. -/
def Meets (walk : Walk α) (m : Walker) (ordered : Prop) (a : α) (m' : Walker) : Prop :=
  ∃ moments, walk m = some ⟨a, m', moments⟩ ∧ (ordered → ∀ x ∈ moments, x.walker.OrderedAt x.held)

theorem meets_pure : (pure a : Walk α).Meets m ordered a m := ⟨[], rfl, fun _ => forall_mem_nil _⟩

theorem Meets.bind {walk : Walk α} {next : α → Walk β} (h : walk.Meets m ordered a m')
    (hnext : (next a).Meets m' ordered b m'') : (walk >>= next).Meets m ordered b m'' := by
  obtain ⟨first, hfirst, horder⟩ := h
  obtain ⟨second, hsecond, horder'⟩ := hnext
  exact ⟨first ++ second, bind_eq_some_iff.2 ⟨_, _, hfirst, hsecond, rfl⟩,
    fun ho => forall_mem_append.2 ⟨horder ho, horder' ho⟩⟩

theorem Meets.of_imp {walk : Walk α} {ordered' : Prop} (h : walk.Meets m ordered' a m')
    (himp : ordered → ordered') : walk.Meets m ordered a m' := by
  obtain ⟨moments, hwalk, horder⟩ := h
  exact ⟨moments, hwalk, fun ho => horder (himp ho)⟩

theorem Meets.of_eq {walk : Walk α} (h : walk.Meets m ordered a m') (ha : a = a') (hm : m' = m'') :
    walk.Meets m ordered a' m'' := by
  subst ha hm
  exact h

theorem meets_note : (note held).Meets m (m.OrderedAt held) () m :=
  ⟨[⟨held, m⟩], rfl, fun ho => forall_mem_singleton.2 ho⟩

theorem meets_get : get.Meets m ordered m m := ⟨[], rfl, fun _ => forall_mem_nil _⟩

theorem meets_modify {f : Walker → Walker} : (modify f).Meets m ordered () (f m) :=
  ⟨[], rfl, fun _ => forall_mem_nil _⟩

theorem Meets.noting {walk : Walk α} {reached : α → FlowState} (h : walk.Meets m ordered a m')
    (hbefore : ordered → m.OrderedAt held)
    (hafter : ∀ s, reached a = some s → ordered → m'.OrderedAt s) :
    (noting held reached walk).Meets m ordered a m' := by
  refine (meets_note.of_imp hbefore).bind (h.bind ?_)
  cases hs : reached a with
  | none => exact meets_pure.bind meets_pure
  | some s => exact (meets_note.of_imp (hafter s hs)).bind meets_pure

theorem meets_jumpMarks : jumpMarks.Meets m ordered m.frames.marks m :=
  ⟨[], rfl, fun _ => forall_mem_nil _⟩

theorem meets_leaveBlock (h : m.scope.locals.enclosing ≠ []) :
    leaveBlock.Meets m ordered () { m with scope := m.scope.pop } :=
  ⟨[], if_neg h, fun _ => forall_mem_nil _⟩

theorem meets_leaveFrame {f : JumpFrame} {rest : Frames} (h : m.frames = f :: rest) :
    leaveFrame.Meets m ordered f { m with frames := rest } :=
  ⟨[], by simp only [leaveFrame, h], fun _ => forall_mem_nil _⟩

theorem meets_leaveTry {x : OpenTry} {rest : List OpenTry} (h : m.tries = x :: rest) :
    leaveTry.Meets m ordered x.seen { m with tries := rest } :=
  ⟨[], by simp only [leaveTry, h], fun _ => forall_mem_nil _⟩

theorem meets_silently {walk : Walk α} {l : Locals} {t : Trace}
    (h : walk.Meets { m with reporting := false } ordered a
      ({ m with reporting := false }.went l t)) :
    (silently walk).Meets m ordered a (m.went l t.silent) := by
  have hm : { { m with reporting := false }.went l t with reporting := m.reporting } =
      m.went l t.silent := by
    have hreports : m.reports t.silent = [] := ite_self []
    rw [Walker.went, Walker.went, hreports]
    rfl
  exact .of_eq (meets_get.bind (meets_modify.bind (h.bind (meets_modify.bind meets_pure)))) rfl hm

/-- The start of a part is among its moments, and so is its end, if it is reached. -/
theorem mem_moments_noting {walk : Walk α} {reached : α → FlowState} {moments : List Moment}
    (h : noting held reached walk m = some ⟨a, m', moments⟩) :
    ⟨held, m⟩ ∈ moments ∧ ∀ s, reached a = some s → ⟨s, m'⟩ ∈ moments := by
  obtain ⟨_, _, hbefore, hrest, hlast⟩ := bind_eq_some_iff.1 h
  obtain ⟨part, _, -, htail, rfl⟩ := bind_eq_some_iff.1 hrest
  obtain ⟨after, _, hafter, hreturn, rfl⟩ := bind_eq_some_iff.1 htail
  obtain rfl := Option.some.inj hbefore
  obtain rfl := Option.some.inj hreturn
  injection hlast with ha hm hmoments
  subst ha hm hmoments
  refine ⟨List.mem_cons_self, fun s hs => ?_⟩
  rw [hs] at hafter
  obtain rfl := Option.some.inj hafter
  simp

/-- From `m`, the walk goes as the evaluation does that is entered with `held`, and the `try`s stay
in order. -/
structure Evaluates (walk : Walk HeldSet) (m : Walker) (held : HeldSet) (e : Evaluated) : Prop where
  meets : walk.Meets m (m.OrderedAt held) e.held (m.passed e.trace)
  ordered : m.OrderedAt held → (m.passed e.trace).OrderedAt e.held

variable {walk : Walk HeldSet} {e e' : Evaluated} {t : Trace}

/-- What is done after an evaluation that is not one itself. -/
theorem Meets.eval {next : HeldSet → Walk α} (h : walk.Evaluates m held e)
    (hnext : (next e.held).Meets (m.passed e.trace) ((m.passed e.trace).OrderedAt e.held) a m') :
    (walk >>= next).Meets m (m.OrderedAt held) a m' :=
  h.meets.bind (hnext.of_imp h.ordered)

theorem Evaluates.of_eq (h : walk.Evaluates m held e) (he : e = e') : walk.Evaluates m held e' :=
  he ▸ h

theorem evaluates_return : (pure held : Walk HeldSet).Evaluates m held (.unchanged held) := by
  have hm : m.passed (Evaluated.unchanged held).trace = m := Walker.passed_empty
  constructor
  · rw [hm]
    exact meets_pure
  · rw [hm]
    exact id

/-- What is done after an evaluation. -/
theorem Evaluates.bind {next : HeldSet → Walk HeldSet} (h : walk.Evaluates m held e)
    (hnext : (next e.held).Evaluates (m.passed e.trace) e.held e') :
    (walk >>= next).Evaluates m held (e'.after e.trace) := by
  obtain ⟨hmeets, hordered⟩ := hnext
  rw [Walker.passed_passed] at hmeets hordered
  exact ⟨h.meets.bind (hmeets.of_imp h.ordered), fun ho => hordered (h.ordered ho)⟩

theorem evaluates_get {next : Walker → Walk HeldSet} (h : (next m).Evaluates m held e) :
    (get >>= next).Evaluates m held e :=
  ⟨meets_get.bind h.meets, h.ordered⟩

/-- What is done after a report. -/
theorem Meets.evaluates {report : Walk Unit} (next : Unit → Walk HeldSet)
    (h : report.Meets m (m.OrderedAt held) () (m.passed t))
    (hnext : (next ()).Evaluates (m.passed t) held e) :
    (report >>= next).Evaluates m held (e.after t) := by
  obtain ⟨hmeets, hordered⟩ := hnext
  rw [Walker.passed_passed] at hmeets hordered
  exact ⟨h.bind (hmeets.of_imp fun ho => ho.passed), fun ho => hordered ho.passed⟩

/-- Where what is evaluated last flows together with what is held before. -/
theorem Evaluates.join {before : HeldSet} (h : walk.Evaluates m held e)
    (hbefore : m.OrderedAt held → m.OrderedAt before) :
    (walk >>= fun s => pure (before.inter s)).Evaluates m held
      { e with held := before.inter e.held } where
  meets := h.meets.bind meets_pure
  ordered ho := (hbefore ho).passed.inter (h.ordered ho)

/-- Where two arms flow together. -/
theorem Evaluates.either {other : Walk HeldSet} (h : walk.Evaluates m held e)
    (hother : other.Evaluates (m.passed e.trace) held e') :
    (walk >>= fun s => other >>= fun s' => pure (s'.inter s)).Evaluates m held
      { held := e'.held.inter e.held, trace := e.trace ++ e'.trace } := by
  obtain ⟨hmeets, hordered⟩ := hother
  rw [Walker.passed_passed] at hmeets hordered
  refine ⟨h.meets.bind ((hmeets.of_imp fun ho => ho.passed).bind meets_pure), fun ho => ?_⟩
  refine (hordered ho.passed).inter ?_
  rw [← Walker.passed_passed]
  exact (h.ordered ho).passed

theorem Evaluates.noting (h : walk.Evaluates m held e) :
    (noting held some walk).Evaluates m held e := by
  refine ⟨h.meets.noting id ?_, h.ordered⟩
  rintro s hs ho
  obtain rfl := Option.some.inj hs
  exact h.ordered ho

theorem evaluates_change :
    (change s).Evaluates m held { held := s, trace := { kept := some s } } := by
  have hm : { m with tries := m.tries.map fun t => { t with seen := t.seen.inter s } } =
      m.passed { kept := some s } := by
    ext1
    · rfl
    · rfl
    · rfl
    · rfl
    · exact ((congrArg (m.accesses ++ ·) (ite_self [])).trans (List.append_nil _)).symm
  have hordered (ho : m.OrderedAt held) : (m.passed { kept := some s }).OrderedAt s :=
    ho.went fun p _ hkept => hkept
  refine ⟨?_, hordered⟩
  have hmodify : (modify fun m => { m with
      tries := m.tries.map fun t => { t with seen := t.seen.inter s } }).Meets m (m.OrderedAt held)
        () (m.passed { kept := some s }) := hm ▸ meets_modify
  exact hmodify.bind ((meets_note.of_imp hordered).bind meets_pure)

theorem evaluates_rebind (m : Walker) (held : HeldSet) (place : LockPath) :
    (rebind place held).Evaluates m held (.rebind place held) := by
  unfold rebind Evaluated.rebind
  split
  · exact evaluates_change
  · exact evaluates_return

theorem evaluates_rebindAt (place : Option LockPath) :
    (place.elim (pure held) (rebind · held)).Evaluates m held
      (place.elim (.unchanged held) (.rebind · held)) := by
  cases place with
  | none => exact evaluates_return
  | some place => exact evaluates_rebind _ _ place

theorem meets_report {access : Access} :
    (report access held).Meets m ordered () (m.passed (.ofAccess access held)) := by
  rw [Walker.passed_of_unchanged rfl]
  exact meets_modify

theorem evaluates_fieldAccess {id : String} {span : Option Span}
    (site : Option (MemberSite FieldDecl)) :
    (fieldAccess id span held site >>= fun _ => pure held).Evaluates m held
      { held, trace := WalkContext.fieldTrace id span held site } := by
  cases site with
  | none =>
    have hnothing : (pure () : Walk Unit).Meets m (m.OrderedAt held) () (m.passed {}) := by
      rw [Walker.passed_empty]
      exact meets_pure
    exact hnothing.evaluates (fun _ => pure held) evaluates_return
  | some site => exact meets_report.evaluates (fun _ => pure held) evaluates_return

theorem evaluates_applyBindings {receiver : Option LockPath} {args : List (Option LockPath)}
    (bs : List LockBinding) (m : Walker) (held : HeldSet) :
    (applyBindings receiver args bs held).Evaluates m held
      (WalkContext.applyBindings receiver args bs held) := by
  induction bs generalizing m held with
  | nil => exact evaluates_return
  | cons b rest ih =>
    rw [applyBindings, WalkContext.applyBindings]
    cases b.lock.path.instantiate receiver args with
    | none => exact evaluates_return.bind (ih _ _)
    | some path => exact evaluates_change.bind (ih _ _)

variable (w : WalkContext)

theorem evaluates_callSite {args : List (Option LockPath)} {span : Option Span}
    (site : Option (MemberSite MethodDecl)) :
    (callSite w args span held site).Evaluates m held (w.callSite args span held site) := by
  cases site with
  | none => exact evaluates_return
  | some site => exact meets_report.evaluates _ (evaluates_applyBindings _ _ _)

theorem evaluates_lockCall {base : Place} {method : String} :
    (lockCall w base method held).Evaluates m held (w.lockCall base method held) := by
  unfold lockCall WalkContext.lockCall
  cases w.api.effect? method with
  | none => exact evaluates_return
  | some effect =>
    cases base.type with
    | none => exact evaluates_return
    | some type =>
      cases base.path with
      | none => exact evaluates_return
      | some path =>
        dsimp only
        split
        · exact evaluates_change
        · exact evaluates_return

mutual

/-- An expression is walked in place as it is evaluated. -/
theorem evaluates_expr : ∀ (e : Expr) (m : Walker) (held : HeldSet),
    (expr w e held).Evaluates m held (w.expr m.scope e held)
  | .literal _, m, held => by
    rw [expr, WalkContext.expr]
    exact evaluates_return.noting
  | .this, m, held => by
    rw [expr, WalkContext.expr]
    exact evaluates_return.noting
  | .name id span, m, held => by
    rw [expr, WalkContext.expr]
    exact (evaluates_get (evaluates_fieldAccess _)).noting
  | .member base id span, m, held => by
    rw [expr, WalkContext.expr]
    exact .noting (.of_eq (.bind (evaluates_expr base m held)
      (evaluates_get (evaluates_fieldAccess _))) rfl)
  | .call (.name id _) args span, m, held => by
    rw [expr, WalkContext.expr]
    exact .noting (.bind (evaluates_exprs args m held) (evaluates_get (evaluates_callSite w _)))
  | .call (.member base id _) args span, m, held => by
    rw [expr, WalkContext.expr]
    refine .noting ?_
    split
    · refine .of_eq (.bind (evaluates_expr base m held) (.bind (evaluates_exprs args _ _)
        (evaluates_get (.bind (evaluates_callSite w _) (evaluates_lockCall w))))) ?_
      exact Evaluated.after_after.trans Evaluated.after_after
    · refine .of_eq (.bind (evaluates_expr base m held) (.bind (evaluates_exprs args _ _)
        (evaluates_get (.bind (evaluates_callSite w _) evaluates_return)))) ?_
      rw [Evaluated.unchanged_after]
      exact Evaluated.after_after
  | .call (.literal _) args _, m, held | .call .this args _, m, held
  | .call (.call ..) args _, m, held | .call (.assign ..) args _, m, held
  | .call (.unary ..) args _, m, held | .call (.binary ..) args _, m, held
  | .call (.conditional ..) args _, m, held | .call (.new ..) args _, m, held => by
    rw [expr, WalkContext.expr]
    · exact .noting (.bind (evaluates_expr _ m held) (evaluates_exprs args _ _))
    all_goals nofun
  | .assign target value, m, held => by
    rw [expr, WalkContext.expr]
    refine .noting (.of_eq (.bind (evaluates_expr target m held) (.bind (evaluates_expr value _ _)
      (evaluates_get (evaluates_rebindAt (m.scope.place target).path)))) ?_)
    cases (m.scope.place target).path with
    | none => exact congrArg _ Evaluated.unchanged_after
    | some place => exact Evaluated.after_after
  | .unary _ operand, m, held => by
    rw [expr, WalkContext.expr]
    exact (evaluates_expr operand m held).noting
  | .binary op left right, m, held => by
    have hleft := evaluates_expr left m held
    have hright := evaluates_expr right (m.passed (w.expr m.scope left held).trace)
      (w.expr m.scope left held).held
    rw [expr, WalkContext.expr]
    refine .noting ?_
    split
    · exact .of_eq (.bind hleft (.join hright id)) rfl
    · exact .of_eq (.bind hleft (.bind hright evaluates_return))
        (congrArg _ Evaluated.unchanged_after)
  | .conditional condition thenArm elseArm, m, held => by
    rw [expr, WalkContext.expr]
    exact .noting (.of_eq (.bind (evaluates_expr condition m held)
      (.either (evaluates_expr thenArm _ _) (evaluates_expr elseArm _ _))) rfl)
  | .new _ args, m, held => by
    rw [expr, WalkContext.expr]
    exact (evaluates_exprs args m held).noting

theorem evaluates_exprs : ∀ (es : List Expr) (m : Walker) (held : HeldSet),
    (exprs w es held).Evaluates m held (w.exprs m.scope es held)
  | [], m, held => by
    rw [exprs, WalkContext.exprs]
    exact evaluates_return
  | e :: rest, m, held => by
    rw [exprs, WalkContext.exprs]
    exact (evaluates_expr e m held).bind (evaluates_exprs rest _ _)

end

theorem evaluates_optExpr (e : Option Expr) (m : Walker) (held : HeldSet) :
    (optExpr w e held).Evaluates m held (w.optExpr m.scope e held) := by
  cases e with
  | none => exact evaluates_return
  | some e => exact evaluates_expr w e m held

end Walk

end LockDiscipline
