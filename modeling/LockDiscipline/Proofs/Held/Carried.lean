import LockDiscipline.Proofs.Held.BodyFlow
import LockDiscipline.Proofs.Held.Carries
import LockDiscipline.Proofs.Held.Kept

/-! A held lock that nothing takes away is carried through a walk: to every point, to every access
and to every way out. The step is made for each kind of task, from its parts to the task itself. -/

namespace LockDiscipline

open List (forall_mem_nil forall_mem_cons forall_mem_singleton forall_mem_append)

variable {p : LockPath}

namespace WalkContext

variable (w : WalkContext) {a : Point} {σ : BodyScope} {held : HeldSet}

/-- Whether the lock at `p`, if it is held at the point, is kept by all changes of locks and carried
to all accesses and ways out. -/
def Sustains (p : LockPath) (a : Point) : Prop :=
  p ∈ a.held → (w.outcome a).trace.Keeps p ∧ (w.outcome a).Carries p

variable {w}

theorem Sustains.expr {e : Expr} (h : w.Sustains p ⟨σ, .expr e, held⟩) (hp : p ∈ held) :
    (w.expr σ e held).Carries p :=
  Outcome.carries_ofEvaluated.1 (h hp).2

theorem Sustains.exprs {es : List Expr} (h : w.Sustains p ⟨σ, .exprs es, held⟩) (hp : p ∈ held) :
    (w.exprs σ es held).Carries p :=
  Outcome.carries_ofEvaluated.1 (h hp).2

theorem Sustains.rebind {place : LockPath} (h : w.Sustains p ⟨σ, .rebind place, held⟩)
    (hp : p ∈ held) : (Evaluated.rebind place held).Carries p :=
  Outcome.carries_ofEvaluated.1 (h hp).2

variable (w)

theorem carries_callParts (span : Option Span) {args : List (Option LockPath)}
    {site : Option (MemberSite MethodDecl)} (hp : p ∈ held)
    (h : ∀ b ∈ w.callParts σ args held site, w.Sustains p b) :
    (∀ b ∈ w.callParts σ args held site, p ∈ b.held) ∧
      (w.callSite args span held site).Carries p := by
  cases site with
  | none => exact ⟨forall_mem_nil _, Evaluated.carries_unchanged hp⟩
  | some site =>
    have hb := Outcome.carries_ofEvaluated.1 (forall_mem_singleton.1 h hp).2
    exact ⟨forall_mem_singleton.2 hp, hb.after (Trace.carries_ofAccess hp)⟩

theorem carries_lockCallParts {base : Place} {method : String} (hp : p ∈ held)
    (h : ∀ b ∈ w.lockCallParts σ base method held, w.Sustains p b) :
    (∀ b ∈ w.lockCallParts σ base method held, p ∈ b.held) ∧
      (w.lockCall base method held).Carries p := by
  have hnone := Evaluated.carries_unchanged hp
  revert h
  unfold lockCallParts lockCall
  cases w.api.effect? method with
  | none => exact fun _ => ⟨forall_mem_nil _, hnone⟩
  | some effect =>
    cases base.type with
    | none => exact fun _ => ⟨forall_mem_nil _, hnone⟩
    | some type =>
      cases base.path with
      | none => exact fun _ => ⟨forall_mem_nil _, hnone⟩
      | some path =>
        by_cases ht : w.api.isLockType type = true
        · simp only [ht, if_true, forall_mem_cons]
          intro h
          exact ⟨⟨hp, forall_mem_nil _⟩, Outcome.carries_ofEvaluated.1 (h.1 hp).2⟩
        · simp only [ht]
          exact fun _ => ⟨forall_mem_nil _, hnone⟩

theorem carries_fieldTrace {id : String} {span : Option Span} {site : Option (MemberSite FieldDecl)}
    (hp : p ∈ held) : (fieldTrace id span held site).Carries p := by
  cases site with
  | none => exact forall_mem_nil _
  | some site => exact Trace.carries_ofAccess hp

theorem carries_exprParts (e : Expr) (hp : p ∈ held)
    (h : ∀ b ∈ w.exprParts σ e held, w.Sustains p b) :
    (∀ b ∈ w.exprParts σ e held, p ∈ b.held) ∧ (w.expr σ e held).Carries p := by
  cases e with
  | literal | this => exact ⟨forall_mem_nil _, Evaluated.carries_unchanged hp⟩
  | name id span => exact ⟨forall_mem_nil _, hp, carries_fieldTrace hp⟩
  | member base id span =>
    have hb := (forall_mem_singleton.1 h).expr hp
    exact ⟨forall_mem_singleton.2 hp, hb.held, hb.trace.append (carries_fieldTrace hb.held)⟩
  | call callee args span =>
    cases callee with
    | name id s =>
      simp only [exprParts, forall_mem_cons] at h ⊢
      have ha := h.1.exprs hp
      have hc := w.carries_callParts span ha.held h.2
      exact ⟨⟨hp, hc.1⟩, hc.2.after ha.trace⟩
    | member base id s =>
      simp only [exprParts, forall_mem_cons, forall_mem_append] at h ⊢
      obtain ⟨hbase, hargs, hcall, hlock⟩ := h
      have hb := hbase.expr hp
      have ha := (hargs.exprs hb.held).after hb.trace
      have hc := w.carries_callParts span ha.held hcall
      rw [expr]
      split
      · next hempty =>
        simp only [hempty, if_true] at hlock ⊢
        have hl := w.carries_lockCallParts hc.2.held hlock
        exact ⟨⟨hp, hb.held, hc.1, hl.1⟩, hl.2.after (hc.2.after ha.trace).trace⟩
      · next hempty =>
        exact ⟨⟨hp, hb.held, hc.1, forall_mem_nil _⟩, hc.2.after ha.trace⟩
    | _ =>
      simp only [exprParts, forall_mem_cons] at h ⊢
      have hc := h.1.expr hp
      have ha := h.2.1.exprs hc.held
      exact ⟨⟨hp, hc.held, forall_mem_nil _⟩, ha.after hc.trace⟩
  | assign target value =>
    simp only [exprParts, forall_mem_cons, forall_mem_optional] at h ⊢
    obtain ⟨htarget, hvalue, hrebind⟩ := h
    have ht := htarget.expr hp
    have hv := hvalue.expr ht.held
    refine ⟨⟨hp, ht.held, fun _ _ => hv.held⟩, ?_⟩
    rw [expr]
    cases hpath : (σ.place target).path with
    | none => exact hv.after ht.trace
    | some place =>
      exact ((hrebind place hpath).rebind hv.held).after (hv.after ht.trace).trace
  | unary op operand =>
    exact ⟨forall_mem_singleton.2 hp, (forall_mem_singleton.1 h).expr hp⟩
  | binary op left right =>
    simp only [exprParts, forall_mem_cons] at h ⊢
    have hl := h.1.expr hp
    have hr := h.2.1.expr hl.held
    refine ⟨⟨hp, hl.held, forall_mem_nil _⟩, ?_⟩
    rw [expr]
    split
    · exact ⟨OrderedSet.mem_inter.2 ⟨hl.held, hr.held⟩, hl.trace.append hr.trace⟩
    · exact hr.after hl.trace
  | conditional condition thenArm elseArm =>
    simp only [exprParts, forall_mem_cons] at h ⊢
    have hc := h.1.expr hp
    have ht := h.2.1.expr hc.held
    have he := h.2.2.1.expr hc.held
    exact ⟨⟨hp, hc.held, hc.held, forall_mem_nil _⟩, OrderedSet.mem_inter.2 ⟨he.held, ht.held⟩,
      hc.trace.append (ht.trace.append he.trace)⟩
  | new type args =>
    exact ⟨forall_mem_singleton.2 hp, (forall_mem_singleton.1 h).exprs hp⟩

theorem carries_optParts (e : Option Expr) (hp : p ∈ held)
    (h : ∀ b ∈ optParts σ e held, w.Sustains p b) :
    (∀ b ∈ optParts σ e held, p ∈ b.held) ∧ (w.optExpr σ e held).Carries p := by
  cases e with
  | none => exact ⟨forall_mem_nil _, Evaluated.carries_unchanged hp⟩
  | some e => exact ⟨forall_mem_singleton.2 hp, (forall_mem_singleton.1 h).expr hp⟩

theorem carries_passParts (loop : Loop) (hp : p ∈ held)
    (h : ∀ b ∈ w.passParts σ loop held, w.Sustains p b) :
    (∀ b ∈ w.passParts σ loop held, p ∈ b.held) ∧ (w.pass σ loop held).outcome.Carries p := by
  cases loop with
  | whileLoop condition body =>
    simp only [passParts, forall_mem_cons] at h ⊢
    have hc := h.1.expr hp
    have hb := (h.2.1 hc.held).2
    exact ⟨⟨hp, hc.held, forall_mem_nil _⟩, LoopPass.carries_exitFirst hc hb⟩
  | doLoop body condition =>
    simp only [passParts, forall_mem_cons, forall_mem_optional] at h ⊢
    have hb := (h.1 hp).2
    have hback := FlowState.holds_joinAll.2 ⟨hb.exit, hb.continues⟩
    refine ⟨⟨hp, fun s hs => hback.mem hs⟩, LoopPass.carries_evalLast hb ?_ ?_⟩
    · exact fun s hs hps => (h.2 s hs).expr hps
    · intro s hs
      split
      · exact trivial
      · exact hs
  | forLoop condition step body =>
    simp only [passParts, forall_mem_append, forall_mem_cons, forall_mem_optional] at h ⊢
    obtain ⟨hcondition, hbody, hstep⟩ := h
    have hc := w.carries_optParts condition hp hcondition
    have hb := (hbody hc.2.held).2
    have hback := FlowState.holds_joinAll.2 ⟨hb.exit, hb.continues⟩
    refine ⟨⟨hc.1, hc.2.held, fun s hs => hback.mem hs⟩,
      LoopPass.carries_evalLast (hb.after hc.2.trace) ?_ ?_⟩
    · exact fun s hs hps => (hstep s hs).exprs hps
    · intro s hs
      split
      · exact trivial
      · exact hc.2.held
  | foreachLoop name body =>
    simp only [passParts, forall_mem_cons] at h ⊢
    have hr := h.1.rebind hp
    have hb := (h.2.1 hr.held).2
    exact ⟨⟨hp, hr.held, forall_mem_nil _⟩, LoopPass.carries_exitFirst hr hb⟩

theorem carries_catchParts (l : List Catch) (hp : p ∈ held)
    (h : ∀ b ∈ w.catchParts σ l held, w.Sustains p b) :
    (∀ b ∈ w.catchParts σ l held, p ∈ b.held) ∧
      (w.catches σ (.unreached σ.locals) l held).Carries p := by
  match l with
  | [] => exact ⟨forall_mem_nil _, Outcome.carries_unreached⟩
  | .mk type (some name) body :: rest =>
    simp only [catchParts, forall_mem_cons] at h ⊢
    obtain ⟨hrebind, hbody, hrest, -⟩ := h
    have hr := hrebind.rebind hp
    have hb := (hbody hr.held).2
    have hclause := (hb.leaveBlock.after hr.trace).leaveBlock
    rw [catches_cons_some]
    exact ⟨⟨hp, hr.held, hp, forall_mem_nil _⟩, hclause.orElse (hrest hp).2⟩
  | .mk type none body :: rest =>
    simp only [catchParts, forall_mem_cons] at h ⊢
    obtain ⟨hbody, hrest, -⟩ := h
    rw [catches_cons_none]
    exact ⟨⟨hp, hp, forall_mem_nil _⟩, (hbody hp).2.leaveBlock.leaveBlock.orElse (hrest hp).2⟩

theorem carries_stmtParts (s : Stmt) (hp : p ∈ held)
    (h : ∀ b ∈ w.stmtParts σ s held, w.Sustains p b) :
    (∀ b ∈ w.stmtParts σ s held, p ∈ b.held) ∧ (w.stmt σ s held).Carries p := by
  cases s with
  | block body =>
    have hb := (forall_mem_singleton.1 h hp).2
    rw [stmt]
    exact ⟨forall_mem_singleton.2 hp, hb.leaveBlock⟩
  | empty => exact ⟨forall_mem_nil _, Outcome.carries_done hp⟩
  | breakOut =>
    exact ⟨forall_mem_nil _, trivial, forall_mem_singleton.2 hp, forall_mem_nil _, forall_mem_nil _⟩
  | continueLoop =>
    exact ⟨forall_mem_nil _, trivial, forall_mem_nil _, forall_mem_singleton.2 hp, forall_mem_nil _⟩
  | declare name type init =>
    simp only [stmtParts, forall_mem_append, forall_mem_cons] at h ⊢
    have he := w.carries_optParts init hp h.1
    have hr := h.2.1.rebind he.2.held
    rw [stmt]
    exact ⟨⟨he.1, he.2.held, forall_mem_nil _⟩, Outcome.carries_ofEvaluated.2 (hr.after he.2.trace)⟩
  | expr e =>
    have he := (forall_mem_singleton.1 h).expr hp
    rw [stmt]
    exact ⟨forall_mem_singleton.2 hp, Outcome.carries_ofEvaluated.2 he⟩
  | ret value | raise value =>
    have he := w.carries_optParts value hp h
    rw [stmt]
    exact ⟨he.1, trivial, forall_mem_nil _, forall_mem_nil _, he.2.trace⟩
  | ite condition thenArm elseArm =>
    simp only [stmtParts, forall_mem_cons] at h ⊢
    obtain ⟨hcondition, hthen, helse, -⟩ := h
    have hc := hcondition.expr hp
    have ht := (hthen hc.held).2
    have he := (helse hc.held).2
    rw [stmt]
    exact ⟨⟨hp, hc.held, hc.held, forall_mem_nil _⟩, (ht.orElse he).after hc.trace⟩
  | whileLoop condition body =>
    rw [stmt_whileLoop]
    exact ⟨forall_mem_singleton.2 hp, (forall_mem_singleton.1 h hp).2⟩
  | doLoop body condition =>
    rw [stmt_doLoop]
    exact ⟨forall_mem_singleton.2 hp, (forall_mem_singleton.1 h hp).2⟩
  | forLoop init condition step body =>
    simp only [stmtParts, forall_mem_cons, forall_mem_optional] at h ⊢
    have hi := (h.1 hp).2
    refine ⟨⟨hp, fun s hs => hi.exit.mem hs⟩, ?_⟩
    rw [stmt_forLoop]
    dsimp only
    cases he : (w.stmts σ.push init held).exit with
    | none => exact hi.leaveBlock
    | some entry => exact (hi.andThen (h.2 entry he (hi.exit.mem he)).2).leaveBlock
  | foreachLoop name type iterable body =>
    simp only [stmtParts, forall_mem_cons] at h ⊢
    have he := h.1.expr hp
    have hr := (h.2.1 he.held).2
    rw [stmt_foreachLoop]
    exact ⟨⟨hp, he.held, forall_mem_nil _⟩, (hr.after he.trace).leaveBlock⟩
  | switch scrutinee sections =>
    simp only [stmtParts, forall_mem_cons] at h ⊢
    have he := h.1.expr hp
    have hs := (h.2.1 he.held).2
    rw [stmt]
    refine ⟨⟨hp, he.held, forall_mem_nil _⟩, FlowState.holds_joinAll.2 ⟨?_, hs.breaks⟩,
      forall_mem_nil _, hs.continues, he.trace.append hs.trace⟩
    split
    · exact hs.exit
    · exact FlowState.holds_join.2 ⟨hs.exit, he.held⟩
  | tryCatch body catches finalizer =>
    simp only [stmtParts, forall_mem_cons, List.forall_mem_map] at h ⊢
    obtain ⟨hbody, hcatches, hstart, hways⟩ := h
    obtain ⟨hkeeps, hb⟩ := hbody hp
    -- What the body keeps is held where a clause starts, and what the clauses keep as well is held
    -- where the `finally` block does.
    have hentry : p ∈ w.handlerEntry σ body held := Trace.mem_floor.2 ⟨hp, hkeeps⟩
    obtain ⟨hkeeps', hc⟩ := hcatches hentry
    have ho : (w.handled σ body catches held).Carries p := by
      rw [handled_eq_orElse]
      exact hb.leaveBlock.orElse hc
    have hfloor : p ∈ w.exceptionalEntry σ body catches held := by
      rw [exceptionalEntry, Trace.mem_floor, trace_handled]
      exact ⟨hp, Trace.keeps_append.2 ⟨hkeeps, hkeeps'⟩⟩
    have hfinally : p ∈ w.finallyEntry σ body catches held := ho.exit.elim_inter hfloor
    rw [stmt_tryCatch]
    refine ⟨⟨hp, hentry, hfinally, ho.waysOut⟩, ho.finalizing (forall_mem_cons.2 ⟨?_, ?_⟩)⟩
    · exact (hstart hfinally).2.leaveBlock
    · exact fun s hs => (hways s hs (ho.waysOut s hs)).2.leaveBlock
  | lock target body =>
    simp only [stmtParts, forall_mem_cons] at h ⊢
    have he := h.1.expr hp
    have hbody := h.2.1
    cases hpath : (σ.place target).path with
    | none =>
      rw [hpath] at hbody
      rw [stmt, hpath]
      exact ⟨⟨hp, he.held, forall_mem_nil _⟩, (hbody he.held).2.after he.trace⟩
    | some path =>
      rw [hpath] at hbody
      rw [w.stmt_lock hpath]
      have hin : p ∈ (w.expr σ target held).held.insert path := OrderedSet.mem_insert.2 (.inr he.held)
      have hb := (hbody hin).2
      refine ⟨⟨hp, hin, forall_mem_nil _⟩, ?_⟩
      dsimp only
      -- A `lock` that frees `path` at its end found it free, so it is not on `p`.
      split
      · exact hb.after he.trace
      · next hout =>
        have hne : p ≠ path := fun heq => hout (heq ▸ he.held)
        exact (hb.releasing hne).after he.trace

/-- What a point does not take away, and each of its parts sustains, comes to all parts, and to all
accesses and ways out of the point. -/
theorem carries_parts (hp : p ∈ a.held) (huntouched : ¬ a.Touches p)
    (h : ∀ b ∈ w.parts a, w.Sustains p b) :
    (∀ b ∈ w.parts a, p ∈ b.held) ∧ (w.outcome a).Carries p := by
  obtain ⟨σ, task, held⟩ := a
  cases task with
  | change effect path =>
    refine ⟨forall_mem_nil _, Outcome.carries_ofEvaluated.2 ⟨?_, forall_mem_nil _⟩⟩
    cases effect with
    | acquire => exact OrderedSet.mem_insert.2 (.inr hp)
    | release => exact OrderedSet.mem_erase.2 ⟨hp, fun heq => huntouched heq.symm⟩
  | rebind place =>
    refine ⟨forall_mem_nil _, Outcome.carries_ofEvaluated.2 ⟨?_, ?_⟩⟩
    · rw [Evaluated.held_rebind]
      exact HeldSet.mem_invalidate.2 ⟨hp, eq_false_of_ne_true huntouched⟩
    · intro v hv
      rw [Evaluated.accesses_rebind] at hv
      cases hv
  | bindings receiver args bs =>
    cases bs with
    | nil => exact ⟨forall_mem_nil _, Outcome.carries_ofEvaluated.2 (Evaluated.carries_unchanged hp)⟩
    | cons b rest =>
      rw [outcome_bindings, Outcome.carries_ofEvaluated]
      cases hpath : b.lock.path.instantiate receiver args with
      | none =>
        simp only [parts, hpath, applyBindings, forall_mem_cons] at h ⊢
        exact ⟨⟨hp, forall_mem_nil _⟩, Outcome.carries_ofEvaluated.1 (h.1 hp).2⟩
      | some path =>
        simp only [parts, hpath, applyBindings, forall_mem_cons] at h ⊢
        have hc := Outcome.carries_ofEvaluated.1 (h.1 hp).2
        have hr := Outcome.carries_ofEvaluated.1 (h.2.1 hc.held).2
        exact ⟨⟨hp, hc.held, forall_mem_nil _⟩, hr.after hc.trace⟩
  | expr e =>
    have he := w.carries_exprParts e hp h
    exact ⟨he.1, Outcome.carries_ofEvaluated.2 he.2⟩
  | exprs es =>
    cases es with
    | nil => exact ⟨forall_mem_nil _, Outcome.carries_ofEvaluated.2 (Evaluated.carries_unchanged hp)⟩
    | cons e rest =>
      simp only [parts, forall_mem_cons] at h ⊢
      have he := h.1.expr hp
      have hr := h.2.1.exprs he.held
      exact ⟨⟨hp, he.held, forall_mem_nil _⟩, Outcome.carries_ofEvaluated.2 (hr.after he.trace)⟩
  | stmt s => exact w.carries_stmtParts s hp h
  | stmts body =>
    cases body with
    | nil => exact ⟨forall_mem_nil _, Outcome.carries_done hp⟩
    | cons s rest =>
      simp only [parts, forall_mem_cons, forall_mem_optional] at h ⊢
      have hs := (h.1 hp).2
      refine ⟨⟨hp, fun t ht => hs.exit.mem ht⟩, ?_⟩
      rw [outcome_stmts, stmts]
      cases he : (w.stmt σ s held).exit with
      | none => exact hs
      | some next => exact hs.andThen (h.2 next he (hs.exit.mem he)).2
  | sections l =>
    cases l with
    | nil => exact ⟨forall_mem_nil _, Outcome.carries_unreached⟩
    | cons s rest =>
      obtain ⟨d, body⟩ := s
      simp only [parts, forall_mem_cons] at h ⊢
      rw [outcome_sections, sections]
      exact ⟨⟨hp, hp, forall_mem_nil _⟩, (h.1 hp).2.leaveBlock.orElse (h.2.1 hp).2⟩
  | catches l => exact w.carries_catchParts l hp h
  | pass loop => exact w.carries_passParts loop hp h
  | rounds loop =>
    simp only [parts, forall_mem_cons] at h ⊢
    have hpass := (h.1 hp).2
    have hnext := LoopPass.carries_nextHead hp hpass
    have hrest := (h.2.1 hnext).2
    refine ⟨⟨hp, hnext, forall_mem_nil _⟩, ?_⟩
    rw [outcome_rounds]
    by_cases hs : (w.pass σ loop held).nextHead held = held
    · rw [if_pos hs, hs] at hrest
      rw [w.rounds_of_stable hs]
      exact ⟨hrest.exit, forall_mem_nil _, forall_mem_nil _, Trace.carries_silent.append hrest.trace⟩
    · rw [if_neg hs] at hrest
      rw [w.rounds_of_unstable hs]
      exact { hrest with trace := Trace.carries_silent.append hrest.trace }

variable {w}

/-- A lock that no point of a walk takes away is sustained from its start. -/
theorem sustains_of_untouched (huntouched : ∀ q, w.Visits a q → ¬ q.Touches p) :
    w.Sustains p a := by
  induction a using w.wellFounded_parts.induction with
  | _ a ih =>
    intro hp
    have hparts : ∀ b ∈ w.parts a, w.Sustains p b := fun b hb =>
      ih b hb fun q hq => huntouched q (.head hb hq)
    obtain ⟨hheld, hcarries⟩ := w.carries_parts hp (huntouched a .refl) hparts
    refine ⟨(w.keeps_iff hp).2 ⟨huntouched a .refl, fun b hb => ?_⟩, hcarries⟩
    exact (hparts b hb (hheld b hb)).1

/-- A lock that no point of a walk takes away is held at all of them. -/
theorem held_of_untouched (huntouched : ∀ q, w.Visits a q → ¬ q.Touches p) (hp : p ∈ a.held) :
    ∀ q, w.Visits a q → p ∈ q.held := by
  intro q hq
  induction hq with
  | refl => exact hp
  | @tail b c hab hbc ih =>
    have hb : ∀ q, w.Visits b q → ¬ q.Touches p := fun q hq => huntouched q (hab.trans hq)
    refine (w.carries_parts ih (hb b .refl) fun d hd => ?_).1 c hbc
    exact sustains_of_untouched fun q hq => hb q (.head hd hq)

/-- A walk keeps a lock exactly if no point of it takes the lock away. -/
theorem keeps_iff_untouched (hp : p ∈ a.held) :
    (w.outcome a).trace.Keeps p ↔ ∀ q, w.Visits a q → ¬ q.Touches p := by
  refine ⟨?_, fun huntouched => (sustains_of_untouched huntouched hp).1⟩
  induction a using w.wellFounded_parts.induction with
  | _ a ih =>
    intro hkeeps q hq
    obtain ⟨htouches, hkeeps⟩ := (w.keeps_iff hp).1 hkeeps
    -- A part that keeps the lock sustains it, so the lock comes to the parts after it.
    have hparts : ∀ b ∈ w.parts a, w.Sustains p b := fun b hb hpb =>
      sustains_of_untouched (ih b hb hpb (hkeeps b hb)) hpb
    have hheld := (w.carries_parts hp htouches hparts).1
    rcases hq.cases_head with rfl | ⟨b, hb, hq⟩
    · exact htouches
    · exact ih b hb (hheld b hb) (hkeeps b hb) q hq

variable (w)

/-- Whether the lock at `p` is held when the walk comes to a point and whenever it leaves it. -/
def HoldsAt (q : Point) (p : LockPath) : Prop := p ∈ q.held ∧ ∀ s ∈ (w.outcome q).waysOut, p ∈ s

variable {w}

/-- The point that takes a lock away is left without it. -/
theorem not_holdsAt_of_touches {q : Point} (h : q.Touches p) : ¬ w.HoldsAt q p := by
  rintro ⟨-, hways⟩
  obtain ⟨σ, task, held⟩ := q
  cases task with
  | change effect path =>
    cases effect with
    | acquire => exact h
    | release =>
      have hp : p ∈ held.erase path := hways _ (.head _)
      exact (OrderedSet.mem_erase.1 hp).2 (Eq.symm h)
  | rebind place =>
    have hp : p ∈ (Evaluated.rebind place held).held := hways _ (.head _)
    rw [Evaluated.held_rebind, HeldSet.mem_invalidate] at hp
    exact Bool.false_ne_true (hp.2.symm.trans h)
  | _ => exact h

/-- A walk keeps exactly the locks that are held at every point it comes by. -/
theorem keeps_iff_holdsAt (hp : p ∈ a.held) :
    (w.outcome a).trace.Keeps p ↔ ∀ q, w.Visits a q → w.HoldsAt q p := by
  rw [keeps_iff_untouched hp]
  constructor
  · intro huntouched q hq
    have hheld := held_of_untouched huntouched hp q hq
    have hsustains := sustains_of_untouched fun r hr => huntouched r (hq.trans hr)
    exact ⟨hheld, (hsustains hheld).2.waysOut⟩
  · exact fun hholds q hq htouches => not_holdsAt_of_touches htouches (hholds q hq)

/-- A lock that is held at the start of a body, and that no point of its walk takes away, is held at
every access and at the end, whatever loops, jumps, clauses and blocks the body has. -/
theorem walk_carries {body : List Stmt} (hp : p ∈ held)
    (huntouched : ∀ q, w.Visits ⟨σ.push, .stmts body, held⟩ q → ¬ q.Touches p) :
    (∀ v ∈ (w.walk σ body held).trace.accesses, p ∈ v.2) ∧
      ∀ last, (w.walk σ body held).exit = some last → p ∈ last := by
  have hcarries := (sustains_of_untouched huntouched hp).2
  exact ⟨hcarries.trace, fun last hlast => hcarries.exit.mem hlast⟩

end WalkContext

namespace Counter

/-- `while (x) lock (lock) { x; if (x) break; else continue; } x;` -/
def lockedRounds : List Stmt :=
  [.whileLoop readX (.lock (.name "lock" none)
      (.block [.expr readX, .ite readX .breakOut .continueLoop])),
    .expr readX]

/-- Taken before the loop, the lock is not freed where a jump leaves the `lock` on it. -/
theorem carries_lockedRounds :
    (context.walk scope lockedRounds (.insert ∅ lock)).trace.accesses.length = 5 ∧
      ∀ v ∈ (context.walk scope lockedRounds (.insert ∅ lock)).trace.accesses, lock ∈ v.2 := by
  have hp : lock ∈ OrderedSet.insert ∅ lock := by decide
  let start : Point := ⟨scope.push, .stmts lockedRounds, .insert ∅ lock⟩
  have hkept : (context.outcome start).trace.kept = none := by cbv
  have hkeeps : (context.outcome start).trace.Keeps lock := by
    rw [Trace.Keeps, hkept]
    exact trivial
  exact ⟨by cbv, (WalkContext.walk_carries hp ((WalkContext.keeps_iff_untouched hp).1 hkeeps)).1⟩

end Counter

end LockDiscipline
