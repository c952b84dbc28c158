import LockDiscipline.Proofs.Held.Within

/-! Where the accesses of a walk come from, and the locks held at them. Whatever the body, an access
is made where a name leads to a field or method, and a lock is held from the start, or a method of
the program or of the library takes it, or a `lock` statement. -/

namespace LockDiscipline

mutual

/-- What an expression calls methods on that take a lock. -/
def Expr.lockCalls (api : LockApi) : Expr → List Expr
  | .literal _ | .this | .name .. => []
  | .member base _ _ => base.lockCalls api
  | .call (.member base method _) args _ =>
    (if args.isEmpty && api.effect? method = some .acquire then [base] else []) ++
      (base.lockCalls api ++ Expr.allLockCalls api args)
  | .call callee args _ => callee.lockCalls api ++ Expr.allLockCalls api args
  | .assign target value => target.lockCalls api ++ value.lockCalls api
  | .unary _ operand => operand.lockCalls api
  | .binary _ left right => left.lockCalls api ++ right.lockCalls api
  | .conditional condition thenArm elseArm =>
    condition.lockCalls api ++ (thenArm.lockCalls api ++ elseArm.lockCalls api)
  | .new _ args => Expr.allLockCalls api args

def Expr.allLockCalls (api : LockApi) : List Expr → List Expr
  | [] => []
  | e :: rest => e.lockCalls api ++ Expr.allLockCalls api rest

end

def Expr.optLockCalls (api : LockApi) (e : Option Expr) : List Expr :=
  e.elim [] (·.lockCalls api)

mutual

/-- What a statement locks, by `lock` statements and by calls. -/
def Stmt.lockTargets (api : LockApi) : Stmt → List Expr
  | .block body => Stmt.allLockTargets api body
  | .empty | .breakOut | .continueLoop => []
  | .declare _ _ value | .ret value | .raise value => Expr.optLockCalls api value
  | .expr e => e.lockCalls api
  | .ite condition thenArm elseArm =>
    condition.lockCalls api ++ (thenArm.lockTargets api ++ elseArm.lockTargets api)
  | .whileLoop condition body | .doLoop body condition | .foreachLoop _ _ condition body =>
    condition.lockCalls api ++ body.lockTargets api
  | .forLoop init condition step body =>
    Stmt.allLockTargets api init ++ (Expr.optLockCalls api condition ++
      (Expr.allLockCalls api step ++ body.lockTargets api))
  | .switch scrutinee sections =>
    scrutinee.lockCalls api ++ Section.allLockTargets api sections
  | .tryCatch body catches finalizer =>
    Stmt.allLockTargets api body ++
      (Catch.allLockTargets api catches ++ Stmt.allLockTargets api finalizer)
  | .lock target body => target :: (target.lockCalls api ++ body.lockTargets api)

def Stmt.allLockTargets (api : LockApi) : List Stmt → List Expr
  | [] => []
  | s :: rest => s.lockTargets api ++ Stmt.allLockTargets api rest

def Section.allLockTargets (api : LockApi) : List Section → List Expr
  | [] => []
  | .mk _ body :: rest => Stmt.allLockTargets api body ++ Section.allLockTargets api rest

def Catch.allLockTargets (api : LockApi) : List Catch → List Expr
  | [] => []
  | .mk _ _ body :: rest => Stmt.allLockTargets api body ++ Catch.allLockTargets api rest

end

/-- `t.MayAccess owner a`: in a body of `owner`, with some locals visible, a name leads to the
member that `a` accesses. -/
inductive TypeTable.MayAccess (t : TypeTable) (owner : String) : Access → Prop
  | field {l base id site span} :
      (BodyScope.mk t owner l).fieldSite base id = some site →
        MayAccess t owner ⟨.field site.owner id, site.receiver, [], site.decl.isStatic, span⟩
  | method {l base id args site span} :
      (BodyScope.mk t owner l).methodSite base id args.length = some site →
        MayAccess t owner
          ⟨.method site.owner site.decl, site.receiver, args, site.decl.isStatic, span⟩

/-- `w.MayHold t owner targets entry p`: a body of `owner` that is entered with `entry` and locks
`targets` may hold the lock at `p`. -/
inductive WalkContext.MayHold (w : WalkContext) (t : TypeTable) (owner : String)
    (targets : List Expr) (entry : HeldSet) : LockPath → Prop
  | entry {p} : p ∈ entry → MayHold w t owner targets entry p
  | target {l e p} :
      e ∈ targets → ((BodyScope.mk t owner l).place e).path = some p →
        MayHold w t owner targets entry p
  | effect {l base id args site b p} :
      (BodyScope.mk t owner l).methodSite base id args.length = some site →
      b ∈ w.bindings (.method site.owner site.decl) → b.effect = .acquire →
      b.lock.path.instantiate site.receiver args = some p → MayHold w t owner targets entry p

variable {A : Access → Prop} {L : LockPath → Prop}

namespace WalkContext

variable {w : WalkContext} {targets : List Expr} {entry held : HeldSet} {t : TypeTable}
  {owner : String} {l : Locals}

section Site

private theorem within_fieldTrace (base : Option Expr) (id : String) (span : Option Span)
    (h : held.Within L) :
    (fieldTrace id span held ((BodyScope.mk t owner l).fieldSite base id)).Within
      (t.MayAccess owner) L := by
  cases hsite : (BodyScope.mk t owner l).fieldSite base id with
  | none => exact Trace.within_empty
  | some site => exact Trace.within_ofAccess (.field hsite) h

private theorem within_applyBindings {receiver : Option LockPath} {args : List (Option LockPath)}
    {bs : List LockBinding} (h : held.Within L)
    (hbs : ∀ b ∈ bs, b.effect = .acquire →
      ∀ p, b.lock.path.instantiate receiver args = some p → L p) :
    (applyBindings receiver args bs held).Within A L := by
  induction bs generalizing held with
  | nil => exact Evaluated.within_unchanged h
  | cons b rest ih =>
    have hrest (b') (hb' : b' ∈ rest) := hbs b' (.tail _ hb')
    rw [applyBindings]
    cases hp : b.lock.path.instantiate receiver args with
    | none => exact ih h hrest
    | some path =>
      have hstep := Evaluated.within_applyEffect (A := A) h fun (hacquire : b.effect = .acquire) =>
        hbs b (.head _) hacquire path hp
      exact (ih hstep.held hrest).after hstep.trace

private theorem within_callSite (l : Locals) (base : Option Expr) (id : String)
    (args : List (Option LockPath)) (span : Option Span)
    (h : held.Within (w.MayHold t owner targets entry)) :
    (w.callSite args span held ((BodyScope.mk t owner l).methodSite base id args.length)).Within
      (t.MayAccess owner) (w.MayHold t owner targets entry) := by
  cases hsite : (BodyScope.mk t owner l).methodSite base id args.length with
  | none => exact Evaluated.within_unchanged h
  | some site =>
    refine (within_applyBindings h fun b hb hacquire p hp => ?_).after
      (Trace.within_ofAccess (.method hsite) h)
    exact .effect hsite hb hacquire hp

private theorem within_lockCall (l : Locals) (e : Expr) (id : String)
    (h : held.Within (w.MayHold t owner targets entry))
    (htarget : w.api.effect? id = some .acquire → e ∈ targets) :
    (w.lockCall ((BodyScope.mk t owner l).place e) id held).Within A
      (w.MayHold t owner targets entry) := by
  unfold lockCall
  split
  · next effect type path heffect _ hpath =>
    split
    · refine Evaluated.within_applyEffect h fun hacquire => ?_
      subst hacquire
      exact .target (htarget heffect) hpath
    · exact Evaluated.within_unchanged h
  · exact Evaluated.within_unchanged h

end Site

mutual

/-- What an expression accesses and takes. -/
theorem within_expr : ∀ (e : Expr) (l : Locals) (held : HeldSet), e.lockCalls w.api ⊆ targets →
    held.Within (w.MayHold t owner targets entry) →
      (w.expr ⟨t, owner, l⟩ e held).Within (t.MayAccess owner) (w.MayHold t owner targets entry)
  | .literal _, l, held, _, h | .this, l, held, _, h => by
    rw [expr]
    exact Evaluated.within_unchanged h
  | .name id span, l, held, _, h => by
    rw [expr]
    exact ⟨h, within_fieldTrace none id span h⟩
  | .member base id span, l, held, ht, h => by
    have hb := within_expr base l held ht h
    rw [expr]
    exact ⟨hb.held, hb.trace.append (within_fieldTrace (some base) id span hb.held)⟩
  | .call (.name id _) args span, l, held, ht, h => by
    have ha := within_exprs args l held ht h
    rw [expr]
    have hc := within_callSite l none id (args.map fun e => ((BodyScope.mk t owner l).place e).path)
      span ha.held
    rw [List.length_map] at hc
    exact hc.after ha.trace
  | .call (.member base id _) args span, l, held, ht, h => by
    rw [Expr.lockCalls, List.append_subset, List.append_subset] at ht
    obtain ⟨htarget, htb, hta⟩ := ht
    have hb := within_expr base l held htb h
    have ha := within_exprs args l _ hta hb.held
    have hc := within_callSite l (some base) id
      (args.map fun e => ((BodyScope.mk t owner l).place e).path) span ha.held
    rw [List.length_map] at hc
    have hc := hc.after (hb.trace.append ha.trace)
    rw [expr]
    split
    · next hargs =>
      have hl := within_lockCall (A := t.MayAccess owner) l base id hc.held
        fun heffect => htarget (by simp [hargs, heffect])
      exact hl.after hc.trace
    · exact hc
  | .call (.literal _) args _, l, held, ht, h | .call .this args _, l, held, ht, h
  | .call (.call ..) args _, l, held, ht, h | .call (.assign ..) args _, l, held, ht, h
  | .call (.unary ..) args _, l, held, ht, h | .call (.binary ..) args _, l, held, ht, h
  | .call (.conditional ..) args _, l, held, ht, h | .call (.new ..) args _, l, held, ht, h => by
    obtain ⟨htc, hta⟩ := List.append_subset.1 ht
    have hc := within_expr _ l held htc h
    rw [expr]
    · exact (within_exprs args l _ hta hc.held).after hc.trace
    all_goals nofun
  | .assign target value, l, held, ht, h => by
    obtain ⟨htt, htv⟩ := List.append_subset.1 ht
    have ht := within_expr target l held htt h
    have hv := (within_expr value l _ htv ht.held).after ht.trace
    rw [expr]
    cases ((BodyScope.mk t owner l).place target).path with
    | none => exact hv
    | some place => exact (Evaluated.within_rebind place hv.held).after hv.trace
  | .unary _ operand, l, held, ht, h => by
    rw [expr]
    exact within_expr operand l held ht h
  | .binary op left right, l, held, ht, h => by
    obtain ⟨htl, htr⟩ := List.append_subset.1 ht
    have hl := within_expr left l held htl h
    have hr := (within_expr right l _ htr hl.held).after hl.trace
    rw [expr]
    split
    · exact ⟨hl.held.inter, hr.trace⟩
    · exact hr
  | .conditional condition thenArm elseArm, l, held, ht, h => by
    obtain ⟨htc, hta⟩ := List.append_subset.1 ht
    obtain ⟨htt, hte⟩ := List.append_subset.1 hta
    have hc := within_expr condition l held htc h
    have ht := within_expr thenArm l _ htt hc.held
    have he := within_expr elseArm l _ hte hc.held
    rw [expr]
    exact ⟨he.held.inter, hc.trace.append (ht.trace.append he.trace)⟩
  | .new _ args, l, held, ht, h => by
    rw [expr]
    exact within_exprs args l held ht h

theorem within_exprs : ∀ (es : List Expr) (l : Locals) (held : HeldSet),
    Expr.allLockCalls w.api es ⊆ targets →
    held.Within (w.MayHold t owner targets entry) →
      (w.exprs ⟨t, owner, l⟩ es held).Within (t.MayAccess owner) (w.MayHold t owner targets entry)
  | [], l, held, _, h => by
    rw [exprs]
    exact Evaluated.within_unchanged h
  | e :: rest, l, held, ht, h => by
    obtain ⟨hte, htr⟩ := List.append_subset.1 ht
    have he := within_expr e l held hte h
    rw [exprs]
    exact (within_exprs rest l _ htr he.held).after he.trace

end

theorem within_optExpr (e : Option Expr) (l : Locals) (held : HeldSet)
    (ht : Expr.optLockCalls w.api e ⊆ targets)
    (h : held.Within (w.MayHold t owner targets entry)) :
    (w.optExpr ⟨t, owner, l⟩ e held).Within (t.MayAccess owner)
      (w.MayHold t owner targets entry) := by
  cases e with
  | none => exact Evaluated.within_unchanged h
  | some e => exact within_expr e l held ht h

mutual

/-- What a statement accesses and takes. -/
theorem within_stmt : ∀ (s : Stmt) (l : Locals) (held : HeldSet), s.lockTargets w.api ⊆ targets →
    held.Within (w.MayHold t owner targets entry) →
      (w.stmt ⟨t, owner, l⟩ s held).Within (t.MayAccess owner) (w.MayHold t owner targets entry)
  | .block body, l, held, ht, h => by
    rw [stmt]
    exact (within_stmts body l.push held ht h).leaveBlock
  | .empty, l, held, _, h => by
    rw [stmt]
    exact Outcome.within_done h
  | .declare name type init, l, held, ht, h => by
    have hi := within_optExpr init l held ht h
    rw [stmt]
    exact Outcome.within_ofEvaluated ((Evaluated.within_rebind (.var name) hi.held).after hi.trace)
  | .expr e, l, held, ht, h => by
    rw [stmt]
    exact Outcome.within_ofEvaluated (within_expr e l held ht h)
  | .ret value, l, held, ht, h | .raise value, l, held, ht, h => by
    rw [stmt]
    have hv := within_optExpr value l held ht h
    exact ⟨nofun, nofun, nofun, hv.trace⟩
  | .breakOut, l, held, _, h => by
    rw [stmt]
    exact ⟨nofun, fun _ hheld => List.mem_singleton.1 hheld ▸ h, nofun, Trace.within_empty⟩
  | .continueLoop, l, held, _, h => by
    rw [stmt]
    exact ⟨nofun, nofun, fun _ hheld => List.mem_singleton.1 hheld ▸ h, Trace.within_empty⟩
  | .ite condition thenArm elseArm, l, held, ht, h => by
    obtain ⟨htc, hta⟩ := List.append_subset.1 ht
    obtain ⟨htt, hte⟩ := List.append_subset.1 hta
    have hc := within_expr condition l held htc h
    have ht := within_stmt thenArm l _ htt hc.held
    have he := within_stmt elseArm
      (w.stmt ⟨t, owner, l⟩ thenArm (w.expr ⟨t, owner, l⟩ condition held).held).locals _ hte hc.held
    rw [stmt]
    exact (ht.orElse he).after hc.trace
  | .whileLoop condition body, l, held, ht, h => by
    obtain ⟨htc, htb⟩ := List.append_subset.1 ht
    rw [stmt]
    refine LoopPass.within_run (fun l head hhead => ?_) h
    have hc := within_expr condition l head htc hhead
    exact LoopPass.within_exitFirst hc (within_stmt body l _ htb hc.held)
  | .doLoop body condition, l, held, ht, h => by
    obtain ⟨htc, htb⟩ := List.append_subset.1 ht
    rw [stmt]
    refine LoopPass.within_run (fun l head hhead => ?_) h
    refine LoopPass.within_evalLast (within_stmt body l head htb hhead)
      (fun s hs => within_expr condition _ s htc hs) fun s hs => ?_
    split
    · nofun
    · exact hs
  | .forLoop init condition step body, l, held, ht, h => by
    obtain ⟨hti, ht⟩ := List.append_subset.1 ht
    obtain ⟨htc, ht⟩ := List.append_subset.1 ht
    obtain ⟨hts, htb⟩ := List.append_subset.1 ht
    have hi := within_stmts init l.push held hti h
    rw [stmt]
    dsimp only [BodyScope.push, BodyScope.withLocals]
    cases hexit : (w.stmts ⟨t, owner, l.push⟩ init held).exit with
    | none => exact hi.leaveBlock
    | some held' =>
      have hheld := hi.exit held' hexit
      refine (hi.andThen (LoopPass.within_run (fun l head hhead => ?_) hheld)).leaveBlock
      have hc := within_optExpr condition l head htc hhead
      have hb := (within_stmt body l _ htb hc.held).after hc.trace
      refine LoopPass.within_evalLast hb
        (fun s hs => within_exprs step _ s hts hs) fun s _ => ?_
      split
      · nofun
      · intro _ hheld
        cases hheld
        exact hc.held
  | .foreachLoop name type iterable body, l, held, ht, h => by
    obtain ⟨hte, htb⟩ := List.append_subset.1 ht
    have he := within_expr iterable l held hte h
    rw [stmt]
    refine ((LoopPass.within_run (fun l head hhead => ?_) he.held).after he.trace).leaveBlock
    have hr := Evaluated.within_rebind (A := t.MayAccess owner) (.var name) hhead
    exact LoopPass.within_exitFirst hr (within_stmt body l _ htb hr.held)
  | .switch scrutinee sections, l, held, ht, h => by
    obtain ⟨hte, hts⟩ := List.append_subset.1 ht
    have he := within_expr scrutinee l held hte h
    have hs := within_sections sections l _ hts he.held
    rw [stmt]
    refine ⟨FlowState.within_joinAll ?_ hs.breaks, nofun, hs.continues, he.trace.append hs.trace⟩
    split
    · exact hs.exit
    · refine FlowState.within_join hs.exit fun _ hheld => ?_
      cases hheld
      exact he.held
  | .tryCatch body catches finalizer, l, held, ht, h => by
    obtain ⟨htb, ht⟩ := List.append_subset.1 ht
    obtain ⟨htc, htf⟩ := List.append_subset.1 ht
    have hb := (within_stmts body l.push held htb h).leaveBlock
    have hfloor := Trace.within_floor (w.stmts ⟨t, owner, l.push⟩ body held).leaveBlock.trace h
    have hc := within_catches catches l _ _ htc hb hfloor
    rw [stmt]
    exact hc.finalizing (hc.finalizerEntry h) fun s hs =>
      (within_stmts finalizer (Locals.push _) s htf hs).leaveBlock
  | .lock target body, l, held, ht, h => by
    obtain ⟨hmem, ht⟩ := List.cons_subset.1 ht
    obtain ⟨hte, htb⟩ := List.append_subset.1 ht
    have he := within_expr target l held hte h
    rw [stmt]
    cases hpath : ((BodyScope.mk t owner l).place target).path with
    | none => exact (within_stmt body l _ htb he.held).after he.trace
    | some path =>
      dsimp only
      split
      · exact (within_stmt body l _ htb he.held).after he.trace
      · have hpath' : w.MayHold t owner targets entry path :=
          .target hmem hpath
        exact ((within_stmt body l _ htb (he.held.insert hpath')).releasing path).after he.trace

theorem within_stmts : ∀ (body : List Stmt) (l : Locals) (held : HeldSet),
    Stmt.allLockTargets w.api body ⊆ targets →
    held.Within (w.MayHold t owner targets entry) →
      (w.stmts ⟨t, owner, l⟩ body held).Within (t.MayAccess owner)
        (w.MayHold t owner targets entry)
  | [], l, held, _, h => by
    rw [stmts]
    exact Outcome.within_done h
  | s :: rest, l, held, ht, h => by
    obtain ⟨hts, htr⟩ := List.append_subset.1 ht
    have hs := within_stmt s l held hts h
    rw [stmts]
    cases hexit : (w.stmt ⟨t, owner, l⟩ s held).exit with
    | none => exact hs
    | some held' =>
      exact hs.andThen (within_stmts rest _ held' htr (hs.exit held' hexit))

theorem within_sections : ∀ (sections : List Section) (l : Locals) (held : HeldSet),
    Section.allLockTargets w.api sections ⊆ targets →
    held.Within (w.MayHold t owner targets entry) →
      (w.sections ⟨t, owner, l⟩ sections held).Within (t.MayAccess owner)
        (w.MayHold t owner targets entry)
  | [], l, held, _, _ => by
    rw [sections]
    exact ⟨nofun, nofun, nofun, Trace.within_empty⟩
  | .mk _ body :: rest, l, held, ht, h => by
    obtain ⟨htb, htr⟩ := List.append_subset.1 ht
    have hb := (within_stmts body l.push held htb h).leaveBlock
    rw [sections]
    exact hb.orElse (within_sections rest _ held htr h)

theorem within_catches : ∀ (catches : List Catch) (l : Locals) (before : Outcome)
    (held : HeldSet), Catch.allLockTargets w.api catches ⊆ targets →
    before.Within (t.MayAccess owner) (w.MayHold t owner targets entry) →
    held.Within (w.MayHold t owner targets entry) →
      (w.catches ⟨t, owner, l⟩ before catches held).Within (t.MayAccess owner)
        (w.MayHold t owner targets entry)
  | [], l, before, held, _, hb, _ => by
    rw [catches]
    exact hb
  | .mk type none body :: rest, l, before, held, ht, hb, h => by
    obtain ⟨htb, htr⟩ := List.append_subset.1 ht
    have ho := within_stmts body before.locals.push.push held htb h
    rw [catches]
    exact within_catches rest l _ held htr
      (hb.orElse (ho.leaveBlock.after Trace.within_empty).leaveBlock) h
  | .mk type (some name) body :: rest, l, before, held, ht, hb, h => by
    obtain ⟨htb, htr⟩ := List.append_subset.1 ht
    have hr := Evaluated.within_rebind (A := t.MayAccess owner) (.var name) h
    have ho := within_stmts body
      ((BodyScope.mk t owner before.locals).push.declare name type none).push.locals _ htb hr.held
    rw [catches]
    exact within_catches rest l _ held htr
      (hb.orElse (ho.leaveBlock.after hr.trace).leaveBlock) h

end

/-- Every access of a body is made where a name leads to a member, and every lock held there was
held from the start or is taken in the body. -/
theorem origin_of_mem_walk {σ : BodyScope} {body : List Stmt} {a : Access} {held : HeldSet}
    (h : (a, held) ∈ (w.walk σ body entry).trace.accesses) :
    σ.table.MayAccess σ.owner a ∧
      ∀ p ∈ held, w.MayHold σ.table σ.owner (Stmt.allLockTargets w.api body) entry p :=
  (within_stmts body σ.locals.push entry (List.Subset.refl _) fun _ hp => .entry hp).trace _ h

end WalkContext

end LockDiscipline
