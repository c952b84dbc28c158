import LockDiscipline.Proofs.Held.BodyFlow

/-! The locals that a walk passes along are those of the scope, as long as no loop has a bare
declaration for its body. In particular a loop's passes all start in the same locals. -/

namespace LockDiscipline

namespace BodyScope

@[simp] theorem withLocals_locals (σ : BodyScope) : σ.withLocals σ.locals = σ := rfl

theorem after_of_closed : ∀ (s : Stmt) {σ : BodyScope}, s.declaresBare = false → σ.after s = σ
  | .declare .., σ, h => by cases h
  | .ite _ thenArm elseArm, σ, h => by
    simp only [Stmt.declaresBare, Bool.or_eq_false_iff] at h
    rw [after, after_of_closed thenArm h.1, after_of_closed elseArm h.2]
  | .lock _ body, σ, h => after_of_closed body h
  | .block _, _, _ | .empty, _, _ | .expr _, _, _ | .ret _, _, _ | .raise _, _, _ | .breakOut, _, _
  | .continueLoop, _, _ | .whileLoop .., _, _ | .doLoop .., _, _ | .forLoop .., _, _
  | .foreachLoop .., _, _ | .switch .., _, _ | .tryCatch .., _, _ => rfl

/-- A statement adds locals to the innermost block only. -/
theorem exists_after : ∀ (s : Stmt) (σ : BodyScope), ∃ l : List Local,
    σ.after s = σ.withLocals ⟨l, σ.locals.enclosing⟩
  | .declare .., σ => ⟨_, rfl⟩
  | .ite _ thenArm elseArm, σ => by
    obtain ⟨l, hl⟩ := exists_after thenArm σ
    obtain ⟨l', hl'⟩ := exists_after elseArm (σ.after thenArm)
    refine ⟨l', ?_⟩
    rw [after, hl', hl]
    rfl
  | .lock _ body, σ => exists_after body σ
  | .block _, _ | .empty, _ | .expr _, _ | .ret _, _ | .raise _, _ | .breakOut, _
  | .continueLoop, _ | .whileLoop .., _ | .doLoop .., _ | .forLoop .., _
  | .foreachLoop .., _ | .switch .., _ | .tryCatch .., _ => ⟨_, rfl⟩

theorem after_enclosing (σ : BodyScope) (s : Stmt) :
    (σ.after s).locals.enclosing = σ.locals.enclosing := by
  obtain ⟨l, hl⟩ := exists_after s σ
  rw [hl]
  rfl

theorem after_withLocals (σ : BodyScope) (s : Stmt) :
    σ.withLocals (σ.after s).locals = σ.after s := by
  obtain ⟨l, hl⟩ := exists_after s σ
  rw [hl]
  rfl

theorem withLocals_afterAll (σ : BodyScope) (body : List Stmt) (l : Locals) :
    σ.withLocals ((σ.withLocals l).afterAll body).locals = (σ.withLocals l).afterAll body := by
  induction body generalizing l with
  | nil => rfl
  | cons s rest ih =>
    rw [afterAll, List.foldl_cons, ← afterAll,
      ← after_withLocals (σ.withLocals l) s]
    exact ih _

end BodyScope

namespace LoopPass

theorem locals_run {pass : Locals → HeldSet → LoopPass} {l : Locals}
    (h : ∀ head, (pass l head).locals = l) (head : HeldSet) : (run pass l head).locals = l := by
  induction hn : head.size using Nat.strongRecOn generalizing head with
  | ind n ih =>
    rw [run]
    simp only [h head, ↓reduceIte]
    split
    · rfl
    · next hs =>
      subst hn
      exact ih _ (size_nextHead_lt hs) _ rfl

end LoopPass

namespace WalkContext

variable (w : WalkContext)

theorem pop_of_enclosing {σ : BodyScope} {l : Locals}
    (h : l.enclosing = σ.push.locals.enclosing) : l.pop = σ.locals := by
  rw [Locals.pop, h]
  rfl

mutual

/-- A statement leaves the locals that its scope says. -/
theorem locals_stmt : ∀ (s : Stmt) (σ : BodyScope) (held : HeldSet), s.loopsClosed = true →
    (w.stmt σ s held).locals = (σ.after s).locals
  | .block body, σ, held, h => by
    rw [stmt]
    exact pop_of_enclosing (locals_stmts body σ.push held h).1
  | .empty, σ, held, _ => rfl
  | .declare .., σ, held, _ => rfl
  | .expr _, σ, held, _ => rfl
  | .ret _, σ, held, _ => rfl
  | .raise _, σ, held, _ => rfl
  | .breakOut, σ, held, _ => rfl
  | .continueLoop, σ, held, _ => rfl
  | .ite condition thenArm elseArm, σ, held, h => by
    simp only [Stmt.loopsClosed, Bool.and_eq_true] at h
    have ht := locals_stmt thenArm σ (w.expr σ condition held).held h.1
    have he := locals_stmt elseArm (σ.after thenArm) (w.expr σ condition held).held h.2
    rw [stmt]
    simp only [ht, BodyScope.after_withLocals]
    exact he
  | .whileLoop condition body, σ, held, h => by
    simp only [Stmt.loopsClosed, Bool.and_eq_true, Bool.not_eq_true'] at h
    rw [stmt]
    refine LoopPass.locals_run (fun head => ?_) held
    have hb := locals_stmt body σ (w.expr σ condition head).held h.2
    rwa [BodyScope.after_of_closed body h.1] at hb
  | .doLoop body condition, σ, held, h => by
    simp only [Stmt.loopsClosed, Bool.and_eq_true, Bool.not_eq_true'] at h
    rw [stmt]
    refine LoopPass.locals_run (fun head => ?_) held
    have hb := locals_stmt body σ head h.2
    rwa [BodyScope.after_of_closed body h.1] at hb
  | .forLoop init condition step body, σ, held, h => by
    simp only [Stmt.loopsClosed, Bool.and_eq_true, Bool.not_eq_true'] at h
    obtain ⟨hi, hb, hsb⟩ := h
    have hpop := pop_of_enclosing (locals_stmts init σ.push held hi).1
    rw [stmt]
    cases he : (w.stmts σ.push init held).exit with
    | none => exact hpop
    | some held' =>
      have hrun : (LoopPass.run (fun l head =>
          let σ := σ.push.withLocals l
          let c := w.optExpr σ condition head
          let b := (w.stmt σ body c.held).after c.trace
          .evalLast (fun _ => if condition.all Expr.isTrue then none else some c.held) b
            (w.exprs (σ.withLocals b.locals) step)) (w.stmts σ.push init held).locals held').locals =
          (w.stmts σ.push init held).locals := by
        refine LoopPass.locals_run (fun head => ?_) held'
        have hl := locals_stmt body (σ.push.withLocals (w.stmts σ.push init held).locals)
          (w.optExpr (σ.push.withLocals (w.stmts σ.push init held).locals) condition head).held hsb
        rwa [BodyScope.after_of_closed body hb] at hl
      exact (congrArg Locals.pop hrun).trans hpop
  | .foreachLoop name type iterable body, σ, held, h => by
    simp only [Stmt.loopsClosed, Bool.and_eq_true, Bool.not_eq_true'] at h
    rw [stmt]
    refine congrArg Locals.pop (LoopPass.locals_run (fun head => ?_) _)
    have hb := locals_stmt body (σ.push.declare name type none)
      (Evaluated.rebind (.var name) head).held h.2
    rwa [BodyScope.after_of_closed body h.1] at hb
  | .switch scrutinee sections, σ, held, h => by
    rw [stmt]
    exact locals_sections sections σ (w.expr σ scrutinee held).held h
  | .tryCatch body catches finalizer, σ, held, h => by
    simp only [Stmt.loopsClosed, Bool.and_eq_true] at h
    rw [stmt]
    exact locals_catches catches σ _ _ h.1.2 (pop_of_enclosing (locals_stmts body σ.push held h.1.1).1)
  | .lock target body, σ, held, h => by
    have hb (held : HeldSet) := locals_stmt body σ held h
    rw [stmt]
    cases (σ.place target).path with
    | none => exact hb _
    | some path =>
      dsimp only
      split
      · exact hb _
      · exact hb _

/-- Statements change the innermost block only, to the scope at their end if they come to it. -/
theorem locals_stmts : ∀ (body : List Stmt) (σ : BodyScope) (held : HeldSet),
    Stmt.allLoopsClosed body = true →
      (w.stmts σ body held).locals.enclosing = σ.locals.enclosing ∧
      ((w.stmts σ body held).exit.isSome = true →
        (w.stmts σ body held).locals = (σ.afterAll body).locals)
  | [], σ, held, _ => ⟨rfl, fun _ => rfl⟩
  | s :: rest, σ, held, h => by
    simp only [Stmt.allLoopsClosed, Bool.and_eq_true] at h
    have hs := locals_stmt s σ held h.1
    rw [stmts]
    cases he : (w.stmt σ s held).exit with
    | none =>
      refine ⟨?_, fun hr => ?_⟩
      · rw [hs, BodyScope.after_enclosing]
      · rw [he] at hr
        cases hr
    | some held' =>
      have hr := locals_stmts rest (σ.withLocals (w.stmt σ s held).locals) held' h.2
      rw [hs, BodyScope.after_withLocals] at hr
      dsimp only [Outcome.andThen]
      rw [hs, BodyScope.after_withLocals]
      exact ⟨hr.1.trans (σ.after_enclosing s), hr.2⟩

/-- Each section of a `switch` is a block of its own. -/
theorem locals_sections : ∀ (sections : List Section) (σ : BodyScope) (held : HeldSet),
    Section.allLoopsClosed sections = true → (w.sections σ sections held).locals = σ.locals
  | [], σ, held, _ => rfl
  | .mk _ body :: rest, σ, held, h => by
    simp only [Section.allLoopsClosed, Bool.and_eq_true] at h
    have hb := pop_of_enclosing (locals_stmts body σ.push held h.1).1
    have hr := locals_sections rest σ held h.2
    rw [sections]
    simp only [Outcome.leaveBlock, hb, BodyScope.withLocals_locals]
    exact hr

/-- Each clause of a `try` is a block of its own. -/
theorem locals_catches : ∀ (catches : List Catch) (σ : BodyScope) (before : Outcome)
    (entry : HeldSet), Catch.allLoopsClosed catches = true → before.locals = σ.locals →
      (w.catches σ before catches entry).locals = σ.locals
  | [], σ, before, entry, _, hb => hb
  | .mk type name body :: rest, σ, before, entry, h, hb => by
    simp only [Catch.allLoopsClosed, Bool.and_eq_true] at h
    cases name with
    | none =>
      have hi := pop_of_enclosing (locals_stmts body σ.push.push entry h.1).1
      rw [catches]
      refine locals_catches rest σ _ entry h.2 ?_
      rw [hb]
      exact congrArg Locals.pop hi
    | some name =>
      have hi := pop_of_enclosing (locals_stmts body (σ.push.declare name type none).push
        (Evaluated.rebind (.var name) entry).held h.1).1
      rw [catches]
      refine locals_catches rest σ _ entry h.2 ?_
      rw [hb]
      exact congrArg Locals.pop hi

end

end WalkContext

end LockDiscipline
