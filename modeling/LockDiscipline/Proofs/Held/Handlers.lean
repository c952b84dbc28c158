import LockDiscipline.Proofs.Held.Carried

/-! The states from which the clauses and the `finally` block of a `try` start. A clause starts from
the locks that are held at every point of the body, and an exception comes to the `finally` block with
those that are held at every point of the clauses as well. -/

namespace LockDiscipline

namespace WalkContext

variable (w : WalkContext) {σ : BodyScope} {body : List Stmt} {catches : List Catch} {held : HeldSet}
  {p : LockPath}

/-- Where the body of a `try` is entered. -/
def bodyPoint (σ : BodyScope) (body : List Stmt) (held : HeldSet) : Point :=
  ⟨σ.push, .stmts body, held⟩

/-- Where the clauses of a `try` are entered, one after another. -/
def clausesPoint (σ : BodyScope) (body : List Stmt) (catches : List Catch) (held : HeldSet) : Point :=
  ⟨σ.withLocals (w.stmts σ.push body held).leaveBlock.locals, .catches catches,
    w.handlerEntry σ body held⟩

theorem mem_handlerEntry : p ∈ w.handlerEntry σ body held ↔
    p ∈ held ∧ ∀ q, w.Visits (bodyPoint σ body held) q → w.HoldsAt q p := by
  rw [handlerEntry, Trace.mem_floor]
  exact and_congr_right fun hp => keeps_iff_holdsAt (a := bodyPoint σ body held) hp

theorem mem_exceptionalEntry : p ∈ w.exceptionalEntry σ body catches held ↔
    p ∈ held ∧ ∀ q, w.Visits (bodyPoint σ body held) q ∨
      w.Visits (w.clausesPoint σ body catches held) q → w.HoldsAt q p := by
  have hclauses (hentry : p ∈ w.handlerEntry σ body held) :=
    keeps_iff_holdsAt (w := w) (a := w.clausesPoint σ body catches held) hentry
  rw [exceptionalEntry, Trace.mem_floor, trace_handled, Trace.keeps_append]
  constructor
  · rintro ⟨hp, hbody, hrest⟩
    have hentry : p ∈ w.handlerEntry σ body held := Trace.mem_floor.2 ⟨hp, hbody⟩
    refine ⟨hp, fun q hq => ?_⟩
    rcases hq with hq | hq
    · exact (w.mem_handlerEntry.1 hentry).2 q hq
    · exact (hclauses hentry).1 hrest q hq
  · rintro ⟨hp, hholds⟩
    have hentry := w.mem_handlerEntry.2 ⟨hp, fun q hq => hholds q (.inl hq)⟩
    exact ⟨hp, (Trace.mem_floor.1 hentry).2, (hclauses hentry).2 fun q hq => hholds q (.inr hq)⟩

/-- Each clause is entered with the state of the first. -/
theorem exists_visits_clause (before rest : List Catch) (σ : BodyScope) (entry : HeldSet) :
    ∃ σ', w.Visits ⟨σ, .catches (before ++ rest), entry⟩ ⟨σ', .catches rest, entry⟩ := by
  induction before generalizing σ with
  | nil => exact ⟨σ, .refl⟩
  | cons c before ih =>
    obtain ⟨type, name, body⟩ := c
    cases name with
    | none =>
      obtain ⟨σ', hvisits⟩ := ih (σ.withLocals (w.stmts σ.push.push body entry).locals.pop.pop)
      exact ⟨σ', .head (.tail _ (.head _)) hvisits⟩
    | some name =>
      obtain ⟨σ', hvisits⟩ := ih (σ.withLocals (w.stmts (σ.push.declare name type none).push body
        (Evaluated.rebind (.var name) entry).held).locals.pop.pop)
      exact ⟨σ', .head (.tail _ (.tail _ (.head _))) hvisits⟩

/-- The clauses of a `try` are entered with the locks that are held wherever the walk of its body
comes to and leaves, among those held before. So a lock that is freed, or lost with a place, at some
point of the body is missing, even if it is taken again. The `finally` block is entered with what is
also held throughout the clauses, as far as their ends and that of the body hold it. -/
theorem tryCatch_starts_from_kept (σ : BodyScope) (body : List Stmt) (catches : List Catch)
    (finalizer : List Stmt) (held : HeldSet) :
    (w.stmt σ (.tryCatch body catches finalizer) held =
      let o := w.catches σ (w.stmts σ.push body held).leaveBlock catches (w.handlerEntry σ body held)
      let exceptional := w.exceptionalEntry σ body catches held
      o.finalizing (fun s => (w.stmts (σ.withLocals o.locals).push finalizer s).leaveBlock)
        (o.exit.elim exceptional (·.inter exceptional))) ∧
    (∀ before c after, catches = before ++ c :: after →
      ∃ σ', w.Visits (w.clausesPoint σ body catches held)
        ⟨σ', .catches (c :: after), w.handlerEntry σ body held⟩) ∧
    (∀ p, p ∈ w.handlerEntry σ body held ↔
      p ∈ held ∧ ∀ q, w.Visits (bodyPoint σ body held) q → w.HoldsAt q p) ∧
    (∀ p q, w.Visits (bodyPoint σ body held) q → q.Touches p → p ∉ w.handlerEntry σ body held) ∧
    ∀ p, p ∈ w.exceptionalEntry σ body catches held ↔
      p ∈ held ∧ ∀ q, w.Visits (bodyPoint σ body held) q ∨
        w.Visits (w.clausesPoint σ body catches held) q → w.HoldsAt q p := by
  refine ⟨w.stmt_tryCatch, ?_, fun p => w.mem_handlerEntry, ?_, fun p => w.mem_exceptionalEntry⟩
  · rintro before c after rfl
    exact w.exists_visits_clause before (c :: after) _ _
  · intro p q hq htouches hentry
    exact not_holdsAt_of_touches htouches ((w.mem_handlerEntry.1 hentry).2 q hq)

end WalkContext

namespace Counter

/-- A lock that is freed and taken again in the body is not held in a clause. -/
example : context.handlerEntry scope
    [.expr (.call (.member (.name "lock" none) "unlock" none) [] none),
      .expr (.call (.member (.name "lock" none) "lock" none) [] none)] (.insert ∅ lock) = ∅ := by
  decide +kernel

end Counter

end LockDiscipline
