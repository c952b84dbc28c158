import LockDiscipline.Proofs.Held.BodyWalk
import LockDiscipline.Proofs.Held.Grounded
import LockDiscipline.Proofs.Held.Reached

/-! A walk reports what is reached in the body, in the order of evaluation and each access once.
Neither the passes that find the head of a loop nor those that take a `finally` block to its ways out
report anything. -/

namespace LockDiscipline

/-- Whether the walk of a flow, whatever the locks it is entered with, makes the accesses of `l` and
leaves the flow in the ways `ways`. -/
structure Flow.Reaches (f : Flow) (ways : Ways) (l : List Access) : Prop where
  done : ∀ held, (f.walk held).exit.isSome = ways.done
  jumps : ∀ held j, (∃ s, s ∈ (f.walk held).jumps j) ↔ ways.jumps j = true
  accesses : ∀ held, (f.walk held).trace.accesses.map Prod.fst = l

namespace Flow

open Exits

variable {f g : Flow} {a b : Ways} {l m : List Access}

theorem Reaches.congr (h : f.Reaches a l) (hways : a = b) (hl : l = m) : f.Reaches b m :=
  hways ▸ hl ▸ h

/-- What leaves no way but its end. -/
private theorem reaches_ofEvaluated {e : HeldSet → Evaluated}
    (hf : ∀ held, f.walk held = ofEvaluated (e held))
    (hl : ∀ held, (e held).trace.accesses.map Prod.fst = l) : f.Reaches .byEnd l where
  done held := by
    rw [hf]
    rfl
  jumps held j := by
    rw [hf]
    simp [ofEvaluated, Ways.byEnd]
  accesses held := by
    rw [hf]
    exact hl held

theorem reaches_nothing : nothing.Reaches .byEnd [] :=
  reaches_ofEvaluated (e := .unchanged) (fun _ => rfl) fun _ => rfl

theorem reaches_access (x : Access) : (access x).Reaches .byEnd [x] :=
  reaches_ofEvaluated (e := fun held => { held, trace := .ofAccess x held }) (fun _ => rfl)
    fun _ => rfl

theorem reaches_change (effect : LockEffect) (path : LockPath) :
    (change effect path).Reaches .byEnd [] :=
  reaches_ofEvaluated (e := .applyEffect effect path) (fun _ => rfl) fun _ => rfl

theorem reaches_rebind (place : LockPath) : (rebind place).Reaches .byEnd [] :=
  reaches_ofEvaluated (e := .rebind place) (fun _ => rfl) fun held => by
    rw [Evaluated.accesses_rebind, List.map_nil]

theorem reaches_returned : (leave .returned).Reaches .closed [] :=
  ⟨fun _ => rfl, fun _ _ => by simp [walk, Exits.leave, Ways.closed], fun _ => rfl⟩

theorem reaches_raised : (leave .raised).Reaches .closed [] :=
  ⟨fun _ => rfl, fun _ _ => by simp [walk, Exits.leave, Ways.closed], fun _ => rfl⟩

theorem reaches_never : never.Reaches .closed [] :=
  ⟨fun _ => rfl, fun _ _ => by simp [walk, Ways.closed], fun _ => rfl⟩

theorem reaches_jump (j : Jump) : (leave (.jump j)).Reaches (.byJump j) [] where
  done _ := rfl
  jumps held k := by
    simp only [walk, mem_jumps_leave, Ways.byJump, decide_eq_true_eq]
    exact ⟨fun ⟨_, hk, _⟩ => hk, fun hk => ⟨held, hk, rfl⟩⟩
  accesses _ := rfl

theorem Reaches.seq (hf : f.Reaches a l) (hg : g.Reaches b m) :
    (Flow.seq f g).Reaches (a.andThen b) (l ++ if a.done then m else []) := by
  have hdone (held : HeldSet) : a.done = (f.walk held).exit.isSome := (hf.done held).symm
  constructor
  · intro held
    simp only [walk, Exits.andThen, Ways.andThen, hdone held]
    cases hx : (f.walk held).exit with
    | none => simp [hx]
    | some s => simp [hg.done]
  · intro held j
    have hj := hf.jumps held j
    simp only [walk, Exits.andThen, Ways.andThen, hdone held]
    cases hx : (f.walk held).exit with
    | none => simp [hj]
    | some s => simp [← hj, ← hg.jumps s j, exists_or]
  · intro held
    simp only [walk, Exits.andThen, hdone held]
    cases hx : (f.walk held).exit with
    | none => simp [hf.accesses]
    | some s => simp [hf.accesses, hg.accesses]

theorem Reaches.either (hf : f.Reaches a l) (hg : g.Reaches b m) :
    (Flow.either f g).Reaches (a.orElse b) (l ++ m) where
  done held := by simp [walk, Exits.orElse, Ways.orElse, hf.done, hg.done]
  jumps held j := by
    simp [walk, Exits.orElse, Ways.orElse, ← hf.jumps held, ← hg.jumps held, exists_or]
  accesses held := by simp [walk, Exits.orElse, hf.accesses, hg.accesses]

/-- Only the last pass through a loop reports, and the ways out of the loop are those of this pass. -/
theorem Reaches.forever (hf : f.Reaches a l) :
    (Flow.forever f).Reaches ⟨false, a.jumps⟩ l where
  done _ := rfl
  jumps held j := hf.jumps _ j
  accesses held := by
    simp [walk, Exits.forever, accesses_passes, hf.accesses]

theorem Reaches.landing (hf : f.Reaches a l) (j : Jump) :
    (Flow.landing j f).Reaches ⟨a.done || a.jumps j, fun k => k ≠ j && a.jumps k⟩ l where
  done held := by
    have hj : (!((f.walk held).jumps j).isEmpty) = a.jumps j := by
      rw [Bool.eq_iff_iff, ← hf.jumps held j, Bool.not_eq_true',
        List.isEmpty_eq_false_iff_exists_mem]
    simp [walk, Exits.landing, hf.done, hj]
  jumps held k := by
    simp [walk, mem_jumps_landing, ← hf.jumps held]
  accesses held := hf.accesses held

theorem Reaches.catching (hf : f.Reaches a l) (hg : g.Reaches b m) :
    (Flow.catching f g).Reaches (a.orElse b) (l ++ m) where
  done held := by simp [walk, Exits.orElse, Ways.orElse, hf.done, hg.done]
  jumps held j := by
    have hj := hg.jumps ((f.walk held).trace.floor held) j
    simp [walk, Exits.orElse, Ways.orElse, ← hf.jumps held, ← hj, exists_or]
  accesses held := by simp [walk, Exits.orElse, hf.accesses, hg.accesses]

/-- A `finally` block is reported once, however many ways lead into it. -/
theorem Reaches.finalized (hf : f.Reaches a l) (hg : g.Reaches b m) :
    (Flow.finalized f g).Reaches
      ⟨a.done && b.done, fun j => a.jumps j && b.done⟩ (l ++ m) where
  done held := by
    rw [← hf.done held]
    simp only [walk, finalizing]
    cases (f.walk held).exit with
    | none => rfl
    | some s => simp [hg.done]
  jumps held j := by
    simp only [walk, finalizing, List.mem_filterMap, Bool.and_eq_true, ← hf.jumps held j]
    constructor
    · rintro ⟨d, s, hs, hd⟩
      refine ⟨⟨s, hs⟩, ?_⟩
      rw [← hg.done s, hd]
      rfl
    · rintro ⟨⟨s, hs⟩, hb⟩
      rw [← hg.done s] at hb
      obtain ⟨d, hd⟩ := Option.isSome_iff_exists.1 hb
      exact ⟨d, s, hs, hd⟩
  accesses held := by
    simp [walk, finalizing, accesses_replays, hf.accesses, hg.accesses]

theorem Reaches.locked (hf : f.Reaches a l) (path : LockPath) :
    (Flow.locked path f).Reaches a l := by
  constructor
  · intro held
    simp only [walk]
    split
    · exact hf.done held
    · simp [releasing, hf.done]
  · intro held j
    simp only [walk]
    split
    · exact hf.jumps held j
    · rw [← hf.jumps (held.insert path) j]
      simp only [releasing, List.mem_map]
      constructor
      · rintro ⟨_, s, hs, rfl⟩
        exact ⟨s, hs⟩
      · rintro ⟨s, hs⟩
        exact ⟨_, s, hs, rfl⟩
  · intro held
    simp only [walk]
    split
    · exact hf.accesses held
    · exact hf.accesses (held.insert path)

end Flow

namespace BodyScope

variable (σ : BodyScope)

@[simp] theorem accesses_append (l m : List Expr) :
    σ.accesses (l ++ m) = σ.accesses l ++ σ.accesses m :=
  List.filterMap_append

@[simp] theorem accesses_singleton (e : Expr) : σ.accesses [e] = (σ.access? e).toList := by
  rw [accesses, List.filterMap_cons, List.filterMap_nil]
  cases σ.access? e <;> rfl

end BodyScope

namespace WalkContext

open LockDiscipline.Flow

variable (w : WalkContext) (σ : BodyScope)

private theorem reaches_fieldFlow (id : String) (span : Option Span)
    (site : Option (MemberSite FieldDecl)) :
    (fieldFlow id span site).Reaches .byEnd (site.map fun site =>
      (⟨.field site.owner id, site.receiver, [], site.decl.isStatic, span⟩ : Access)).toList := by
  cases site with
  | none => exact reaches_nothing
  | some site => exact reaches_access _

private theorem reaches_bindingsFlow (receiver : Option LockPath) (args : List (Option LockPath))
    (bs : List LockBinding) : (bindingsFlow receiver args bs).Reaches .byEnd [] := by
  induction bs with
  | nil => exact reaches_nothing
  | cons b rest ih =>
    rw [bindingsFlow]
    cases b.lock.path.instantiate receiver args with
    | none => exact ih
    | some path => exact (reaches_change b.effect path).seq ih

private theorem reaches_callFlow (args : List (Option LockPath)) (span : Option Span)
    (site : Option (MemberSite MethodDecl)) :
    (w.callFlow args span site).Reaches .byEnd (site.map fun site => (⟨.method site.owner site.decl,
      site.receiver, args, site.decl.isStatic, span⟩ : Access)).toList := by
  cases site with
  | none => exact reaches_nothing
  | some site => exact (reaches_access _).seq (reaches_bindingsFlow _ _ _)

private theorem reaches_lockCallFlow (base : Place) (method : String) :
    (w.lockCallFlow base method).Reaches .byEnd [] := by
  unfold lockCallFlow
  split
  · split
    · exact reaches_change _ _
    · exact reaches_nothing
  · exact reaches_nothing

mutual

/-- An expression makes the accesses of its parts and is left by its end. -/
theorem reaches_exprFlow : ∀ e : Expr, (w.exprFlow σ e).Reaches .byEnd (σ.accesses e.nodes)
  | .literal _ | .this => reaches_nothing
  | .name id span => by
    rw [exprFlow, Expr.nodes, BodyScope.accesses_singleton]
    exact reaches_fieldFlow id span _
  | .member base id span => by
    rw [exprFlow, Expr.nodes, BodyScope.accesses_append, BodyScope.accesses_singleton]
    exact (reaches_exprFlow base).seq (reaches_fieldFlow id span _)
  | .call (.name id _) args span => by
    rw [exprFlow, Expr.nodes, BodyScope.accesses_append, BodyScope.accesses_singleton]
    exact (reaches_exprsFlow args).seq (w.reaches_callFlow _ span _)
  | .call (.member base id s) args span => by
    have hcalled := ((reaches_exprFlow base).seq (reaches_exprsFlow args)).seq
      (w.reaches_callFlow (args.map fun e => (σ.place e).path) span
        (σ.methodOf (σ.place base) id args.length))
    have hnodes : σ.accesses (Expr.call (.member base id s) args span).nodes =
        (σ.accesses base.nodes ++ σ.accesses (Expr.allNodes args)) ++
          (σ.access? (.call (.member base id s) args span)).toList := by
      simp only [Expr.nodes, BodyScope.accesses_append, BodyScope.accesses_singleton,
        List.append_assoc]
    rw [exprFlow, hnodes]
    split
    · exact (hcalled.seq (w.reaches_lockCallFlow _ _)).congr rfl (List.append_nil _)
    · exact hcalled
  | .call (.literal _) args _ | .call .this args _ | .call (.call ..) args _
  | .call (.assign ..) args _ | .call (.unary ..) args _ | .call (.binary ..) args _
  | .call (.conditional ..) args _ | .call (.new ..) args _ => by
    rw [exprFlow, Expr.nodes, BodyScope.accesses_append, BodyScope.accesses_append]
    · exact ((reaches_exprFlow _).seq (reaches_exprsFlow args)).congr rfl
        (congrArg _ (List.append_nil _).symm)
    all_goals nofun
  | .assign target value => by
    have h := (reaches_exprFlow target).seq (reaches_exprFlow value)
    rw [exprFlow, Expr.nodes, BodyScope.accesses_append]
    cases (σ.place target).path with
    | none => exact h
    | some place => exact (h.seq (reaches_rebind place)).congr rfl (List.append_nil _)
  | .unary _ operand => by
    rw [exprFlow, Expr.nodes]
    exact reaches_exprFlow operand
  | .binary op left right => by
    rw [exprFlow, Expr.nodes, BodyScope.accesses_append]
    split
    · exact (reaches_exprFlow left).seq (reaches_nothing.either (reaches_exprFlow right))
    · exact (reaches_exprFlow left).seq (reaches_exprFlow right)
  | .conditional condition thenArm elseArm => by
    rw [exprFlow, Expr.nodes, BodyScope.accesses_append, BodyScope.accesses_append]
    exact (reaches_exprFlow condition).seq
      ((reaches_exprFlow thenArm).either (reaches_exprFlow elseArm))
  | .new _ args => by
    rw [exprFlow, Expr.nodes]
    exact reaches_exprsFlow args

theorem reaches_exprsFlow : ∀ es : List Expr,
    (w.exprsFlow σ es).Reaches .byEnd (σ.accesses (Expr.allNodes es))
  | [] => reaches_nothing
  | e :: rest => by
    rw [exprsFlow, Expr.allNodes, BodyScope.accesses_append]
    exact (reaches_exprFlow e).seq (reaches_exprsFlow rest)

end

theorem reaches_optExprFlow (e : Option Expr) :
    (w.optExprFlow σ e).Reaches .byEnd (σ.accesses (e.elim [] Expr.nodes)) := by
  cases e with
  | none => exact reaches_nothing
  | some e => exact w.reaches_exprFlow σ e

private theorem reaches_loopExit (endless : Bool) :
    (loopExit endless).Reaches ⟨true, fun j => !endless && decide (j = .breakOut)⟩ [] := by
  cases endless with
  | true => exact reaches_nothing
  | false =>
    refine ((reaches_jump .breakOut).either reaches_nothing).congr ?_ rfl
    ext j
    · rfl
    · cases j <;> rfl

/-- A loop that goes round until a `break` leaves it. -/
private theorem reaches_loop {f : Flow} {a b : Ways} {l : List Access} (hf : f.Reaches a l)
    (hdone : b.done = a.jumps .breakOut) (hjumps : ∀ j, b.jumps j = (j ≠ .breakOut && a.jumps j)) :
    (Flow.landing .breakOut (.forever f)).Reaches b l := by
  refine (hf.forever.landing .breakOut).congr (Ways.ext ?_ ?_) rfl
  · exact hdone.symm
  · funext j
    exact (hjumps j).symm

mutual

/-- A statement makes the accesses that are reached in it and is left in the ways it can be. -/
theorem reaches_stmtFlow : ∀ (s : Stmt) (σ : BodyScope), s.finallyClosed = true →
    (w.stmtFlow σ s).Reaches s.ways (s.reached σ)
  | .block body, σ, h => by
    rw [stmtFlow]
    exact reaches_stmtsFlow body σ.push h
  | .empty, _, _ => reaches_nothing
  | .declare name type init, σ, _ => by
    rw [stmtFlow]
    exact ((w.reaches_optExprFlow σ init).seq (reaches_rebind _)).congr rfl (List.append_nil _)
  | .expr e, σ, _ => by
    rw [stmtFlow]
    exact w.reaches_exprFlow σ e
  | .ret value, σ, _ => by
    rw [stmtFlow]
    exact ((w.reaches_optExprFlow σ value).seq reaches_returned).congr rfl (List.append_nil _)
  | .raise value, σ, _ => by
    rw [stmtFlow]
    exact ((w.reaches_optExprFlow σ value).seq reaches_raised).congr rfl (List.append_nil _)
  | .breakOut, _, _ => reaches_jump .breakOut
  | .continueLoop, _, _ => reaches_jump .continueLoop
  | .ite condition thenArm elseArm, σ, h => by
    simp only [Stmt.finallyClosed, Bool.and_eq_true] at h
    rw [stmtFlow]
    exact (w.reaches_exprFlow σ condition).seq
      ((reaches_stmtFlow thenArm σ h.1).either (reaches_stmtFlow elseArm (σ.after thenArm) h.2))
  | .whileLoop condition body, σ, h => by
    rw [stmtFlow]
    refine reaches_loop ((w.reaches_exprFlow σ condition).seq
      ((reaches_loopExit condition.isTrue).seq
        ((reaches_stmtFlow body σ h).landing .continueLoop))) ?_ ?_
    · simp [Stmt.ways, Ways.loop, Ways.andThen, Ways.byEnd]
    · rintro (_ | _) <;> simp [Stmt.ways, Ways.loop, Ways.andThen, Ways.byEnd]
  | .doLoop body condition, σ, h => by
    rw [stmtFlow]
    refine (reaches_loop (((reaches_stmtFlow body σ h).landing .continueLoop).seq
      ((w.reaches_exprFlow σ condition).seq (reaches_loopExit condition.isTrue))) ?_ ?_).congr rfl ?_
    · simp [Stmt.ways, Ways.loop, Ways.andThen, Ways.byEnd, Ways.comesBack, Bool.or_comm]
    · rintro (_ | _) <;> simp [Stmt.ways, Ways.loop, Ways.andThen, Ways.byEnd]
    · simp [Stmt.reached, Ways.comesBack]
  | .forLoop init condition step body, σ, h => by
    simp only [Stmt.finallyClosed, Bool.and_eq_true] at h
    have hbody := reaches_stmtFlow body (σ.push.afterAll init) h.2
    rw [stmtFlow]
    refine ((reaches_stmtsFlow init σ.push h.1).seq (reaches_loop
      ((w.reaches_optExprFlow (σ.push.afterAll init) condition).seq
        ((reaches_loopExit (condition.all Expr.isTrue)).seq
          ((hbody.landing .continueLoop).seq (w.reaches_exprsFlow _ step)))) ?_ ?_)).congr rfl ?_
    · simp [Ways.loop, Ways.andThen, Ways.byEnd]
    · rintro (_ | _) <;> simp [Ways.loop, Ways.andThen, Ways.byEnd]
    · simp [Stmt.reached, Ways.byEnd, Ways.comesBack]
  | .foreachLoop name type iterable body, σ, h => by
    rw [stmtFlow]
    have hbody := reaches_stmtFlow body (σ.push.declare name type none) h
    refine (w.reaches_exprFlow σ iterable).seq (reaches_loop (b := .loop true body.ways)
      ((reaches_rebind (.var name)).seq
        ((reaches_loopExit false).seq (hbody.landing .continueLoop))) ?_ ?_)
    · simp [Ways.loop, Ways.andThen, Ways.byEnd]
    · rintro (_ | _) <;> simp [Ways.loop, Ways.andThen, Ways.byEnd]
  | .switch scrutinee sections, σ, h => by
    have hsections := reaches_sectionsFlow sections σ h
    rw [stmtFlow]
    cases hd : sections.any Section.isDefault with
    | true =>
      refine ((w.reaches_exprFlow σ scrutinee).seq (hsections.landing .breakOut)).congr ?_ rfl
      ext j
      · simp [Stmt.ways, Ways.andThen, Ways.byEnd, hd]
      · cases j <;> simp [Stmt.ways, Ways.andThen, Ways.byEnd]
    | false =>
      refine ((w.reaches_exprFlow σ scrutinee).seq
        ((hsections.either reaches_nothing).landing .breakOut)).congr ?_ ?_
      · ext j
        · simp [Stmt.ways, Ways.andThen, Ways.orElse, Ways.byEnd, hd]
        · cases j <;> simp [Stmt.ways, Ways.andThen, Ways.orElse, Ways.byEnd]
      · exact congrArg _ (List.append_nil _)
  | .tryCatch body catches finalizer, σ, h => by
    simp only [Stmt.finallyClosed, Bool.and_eq_true, Bool.not_eq_true'] at h
    obtain ⟨hbody, hcatches, hfinalizer, hbreak, hcontinue⟩ := h
    rw [stmtFlow]
    refine (((reaches_stmtsFlow body σ.push hbody).catching
      (reaches_catchesFlow catches σ hcatches)).finalized
        (reaches_stmtsFlow finalizer σ.push hfinalizer)).congr ?_ rfl
    ext j
    · rfl
    · cases j <;> simp [Stmt.ways, Ways.finalized, hbreak, hcontinue]
  | .lock target body, σ, h => by
    have hbody := reaches_stmtFlow body σ h
    rw [stmtFlow]
    cases (σ.place target).path with
    | none => exact (w.reaches_exprFlow σ target).seq hbody
    | some path => exact (w.reaches_exprFlow σ target).seq (hbody.locked path)

theorem reaches_stmtsFlow : ∀ (body : List Stmt) (σ : BodyScope),
    Stmt.allFinallyClosed body = true →
      (w.stmtsFlow σ body).Reaches (Stmt.allWays body) (Stmt.allReached σ body)
  | [], _, _ => reaches_nothing
  | s :: rest, σ, h => by
    simp only [Stmt.allFinallyClosed, Bool.and_eq_true] at h
    rw [stmtsFlow]
    exact (reaches_stmtFlow s σ h.1).seq (reaches_stmtsFlow rest (σ.after s) h.2)

theorem reaches_sectionsFlow : ∀ (sections : List Section) (σ : BodyScope),
    Section.allFinallyClosed sections = true →
      (w.sectionsFlow σ sections).Reaches (Section.allWays sections) (Section.allReached σ sections)
  | [], _, _ => reaches_never
  | .mk _ body :: rest, σ, h => by
    simp only [Section.allFinallyClosed, Bool.and_eq_true] at h
    rw [sectionsFlow]
    exact (reaches_stmtsFlow body σ.push h.1).either (reaches_sectionsFlow rest σ h.2)

theorem reaches_catchesFlow : ∀ (catches : List Catch) (σ : BodyScope),
    Catch.allFinallyClosed catches = true →
      (w.catchesFlow σ catches).Reaches (Catch.allWays catches) (Catch.allReached σ catches)
  | [], _, _ => reaches_never
  | .mk type none body :: rest, σ, h => by
    simp only [Catch.allFinallyClosed, Bool.and_eq_true] at h
    rw [catchesFlow]
    exact (reaches_stmtsFlow body σ.push.push h.1).either (reaches_catchesFlow rest σ h.2)
  | .mk type (some name) body :: rest, σ, h => by
    simp only [Catch.allFinallyClosed, Bool.and_eq_true] at h
    have hbody := reaches_stmtsFlow body (σ.push.declare name type none).push h.1
    rw [catchesFlow]
    exact ((reaches_rebind (.var name)).seq hbody).either (reaches_catchesFlow rest σ h.2)

end

/-- A walk reports the accesses that are reached in a body, in the order of evaluation and each once,
and comes to the end if the body has one. Neither depends on the locks it is entered with, nor on
what the called methods do to locks. -/
theorem walk_reports {σ : BodyScope} {body : List Stmt} (held : HeldSet)
    (hloops : Stmt.allLoopsClosed body = true) (hfinally : Stmt.allFinallyClosed body = true) :
    (w.walk σ body held).trace.accesses.map Prod.fst = Stmt.allReached σ.push body ∧
      (w.walk σ body held).exit.isSome = (Stmt.allWays body).done := by
  have hreaches := w.reaches_stmtsFlow body σ.push hfinally
  have hexits := w.walk_bodyFlow (σ := σ) held hloops
  constructor
  · rw [← hreaches.accesses held]
    exact congrArg (fun o : Exits => o.trace.accesses.map Prod.fst) hexits
  · rw [← hreaches.done held]
    exact congrArg (fun o : Exits => o.exit.isSome) hexits

end WalkContext

namespace Counter

/-- `while (x) { try { lock.lock(); if (x) break; } finally { lock.unlock(); } } x;` -/
def retry : List Stmt :=
  [.whileLoop readX
    (.tryCatch
      [.expr (.call (.member (.name "lock" none) "lock" none) [] none), .ite readX .breakOut .empty]
      [] [.expr (.call (.member (.name "lock" none) "unlock" none) [] none)]),
    .expr readX]

/-- The `finally` block is walked on both ways out of each pass, and reported once. -/
theorem reports_retry : (context.walk scope retry (.insert ∅ lock)).trace.accesses.map Prod.fst =
    [accessX, accessLock, accessX, accessLock, accessX] := by
  have hreached : Stmt.allReached scope.push retry =
    [accessX, accessLock, accessX, accessLock, accessX] := by cbv
  rw [← hreached]
  exact (context.walk_reports (.insert ∅ lock) (by decide) (by decide)).1

end Counter

end LockDiscipline
