import LockDiscipline.Proofs.Held.Hiding
import LockDiscipline.Proofs.Names.LockPlace

/-! Which locks a variable inherits. A lock that a walk holds through a variable was taken through
the binding that the variable has there, unless a scope that hides this binding left the lock
behind. -/

namespace LockDiscipline

variable {T : LockPath → LockPath → Prop} {A : Access × HeldSet → Access × HeldSet → Prop}

namespace BodyScope

/-- Whether every binding is one of a visible variable. -/
def Shows (σ : BodyScope) (β : Bindings) : Prop :=
  ∀ name k, β.lookup name = some k → σ.isLocal name = true

variable {σ : BodyScope} {β : Bindings}

theorem Shows.push (h : σ.Shows β) : σ.push.Shows β := by
  intro name k hk
  rw [isLocal, local?_push]
  exact h name k hk

theorem Shows.declare (h : σ.Shows β) (name : String) (type : Option String) (init : Option Expr)
    (next : Nat) : (σ.declare name type init).Shows ((name, next) :: β) := by
  intro name' k hk
  by_cases hname : name' = name
  · subst hname
    simp [isLocal, local?, BodyScope.declare, bindLocal, withLocals, Locals.find?, Locals.add]
  · have hne : (name' == name) = false := beq_false_of_ne hname
    have hlocal := h name' k (by simpa only [List.lookup_cons, hne] using hk)
    have hname : name ≠ name' := Ne.symm hname
    simpa [isLocal, local?, BodyScope.declare, bindLocal, withLocals, Locals.find?, Locals.add,
      hname] using hlocal

theorem Shows.tracks {left : List LockPath} {visible : String → Prop} {p q : LockPath}
    (h : σ.Shows β) (hpq : β.Tracks left visible p q) :
    β.Tracks left (σ.isLocal · = true) p q := by
  refine ⟨hpq.bound, fun name hroot => ?_, hpq.notLeft⟩
  obtain ⟨name', k, hroot', hk, -⟩ := LockPath.boundBy_eq_some_iff.1 hpq.bound
  cases hroot.symm.trans hroot'
  exact h name k hk

theorem shows_ofMethod (t : TypeTable) (owner : String) (m : MethodDecl) :
    (ofMethod t owner m).Shows m.bindings := by
  intro name k hk
  obtain ⟨l, l', hl, -⟩ := List.lookup_eq_some_iff.1 hk
  have hmem : (name, k) ∈ m.bindings := hl ▸ by simp
  obtain ⟨⟨q, i⟩, hq, heq⟩ := List.mem_map.1 (List.mem_reverse.1 hmem)
  cases heq
  have hparameter : q ∈ m.parameters := List.fst_mem_of_mem_zipIdx hq
  simp only [isLocal, local?, ofMethod, Locals.find?, List.flatten_nil, List.append_nil,
    List.find?_isSome, List.mem_reverse, List.mem_map]
  exact ⟨⟨q.name, some q.type⟩, ⟨q, hparameter, rfl⟩, by simp⟩

end BodyScope

theorem Bindings.after_of_closed {β : Bindings} {next : Nat} {s : Stmt}
    (h : s.declaresBare = false) : β.after next s = β := by
  cases s with
  | declare => cases h
  | _ => rfl

theorem Stmt.exists_declare_of_declaresBare {s : Stmt} (hbare : s.declaresBare = true)
    (hbranches : s.branchesClosed = true) : ∃ name type init, s = .declare name type init := by
  cases s with
  | declare name type init => exact ⟨name, type, init, rfl⟩
  | ite condition thenArm elseArm => simp_all [declaresBare, branchesClosed]
  | lock target body => simp_all [declaresBare, branchesClosed]
  | _ => cases hbare

namespace Flow

variable {f f' : Flow} {β : Bindings} {left : List LockPath}

theorem trackedBy_nothing {visible : String → Prop} :
    nothing.TrackedBy (β.TracksAll left) (β.Tracks left visible) A nothing :=
  (trackedBy_leave .done).mono fun _ _ hpq => hpq.all

/-- A block, seen from around it. -/
theorem trackedBy_block {σ : BodyScope} (hσ : σ.Shows β)
    (hf : (seq f nothing).TrackedBy T (β.Tracks left (σ.isLocal · = true)) A f') :
    f.TrackedBy T (β.TracksAll left) A f' :=
  (hf.congr walk_seq_nothing.symm rfl).mono fun _ _ => hσ.tracks

end Flow

namespace WalkContext

open LockDiscipline.Flow

variable (w : WalkContext) {left : List LockPath}

mutual

/-- A statement is tracked by its flow with the variables told apart, from the bindings before it to
the same bindings: what it binds is out of scope at its end. -/
theorem trackedBy_boundStmt : ∀ (s : Stmt) (σ : BodyScope) (β : Bindings) (next : Nat), σ.Shows β →
    s.declaresBare = false → s.loopsClosed = true → s.branchesClosed = true →
    w.leaks σ s ⊆ left →
      (w.stmtFlow σ s).TrackedBy (β.TracksAll left) (β.TracksAll left) (SeenAlike left)
        (w.boundStmt σ β next s)
  | .block body, σ, β, next, hσ, _, hl, hb, hleft => by
    rw [stmtFlow, boundStmt]
    exact trackedBy_block hσ (trackedBy_boundStmts body σ σ.push β next .nothing _ hσ.push hl hb
      hleft fun _ _ _ => trackedBy_nothing)
  | .empty, σ, β, next, _, _, _, _, _ => trackedBy_leave .done
  | .declare .., _, _, _, _, h, _, _, _ => by cases h
  | .expr e, σ, β, next, _, _, _, _, _ => trackedBy_boundBy β left (w.exprFlow σ e)
  | .ret value, σ, β, next, _, _, _, _, _ =>
    (trackedBy_boundBy β left (w.optExprFlow σ value)).then (trackedBy_leave .returned)
  | .raise value, σ, β, next, _, _, _, _, _ =>
    (trackedBy_boundBy β left (w.optExprFlow σ value)).then (trackedBy_leave .raised)
  | .breakOut, _, _, _, _, _, _, _, _ => trackedBy_leave (.jump .breakOut)
  | .continueLoop, _, _, _, _, _, _, _, _ => trackedBy_leave (.jump .continueLoop)
  | .ite condition thenArm elseArm, σ, β, next, hσ, _, hl, hb, hleft => by
    simp only [Stmt.loopsClosed, Stmt.branchesClosed, Bool.and_eq_true, Bool.not_eq_true'] at hl hb
    obtain ⟨⟨hthen, helse⟩, hbt, hbe⟩ := hb
    obtain ⟨hleftt, hlefte⟩ := List.append_subset.1 hleft
    rw [BodyScope.after_of_closed thenArm hthen] at hlefte
    rw [stmtFlow, boundStmt, BodyScope.after_of_closed thenArm hthen]
    exact (trackedBy_boundBy β left _).then
      ((trackedBy_boundStmt thenArm σ β next hσ hthen hl.1 hbt hleftt).either
        (trackedBy_boundStmt elseArm σ β _ hσ helse hl.2 hbe hlefte))
  | .whileLoop condition body, σ, β, next, hσ, _, hl, hb, hleft => by
    simp only [Stmt.loopsClosed, Bool.and_eq_true, Bool.not_eq_true'] at hl
    have hbody := trackedBy_boundStmt body σ β next hσ hl.1 hl.2 hb hleft
    rw [stmtFlow, boundStmt]
    exact ((trackedBy_boundBy β left _).then
      ((trackedBy_loopExit _).then (hbody.landing .continueLoop))).forever.landing .breakOut
  | .doLoop body condition, σ, β, next, hσ, _, hl, hb, hleft => by
    simp only [Stmt.loopsClosed, Bool.and_eq_true, Bool.not_eq_true'] at hl
    have hbody := trackedBy_boundStmt body σ β next hσ hl.1 hl.2 hb hleft
    rw [stmtFlow, boundStmt]
    exact ((hbody.landing .continueLoop).then
      ((trackedBy_boundBy β left _).then (trackedBy_loopExit _))).forever.landing .breakOut
  | .forLoop init condition step body, σ, β, next, hσ, _, hl, hb, hleft => by
    simp only [Stmt.loopsClosed, Stmt.branchesClosed, Bool.and_eq_true, Bool.not_eq_true'] at hl hb
    obtain ⟨hli, hlb, hls⟩ := hl
    obtain ⟨hlefti, hleftb⟩ := List.append_subset.1 hleft
    rw [stmtFlow, boundStmt]
    refine TrackedBy.mono (trackedBy_boundStmts init σ σ.push β next
      (w.roundsFlow (σ.push.afterAll init) condition step body) _ hσ.push hli hb.1 hlefti
      fun β next hσ => ?_) fun _ _ => hσ.tracks
    have hbody := trackedBy_boundStmt body (σ.push.afterAll init) β next hσ hlb hls hb.2 hleftb
    refine TrackedBy.mono (((trackedBy_boundBy β left _).then ((trackedBy_loopExit _).then
      ((hbody.landing .continueLoop).then
        (trackedBy_boundBy β left _)))).forever.landing .breakOut) fun _ _ hpq => hpq.all
  | .foreachLoop name type iterable body, σ, β, next, hσ, _, hl, hb, hleft => by
    simp only [Stmt.loopsClosed, Bool.and_eq_true, Bool.not_eq_true'] at hl
    have hbody := trackedBy_boundStmt body (σ.push.declare name type none) ((name, next) :: β)
      (next + 1) (hσ.push.declare name type none next) hl.1 hl.2 hb hleft
    rw [stmtFlow, boundStmt]
    exact (trackedBy_boundBy β left _).then (trackedBy_elementLoop hbody)
  | .switch scrutinee sections, σ, β, next, hσ, _, hl, hb, hleft => by
    have hsections := trackedBy_boundSections sections σ β next hσ hl hb hleft
    rw [stmtFlow, boundStmt]
    refine (trackedBy_boundBy β left _).then (TrackedBy.landing ?_ .breakOut)
    split
    · exact hsections
    · exact hsections.either (trackedBy_leave .done)
  | .tryCatch body catches finalizer, σ, β, next, hσ, _, hl, hb, hleft => by
    simp only [Stmt.loopsClosed, Stmt.branchesClosed, Bool.and_eq_true] at hl hb
    obtain ⟨hleftb, hleftr⟩ := List.append_subset.1 hleft
    obtain ⟨hleftc, hleftf⟩ := List.append_subset.1 hleftr
    rw [stmtFlow, boundStmt]
    refine TrackedBy.finalized (TrackedBy.catching ?_ ?_) ?_
    · exact trackedBy_block hσ (trackedBy_boundStmts body σ σ.push β next .nothing _ hσ.push
        hl.1.1 hb.1.1 hleftb fun _ _ _ => trackedBy_nothing)
    · exact trackedBy_boundCatches catches σ β _ hσ hl.1.2 hb.1.2 hleftc
    · exact trackedBy_block hσ (trackedBy_boundStmts finalizer σ σ.push β _ .nothing _ hσ.push
        hl.2 hb.2 hleftf fun _ _ _ => trackedBy_nothing)
  | .lock target body, σ, β, next, hσ, _, hl, hb, hleft => by
    simp only [Stmt.branchesClosed, Bool.and_eq_true, Bool.not_eq_true'] at hb
    have hbody := trackedBy_boundStmt body σ β next hσ hb.1 hl hb.2 hleft
    rw [stmtFlow, boundStmt]
    refine (trackedBy_boundBy β left _).then ?_
    cases (σ.place target).path with
    | none => exact hbody
    | some path => exact trackedBy_lockedAt path hbody

/-- In a block the bindings grow from statement to statement; what the block leaves is tracked for the
variables of the scope `outer` around it, by the bindings before the block. -/
theorem trackedBy_boundStmts : ∀ (body : List Stmt) (outer σ : BodyScope) (β : Bindings)
    (next : Nat) (last : Flow) (last' : Bindings → Nat → Flow), σ.Shows β →
    Stmt.allLoopsClosed body = true → Stmt.allBranchesClosed body = true →
    w.leaksAll outer σ last body ⊆ left →
    (∀ β next, (σ.afterAll body).Shows β → last.TrackedBy (β.TracksAll left)
      (β.Tracks left (outer.isLocal · = true)) (SeenAlike left) (last' β next)) →
      (seq (w.stmtsFlow σ body) last).TrackedBy (β.TracksAll left)
        (β.Tracks left (outer.isLocal · = true)) (SeenAlike left) (w.boundStmts σ β next last' body)
  | [], outer, σ, β, next, last, last', hσ, _, _, _, hlast => by
    exact ((trackedBy_leave .done).seq (hlast β next hσ) (fun _ _ => id)
      fun _ _ hpq => hpq.all).congr rfl (walk_nothing_seq _).symm
  | s :: rest, outer, σ, β, next, last, last', hσ, hl, hb, hleft, hlast => by
    simp only [Stmt.allLoopsClosed, Stmt.allBranchesClosed, Bool.and_eq_true] at hl hb
    rw [leaksAll, List.append_subset, List.append_subset] at hleft
    obtain ⟨hhiding, hlefts, hleftr⟩ := hleft
    rw [stmtsFlow, boundStmts]
    cases hbare : s.declaresBare with
    | true =>
      -- The rest of the block, with what follows it, is the scope of the variable.
      obtain ⟨name, type, init, rfl⟩ := Stmt.exists_declare_of_declaresBare hbare hb.1
      have hrest := trackedBy_boundStmts rest outer (σ.declare name type init) ((name, next) :: β)
        (next + 1) last last' (hσ.declare name type init next) hl.2 hb.2 hleftr hlast
      have hscope := trackedBy_scope hrest fun hvisible => by
        rwa [leftByHiding, if_pos hvisible] at hhiding
      have hinit := trackedBy_boundBy β left (w.optExprFlow σ init)
      rw [stmtFlow, boundStmt]
      exact (hinit.seq hscope (fun _ _ => id) fun _ _ hpq => hpq.all).congr
        (walk_seq_assoc.trans walk_seq_assoc) walk_seq_assoc
    | false =>
      have hs := trackedBy_boundStmt s σ β next hσ hbare hl.1 hb.1 hlefts
      have hσ' : (σ.after s).Shows β := (BodyScope.after_of_closed s hbare).symm ▸ hσ
      have hrest := trackedBy_boundStmts rest outer (σ.after s) β (next + s.bindingCount) last last'
        hσ' hl.2 hb.2 hleftr hlast
      rw [Bindings.after_of_closed hbare]
      exact (hs.seq hrest (fun _ _ => id) fun _ _ hpq => hpq.all).congr walk_seq_assoc rfl

theorem trackedBy_boundSections : ∀ (sections : List Section) (σ : BodyScope) (β : Bindings)
    (next : Nat), σ.Shows β → Section.allLoopsClosed sections = true →
    Section.allBranchesClosed sections = true → w.leaksSections σ sections ⊆ left →
      (w.sectionsFlow σ sections).TrackedBy (β.TracksAll left) (β.TracksAll left) (SeenAlike left)
        (w.boundSections σ β next sections)
  | [], _, _, _, _, _, _, _ => trackedBy_never
  | .mk _ body :: rest, σ, β, next, hσ, hl, hb, hleft => by
    simp only [Section.allLoopsClosed, Section.allBranchesClosed, Bool.and_eq_true] at hl hb
    obtain ⟨hleftb, hleftr⟩ := List.append_subset.1 hleft
    rw [sectionsFlow, boundSections]
    refine TrackedBy.either ?_ (trackedBy_boundSections rest σ β _ hσ hl.2 hb.2 hleftr)
    exact trackedBy_block hσ (trackedBy_boundStmts body σ σ.push β next .nothing _ hσ.push hl.1 hb.1
      hleftb fun _ _ _ => trackedBy_nothing)

theorem trackedBy_boundCatches : ∀ (catches : List Catch) (σ : BodyScope) (β : Bindings)
    (next : Nat), σ.Shows β → Catch.allLoopsClosed catches = true →
    Catch.allBranchesClosed catches = true → w.leaksCatches σ catches ⊆ left →
      (w.catchesFlow σ catches).TrackedBy (β.TracksAll left) (β.TracksAll left) (SeenAlike left)
        (w.boundCatches σ β next catches)
  | [], _, _, _, _, _, _, _ => trackedBy_never
  | .mk type (some name) body :: rest, σ, β, next, hσ, hl, hb, hleft => by
    simp only [Catch.allLoopsClosed, Catch.allBranchesClosed, Bool.and_eq_true] at hl hb
    rw [leaksCatches, List.append_subset, List.append_subset] at hleft
    obtain ⟨hhiding, hleftb, hleftr⟩ := hleft
    have hinner := hσ.push.declare name type none next
    have hbody := trackedBy_block hinner (trackedBy_boundStmts body _ _ _ (next + 1) .nothing _
      hinner.push hl.1 hb.1 hleftb fun _ _ _ => trackedBy_nothing)
    rw [catchesFlow, boundCatches]
    refine TrackedBy.either ?_ (trackedBy_boundCatches rest σ β _ hσ hl.2 hb.2 hleftr)
    refine TrackedBy.mono (U := β.Tracks left (σ.isLocal · = true)) (trackedBy_scope
      (hbody.mono fun _ _ hpq => hpq.all) fun hvisible => ?_) fun _ _ => hσ.tracks
    rwa [if_pos hvisible] at hhiding
  | .mk _ none body :: rest, σ, β, next, hσ, hl, hb, hleft => by
    simp only [Catch.allLoopsClosed, Catch.allBranchesClosed, Bool.and_eq_true] at hl hb
    obtain ⟨hleftb, hleftr⟩ := List.append_subset.1 hleft
    rw [catchesFlow, boundCatches]
    refine TrackedBy.either ?_ (trackedBy_boundCatches rest σ β _ hσ hl.2 hb.2 hleftr)
    exact trackedBy_block hσ.push (trackedBy_boundStmts body σ.push _ β next .nothing _
      hσ.push.push hl.1 hb.1 hleftb fun _ _ _ => trackedBy_nothing)

end

/-- What is tracked at the start of a body. -/
private theorem trackedBy_entry (entry : HeldSet) (β : Bindings) (left : List LockPath) :
    HeldSet.TrackedBy (β.TracksAll left) entry (entry.boundBy β) := by
  intro p q hpq hp
  exact OrderedSet.mem_ofList.2 (List.mem_filterMap.2 ⟨p, hp, hpq.bound⟩)

/-- A lock that is held at an access through a variable is held through the very binding that the
variable has there, unless a scope that hides the binding left the lock behind. The accesses are
matched with those of the flow in which the bindings are told apart; each of these says which
bindings are visible, and what is held at it is held through these bindings. -/
theorem held_through_binding (t : TypeTable) (owner : String) (m : MethodDecl) (body : List Stmt)
    (entry : HeldSet) (hloops : Stmt.allLoopsClosed body = true)
    (hbranches : Stmt.allBranchesClosed body = true) :
    List.Forall₂ (fun v v' => ∃ β : Bindings, v'.1 = v.1.seenBy β ∧
        ∀ p ∈ v.2, ∀ q, p.boundBy β = some q → q ∈ v'.2 ∨ p ∈ w.leaksBody t owner m body)
      (w.walk (.ofMethod t owner m) body entry).trace.accesses
      ((w.boundBody t owner m body).walk (entry.boundBy m.bindings)).trace.accesses := by
  have hσ := BodyScope.shows_ofMethod t owner m
  have hflow := w.trackedBy_boundStmts body ⟨t, owner, [], []⟩ (BodyScope.ofMethod t owner m).push
    m.bindings m.parameters.length .nothing (fun _ _ => .nothing) hσ.push hloops hbranches
    (fun _ hp => hp) fun _ _ _ => trackedBy_nothing
  have hbody := hflow.congr walk_seq_nothing.symm rfl
  have haccesses := (hbody _ _ (trackedBy_entry entry m.bindings _)).accesses
  rw [← bodyFlow, ← w.walk_bodyFlow entry hloops] at haccesses
  exact haccesses

end WalkContext

namespace Sample

/-- `void m(Test a) { body }` -/
def takesTest (body : List Stmt) : MethodDecl :=
  { name := "m", isConstructor := false, parameters := [⟨"a", "Test"⟩], returnType := none
    isStatic := false, attributes := [], body := some body, span := none }

/-- `class Test { Lock lock; @GuardedBy("lock") int x; void m(Test a) { body } }` -/
def testTable (body : List Stmt) : TypeTable := .ofUnit
  { path := ""
    types :=
      [{ name := "Test", base := none
         fields :=
          [⟨"lock", "Lock", false, [], none⟩,
           ⟨"x", "int", false, [⟨"GuardedBy", ["lock"], none⟩], none⟩]
         methods := [takesTest body], nested := [], attributes := [] }] }

/-- `Test a;` -/
def declareA : Stmt := .declare "a" (some "Test") none

/-- A call on `a.lock`. -/
def callLock (method : String) : Stmt :=
  .expr (.call (.member (.member (.name "a" none) "lock" none) method none) [] none)

/-- `a.x;` -/
def readAX : Stmt := .expr (.member (.name "a" none) "x" none)

/-- The read of `a.x`. -/
def accessAX : Access := ⟨.field "Test" "x", some (.var "a"), [], false, none⟩

/-- `a.lock`, as a walk knows it. -/
def lockOfA : LockPath := ⟨.var "a", [.field "lock"]⟩

/-- `a.lock`, where `a` is the binding number `k`. -/
def lockOfBinding (k : Nat) : LockPath := ⟨.parameter k "a", [.field "lock"]⟩

/-- The accesses in the method. -/
def accessesOf (body : List Stmt) : List (Access × HeldSet) :=
  (((testTable body).walkContext {}).walk (.ofMethod (testTable body) "Test" (takesTest body)) body
    ∅).trace.accesses

/-- The accesses in the method, with the bindings told apart. -/
def boundAccessesOf (body : List Stmt) : List (Access × HeldSet) :=
  ((((testTable body).walkContext {}).boundBody (testTable body) "Test" (takesTest body) body).walk
    ∅).trace.accesses

/-- `{ Test a; a.lock.lock(); a.x; a.lock.unlock(); } a.lock.lock(); a.x;` -/
def lockedTwice : List Stmt :=
  [.block [declareA, callLock "lock", readAX, callLock "unlock"], callLock "lock", readAX]

/-- `{ Test a; a.lock.lock(); } a.x;` -/
def lockedInside : List Stmt := [.block [declareA, callLock "lock"], readAX]

end Sample

open Sample in
theorem WalkContext.held_through_binding_lockedTwice :
    (accessAX, .insert ∅ lockOfA) ∈ accessesOf lockedTwice ∧
      List.Forall₂ (fun v v' => ∃ β : Bindings, v'.1 = v.1.seenBy β ∧
          ∀ p ∈ v.2, ∀ q, p.boundBy β = some q → q ∈ v'.2)
        (accessesOf lockedTwice) (boundAccessesOf lockedTwice) := by
  refine ⟨by decide +kernel, ?_⟩
  have hleaks : ((testTable lockedTwice).walkContext {}).leaksBody (testTable lockedTwice) "Test"
      (takesTest lockedTwice) lockedTwice = [] := by decide +kernel
  have h := ((testTable lockedTwice).walkContext {}).held_through_binding (testTable lockedTwice)
    "Test" (takesTest lockedTwice) lockedTwice ∅ (by decide) (by decide)
  refine h.imp fun v v' ⟨β, hseen, hheld⟩ => ⟨β, hseen, fun p hp q hq => ?_⟩
  rcases hheld p hp q hq with hq | hleft
  · exact hq
  · rw [hleaks] at hleft
    cases hleft

open Sample in
/-- After the block the parameter inherits the lock that was taken through the local: nothing is
reported, though at the read the lock of binding 1 is held where `a` is binding 0. -/
theorem Counter.inherited_from_block :
    (testTable lockedInside).check {} = [] ∧
      (accessAX, .insert ∅ lockOfA) ∈ accessesOf lockedInside ∧
      lockOfA.boundBy [("a", 0)] = some (lockOfBinding 0) ∧
      (accessAX.seenBy [("a", 0)], .insert ∅ (lockOfBinding 1)) ∈ boundAccessesOf lockedInside := by
  refine ⟨by decide +kernel, by decide +kernel, rfl, by decide +kernel⟩

end LockDiscipline
