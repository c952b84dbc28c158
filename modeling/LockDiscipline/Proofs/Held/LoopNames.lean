import LockDiscipline.Proofs.Held.BareNames

/-! Names in the passes of a loop. A pass starts in the locals that the passes before it left, so the
reporting pass resolves names as the first pass does exactly if the body of the loop declares none
bare. Then the two differ only in the locks that are held; they come by the same expressions in the
same scopes and make the same accesses. -/

namespace LockDiscipline

/-- Whether two walks come to their end alike and make the same accesses, whatever is held. -/
structure Exits.Alike (o o' : Exits) : Prop where
  exit : o'.exit.isSome = o.exit.isSome
  accesses : o'.trace.accesses.map Prod.fst = o.trace.accesses.map Prod.fst

/-- Neither the end of a flow nor its accesses depend on what is held at the start. -/
theorem Flow.walk_alike (f : Flow) (a b : HeldSet) : (f.walk a).Alike (f.walk b) := by
  -- Tracked by no path at all, the locks do not count.
  have htracked := trackedBy_self (T := fun _ _ => False) (A := fun v v' => v.1 = v'.1)
    (fun _ _ => False.elim) (fun _ _ _ _ => rfl) f a b (fun _ _ => False.elim)
  constructor
  · have hexit := htracked.exit
    revert hexit
    cases (f.walk a).exit <;> cases (f.walk b).exit
    · exact fun _ => rfl
    · exact fun h => nomatch h
    · exact fun h => nomatch h
    · exact fun _ => rfl
  · exact map_eq_of_forall₂ htracked.accesses fun v v' h => h.symm

/-- Whether no loop in the task lets a declaration out into the next round. -/
def Task.closed : Task → Bool
  | .stmt s => s.loopsClosed
  | .stmts body => Stmt.allLoopsClosed body
  | .sections l => Section.allLoopsClosed l
  | .catches l => Catch.allLoopsClosed l
  | .pass loop | .rounds loop => loop.closed
  | _ => true

/-- Each point of the first list stands for a closed task, which is in the second list in the same
scope. -/
def Matched (l l' : List Point) : Prop :=
  ∀ b ∈ l, b.task.closed = true ∧ ∃ k, ⟨b.scope, b.task, k⟩ ∈ l'

namespace Matched

variable {l l' m m' : List Point} {σ σ' : BodyScope} {t : Task} {held held' : HeldSet}

theorem nil : Matched [] l := List.forall_mem_nil _

theorem cons (ht : t.closed = true) (h : Matched l l') :
    Matched (⟨σ, t, held⟩ :: l) (⟨σ, t, held'⟩ :: l') := by
  refine List.forall_mem_cons.2 ⟨⟨ht, held', List.mem_cons_self⟩, fun b hb => ?_⟩
  obtain ⟨hclosed, k, hk⟩ := h b hb
  exact ⟨hclosed, k, List.mem_cons_of_mem _ hk⟩

theorem append (h : Matched l l') (h' : Matched m m') : Matched (l ++ m) (l' ++ m') := by
  refine List.forall_mem_append.2 ⟨fun b hb => ?_, fun b hb => ?_⟩
  · obtain ⟨hclosed, k, hk⟩ := h b hb
    exact ⟨hclosed, k, List.mem_append_left _ hk⟩
  · obtain ⟨hclosed, k, hk⟩ := h' b hb
    exact ⟨hclosed, k, List.mem_append_right _ hk⟩

/-- A part that is reached in both walks or in none. -/
theorem optional {o o' : FlowState} (ho : o'.isSome = o.isSome) (ht : t.closed = true)
    (hσ : o.isSome = true → σ' = σ) :
    Matched (o.map fun k => ⟨σ, t, k⟩).toList (o'.map fun k => ⟨σ', t, k⟩).toList := by
  cases o with
  | none => exact nil
  | some k =>
    obtain ⟨k', rfl⟩ := Option.isSome_iff_exists.1 ho
    rw [hσ rfl]
    exact cons ht nil

end Matched

/-- A statement without bare declarations, in which no loop has one for its body, adds no name. -/
theorem Stmt.bareNames_of_closed : ∀ s : Stmt, s.declaresBare = false → s.loopsClosed = true →
    s.bareNames = []
  | .declare .., h, _ => nomatch h
  | .ite _ thenArm elseArm, h, h' => by
    simp only [declaresBare, Bool.or_eq_false_iff] at h
    simp only [loopsClosed, Bool.and_eq_true] at h'
    rw [bareNames, bareNames_of_closed thenArm h.1 h'.1, bareNames_of_closed elseArm h.2 h'.2,
      List.nil_append]
  | .whileLoop _ body, _, h | .doLoop body _, _, h => by
    simp only [loopsClosed, Bool.and_eq_true, Bool.not_eq_true'] at h
    exact bareNames_of_closed body h.1 h.2
  | .lock _ body, h, h' => bareNames_of_closed body h h'
  | .block _, _, _ | .empty, _, _ | .expr _, _, _ | .ret _, _, _ | .raise _, _, _ | .breakOut, _, _
  | .continueLoop, _, _ | .forLoop .., _, _ | .foreachLoop .., _, _ | .switch .., _, _
  | .tryCatch .., _, _ => rfl

theorem Loop.bareNames_of_closed {loop : Loop} (h : loop.closed = true) :
    loop.body.bareNames = [] := by
  simp only [closed, Bool.and_eq_true, Bool.not_eq_true'] at h
  exact loop.body.bareNames_of_closed h.1 h.2

namespace WalkContext

variable (w : WalkContext) {σ : BodyScope} {held held' : HeldSet} {loop : Loop}

theorem isSome_exit_stmts {body : List Stmt} (h : Stmt.allLoopsClosed body = true)
    (held held' : HeldSet) :
    (w.stmts σ body held').exit.isSome = (w.stmts σ body held).exit.isSome := by
  have hexits (held : HeldSet) := congrArg Exits.exit (w.walk_stmtsFlow body σ held h)
  have halike := ((w.stmtsFlow σ body).walk_alike held held').exit
  rwa [← hexits, ← hexits] at halike

theorem isSome_exit_stmt {s : Stmt} (h : s.loopsClosed = true) (held held' : HeldSet) :
    (w.stmt σ s held').exit.isSome = (w.stmt σ s held).exit.isSome := by
  have hexits (held : HeldSet) := congrArg Exits.exit (w.walk_stmtFlow s σ held h)
  have halike := ((w.stmtFlow σ s).walk_alike held held').exit
  rwa [← hexits, ← hexits] at halike

/-- Passes through a closed loop come back alike and make the same accesses. -/
theorem pass_alike (h : loop.closed = true) (held held' : HeldSet) :
    (w.pass σ loop held').back.isSome = (w.pass σ loop held).back.isSome ∧
      (w.pass σ loop held').trace.accesses.map Prod.fst =
        (w.pass σ loop held).trace.accesses.map Prod.fst := by
  have halike := (w.roundFlow σ loop).walk_alike held held'
  rw [(w.pass_follows h held).back, (w.pass_follows h held').back, (w.pass_follows h held).trace,
    (w.pass_follows h held').trace]
  exact ⟨halike.exit, halike.accesses⟩

private theorem matched_callParts {args : List (Option LockPath)}
    (site : Option (MemberSite MethodDecl)) :
    Matched (w.callParts σ args held site) (w.callParts σ args held' site) := by
  cases site with
  | none => exact .nil
  | some site => exact .cons rfl .nil

private theorem matched_lockCallParts {base : Place} {method : String} :
    Matched (w.lockCallParts σ base method held) (w.lockCallParts σ base method held') := by
  unfold lockCallParts
  split
  · split
    · exact .cons rfl .nil
    · exact .nil
  · exact .nil

private theorem matched_exprParts (e : Expr) :
    Matched (w.exprParts σ e held) (w.exprParts σ e held') := by
  cases e with
  | literal | this | name => exact .nil
  | member | unary | new => exact .cons rfl .nil
  | binary => exact .cons rfl (.cons rfl .nil)
  | conditional => exact .cons rfl (.cons rfl (.cons rfl .nil))
  | call callee args span =>
    cases callee with
    | name id s => exact .cons rfl (w.matched_callParts _)
    | member base id s =>
      refine .cons rfl (.cons rfl (.append (w.matched_callParts _) ?_))
      split
      · exact w.matched_lockCallParts
      · exact .nil
    | _ => exact .cons rfl (.cons rfl .nil)
  | assign target value =>
    rw [exprParts, exprParts]
    cases (σ.place target).path with
    | none => exact .cons rfl (.cons rfl .nil)
    | some place => exact .cons rfl (.cons rfl (.cons rfl .nil))

private theorem matched_optParts (e : Option Expr) :
    Matched (optParts σ e held) (optParts σ e held') := by
  cases e with
  | none => exact .nil
  | some e => exact .cons rfl .nil

private theorem matched_passParts (h : loop.closed = true) :
    Matched (w.passParts σ loop held) (w.passParts σ loop held') := by
  have hback := (w.pass_alike (σ := σ) h held held').1
  have hlocals (held : HeldSet) : (w.stmt σ loop.body held).locals = σ.locals :=
    (w.adds_stmt loop.body σ held).eq_iff.2 (Loop.bareNames_of_closed h)
  have hsame (held held' : HeldSet) :
      (w.stmt σ loop.body held').locals = (w.stmt σ loop.body held).locals := by
    rw [hlocals, hlocals]
  have hbody : loop.body.loopsClosed = true := (Bool.and_eq_true_iff.1 h).2
  cases loop with
  | whileLoop | foreachLoop => exact .cons rfl (.cons hbody .nil)
  | doLoop body condition =>
    simp only [pass, LoopPass.evalLast, Option.isSome_map] at hback
    exact .cons hbody (.optional hback rfl fun _ => congrArg σ.withLocals (hsame _ _))
  | forLoop condition step body =>
    simp only [pass, LoopPass.evalLast, Option.isSome_map] at hback
    exact .append (matched_optParts condition)
      (.cons hbody (.optional hback rfl fun _ => congrArg σ.withLocals (hsame _ _)))

private theorem matched_stmtParts {s : Stmt} (h : s.loopsClosed = true) :
    Matched (w.stmtParts σ s held) (w.stmtParts σ s held') := by
  cases s with
  | block | expr | whileLoop | doLoop => exact .cons h .nil
  | empty | breakOut | continueLoop => exact .nil
  | declare name type init => exact .append (matched_optParts init) (.cons rfl .nil)
  | ret value | raise value => exact matched_optParts value
  | ite condition thenArm elseArm =>
    simp only [Stmt.loopsClosed, Bool.and_eq_true] at h
    have hthen (held : HeldSet) := w.locals_stmt thenArm σ held h.1
    simp only [stmtParts, hthen]
    exact .cons rfl (.cons h.1 (.cons h.2 .nil))
  | forLoop init condition step body =>
    simp only [Stmt.loopsClosed, Bool.and_eq_true] at h
    refine .cons h.1 (.optional (w.isSome_exit_stmts h.1 held held') (Bool.and_eq_true_iff.2 h.2)
      fun hexit => ?_)
    have hexit' := (w.isSome_exit_stmts (σ := σ.push) h.1 held held').trans hexit
    rw [(w.locals_stmts init σ.push held h.1).2 hexit, (w.locals_stmts init σ.push held' h.1).2 hexit']
  | foreachLoop | switch => exact .cons rfl (.cons h .nil)
  | tryCatch body catches finalizer =>
    simp only [Stmt.loopsClosed, Bool.and_eq_true] at h
    have hbody (held : HeldSet) : (w.stmts σ.push body held).leaveBlock.locals = σ.locals :=
      pop_of_enclosing (w.enclosing_stmts body σ.push held)
    have hhandled (held : HeldSet) : (w.handled σ body catches held).locals = σ.locals :=
      w.locals_catches_eq catches σ _ _ (hbody held)
    simp only [stmtParts, hbody, hhandled]
    refine .cons h.1.1 (.cons h.1.2 ?_)
    -- The finalizer is replayed on every way out, but always in the same scope.
    rintro b hb
    obtain ⟨s, -, rfl⟩ := List.mem_map.1 hb
    exact ⟨h.2, _, List.mem_cons_self⟩
  | lock target body => exact .cons rfl (.cons h .nil)

private theorem matched_catchParts {l : List Catch} (h : Catch.allLoopsClosed l = true) :
    Matched (w.catchParts σ l held) (w.catchParts σ l held') := by
  match l, h with
  | [], _ => exact .nil
  | .mk type (some name) body :: rest, h =>
    simp only [Catch.allLoopsClosed, Bool.and_eq_true] at h
    have hpop (held : HeldSet) :
        (w.stmts (σ.push.declare name type none).push body held).locals.pop.pop = σ.locals :=
      congrArg Locals.pop (pop_of_enclosing (w.enclosing_stmts body _ held))
    simp only [catchParts, hpop]
    exact .cons rfl (.cons h.1 (.cons h.2 .nil))
  | .mk type none body :: rest, h =>
    simp only [Catch.allLoopsClosed, Bool.and_eq_true] at h
    have hpop (held : HeldSet) : (w.stmts σ.push.push body held).locals.pop.pop = σ.locals :=
      congrArg Locals.pop (pop_of_enclosing (w.enclosing_stmts body _ held))
    simp only [catchParts, hpop]
    exact .cons h.1 (.cons h.2 .nil)

/-- What a closed task is made of does not depend on what is held, apart from the number of passes
through a loop. -/
theorem matched_parts {t : Task} (ht : t.closed = true) (hrounds : ∀ loop, t ≠ .rounds loop)
    (held held' : HeldSet) :
    Matched (w.parts ⟨σ, t, held⟩) (w.parts ⟨σ, t, held'⟩) := by
  cases t with
  | change | rebind => exact .nil
  | bindings receiver args bs =>
    cases bs with
    | nil => exact .nil
    | cons b rest =>
      simp only [parts]
      cases b.lock.path.instantiate receiver args with
      | some path => exact .cons rfl (.cons rfl .nil)
      | none => exact .cons rfl .nil
  | expr e => exact w.matched_exprParts e
  | exprs es =>
    cases es with
    | nil => exact .nil
    | cons e rest => exact .cons rfl (.cons rfl .nil)
  | stmt s => exact w.matched_stmtParts ht
  | stmts body =>
    cases body with
    | nil => exact .nil
    | cons s rest =>
      simp only [Task.closed, Stmt.allLoopsClosed, Bool.and_eq_true] at ht
      refine .cons ht.1 (.optional (w.isSome_exit_stmt ht.1 held held') ht.2 fun _ => ?_)
      rw [w.locals_stmt s σ held ht.1, w.locals_stmt s σ held' ht.1]
  | sections l =>
    cases l with
    | nil => exact .nil
    | cons s rest =>
      obtain ⟨d, body⟩ := s
      simp only [Task.closed, Section.allLoopsClosed, Bool.and_eq_true] at ht
      have hbody (held : HeldSet) : (w.stmts σ.push body held).leaveBlock.locals = σ.locals :=
        pop_of_enclosing (w.enclosing_stmts body σ.push held)
      simp only [parts, hbody]
      exact .cons ht.1 (.cons ht.2 .nil)
  | catches l => exact w.matched_catchParts ht
  | pass loop => exact w.matched_passParts ht
  | rounds loop => exact absurd rfl (hrounds loop)

/-- Whatever a closed task is walked through with other locks comes by the same points. -/
theorem exists_visits_of_mem_parts {t : Task} {b : Point} (ht : t.closed = true)
    (hb : b ∈ w.parts ⟨σ, t, held⟩) (held' : HeldSet) :
    b.task.closed = true ∧ ∃ k, w.Visits ⟨σ, t, held'⟩ ⟨b.scope, b.task, k⟩ := by
  by_cases hrounds : ∃ loop, t = .rounds loop
  · obtain ⟨loop, rfl⟩ := hrounds
    have hlocals (held : HeldSet) : (w.pass σ loop held).locals = σ.locals :=
      (w.pass_follows ht held).locals
    have hpass : w.Visits ⟨σ, .rounds loop, held'⟩ ⟨σ, .pass loop, held'⟩ := .single (.head _)
    simp only [parts, hlocals, BodyScope.withLocals_locals, List.mem_cons, List.not_mem_nil,
      or_false] at hb
    rcases hb with rfl | rfl
    · exact ⟨ht, held', hpass⟩
    · -- Whichever comes next, both walks have it: a last pass, or another round.
      dsimp only
      split
      · exact ⟨ht, held', hpass⟩
      · exact ⟨ht, held', .refl⟩
  · have hmatched := w.matched_parts (σ := σ) ht (fun loop hloop => hrounds ⟨loop, hloop⟩) held held'
    obtain ⟨hclosed, k, hk⟩ := hmatched b hb
    exact ⟨hclosed, k, .single hk⟩

/-- A closed task comes by the same tasks in the same scopes, whatever is held. -/
theorem exists_visits {a b : Point} (ha : a.task.closed = true) (h : w.Visits a b) (held' : HeldSet) :
    ∃ k, w.Visits ⟨a.scope, a.task, held'⟩ ⟨b.scope, b.task, k⟩ := by
  induction h using Relation.ReflTransGen.head_induction_on generalizing held' with
  | refl => exact ⟨held', .refl⟩
  | head hpart _ ih =>
    obtain ⟨hclosed, k, hk⟩ := w.exists_visits_of_mem_parts ha hpart held'
    obtain ⟨k', hk'⟩ := ih hclosed k
    exact ⟨k', hk.trans hk'⟩

/-- What a loop reports is what its last pass does. -/
theorem accesses_rounds (σ : BodyScope) (loop : Loop) (entry : HeldSet) :
    let last := LoopPass.lastStart (w.passIn σ loop) σ.locals entry
    (w.rounds σ loop entry).trace.accesses =
      (w.pass (σ.withLocals last.1) loop last.2).trace.accesses := by
  rw [rounds, LoopPass.run_eq]
  exact Trace.accesses_foldr_silent

/-- The reporting pass of a loop starts in the scope of the first pass, and any pass leaves the scope
as it finds it, exactly if the body of the loop declares no name bare. In any case the names that it
does not so declare mean the same to both passes, and those that it does are locals in the reporting
one. If neither the loop nor one in it has a bare declaration for its body, then the two passes come
by the same expressions in the same scopes, and what the loop reports is what its first pass makes of
the names. -/
theorem reportsFirstNames_iff (σ : BodyScope) (loop : Loop) (entry : HeldSet) :
    let last := LoopPass.lastStart (w.passIn σ loop) σ.locals entry
    let σ' := σ.withLocals last.1
    (w.rounds σ loop entry).trace.accesses = (w.pass σ' loop last.2).trace.accesses ∧
    (σ' = σ ↔ loop.body.bareNames = []) ∧
    (∀ head, (w.pass σ loop head).locals = σ.locals ↔ loop.body.bareNames = []) ∧
    (∀ name, name ∉ loop.body.bareNames → σ'.local? name = σ.local? name ∧
      σ'.bareField name = σ.bareField name ∧ σ'.namePlace name = σ.namePlace name) ∧
    (∀ name, name ∈ loop.body.bareNames → σ'.isLocal name = true ∧ σ'.bareField name = none) ∧
    (loop.closed = true → σ' = σ ∧
      (w.rounds σ loop entry).trace.accesses.map Prod.fst =
        (w.pass σ loop entry).trace.accesses.map Prod.fst ∧
      ∀ scope e, (∃ held, w.Visits ⟨σ', .pass loop, last.2⟩ ⟨scope, .expr e, held⟩) ↔
        ∃ held, w.Visits ⟨σ, .pass loop, entry⟩ ⟨scope, .expr e, held⟩) := by
  intro last σ'
  have hadds : σ.locals.Adds loop.body.bareNames last.1 := w.adds_lastStart loop σ.locals entry
  have hscope : σ' = σ ↔ loop.body.bareNames = [] := by
    rw [← hadds.eq_iff]
    exact ⟨fun h => congrArg BodyScope.locals h, fun h => congrArg σ.withLocals h⟩
  refine ⟨w.accesses_rounds σ loop entry, hscope, fun head => (w.adds_pass loop head).eq_iff,
    fun name hname => ?_, fun name hname => ?_, fun hclosed => ?_⟩
  · have hlocal : σ'.local? name = σ.local? name := hadds.find?_of_not_mem hname
    have hfield : σ'.bareField name = σ.bareField name := by
      rw [BodyScope.bareField, BodyScope.isLocal, hlocal]
      rfl
    refine ⟨hlocal, hfield, ?_⟩
    rw [BodyScope.namePlace, hlocal, hfield]
    rfl
  · have hlocal : σ'.isLocal name = true := hadds.isSome_find? hname
    exact ⟨hlocal, by rw [BodyScope.bareField, if_pos hlocal]⟩
  · have hsame : σ' = σ := hscope.2 (Loop.bareNames_of_closed hclosed)
    refine ⟨hsame, ?_, fun scope e => ⟨?_, ?_⟩⟩
    · rw [w.accesses_rounds σ loop entry]
      change (w.pass σ' loop last.2).trace.accesses.map Prod.fst = _
      rw [hsame]
      exact (w.pass_alike hclosed _ _).2
    · rintro ⟨held, hvisits⟩
      rw [hsame] at hvisits
      exact w.exists_visits (a := ⟨σ, .pass loop, last.2⟩) hclosed hvisits entry
    · rintro ⟨held, hvisits⟩
      rw [hsame]
      exact w.exists_visits (a := ⟨σ, .pass loop, entry⟩) hclosed hvisits last.2

end WalkContext

namespace Counter

/-- The loop that frees a lock finds its head in two passes, and reports the names of the first. -/
theorem reportsFirstNames_freedInLoop :
    freedInLoop.closed = true ∧
      (context.rounds scope freedInLoop (.insert ∅ lock)).trace.accesses.map Prod.fst =
        (context.pass scope freedInLoop (.insert ∅ lock)).trace.accesses.map Prod.fst := by
  have hclosed : freedInLoop.closed = true := by decide
  obtain ⟨-, -, -, -, -, hreports⟩ :=
    context.reportsFirstNames_iff scope freedInLoop (.insert ∅ lock)
  exact ⟨hclosed, (hreports hclosed).2.1⟩

/-- `while (c) var x = x;` -/
def bareLoop : Loop := .whileLoop (.name "c" none) (.declare "x" none (some readX))

/-- The name is the field in the first pass and the local in the reporting one, so the read of the
field is not reported. -/
theorem not_reportsFirstNames :
    let last := LoopPass.lastStart (context.passIn scope bareLoop) scope.locals ∅
    (context.pass scope bareLoop ∅).locals ≠ scope.locals ∧
      (scope.bareField "x").isSome = true ∧
      (scope.withLocals last.1).bareField "x" = none ∧
      (scope.withLocals last.1).local? "x" = some ⟨"x", some "int"⟩ ∧
      (context.pass scope bareLoop ∅).trace.accesses = [(accessX, ∅)] ∧
      (context.rounds scope bareLoop ∅).trace.accesses = [] := by
  decide +kernel

end Counter

end LockDiscipline
