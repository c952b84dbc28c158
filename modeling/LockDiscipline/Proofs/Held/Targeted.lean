import LockDiscipline.Proofs.Held.Leaving

/-! Bodies in which each jump has a loop or a `switch` to go to. A jump that is meant for none goes
nowhere, and could as well be a `return`. -/

namespace LockDiscipline

/-- Which jumps are taken inside a `switch`. -/
def Jump.takenInSwitch (takes : Jump → Bool) (j : Jump) : Bool := j = .breakOut || takes j

mutual

/-- The statement with a `return` for each jump that nothing takes. A loop takes all in its body. -/
def Stmt.targeted (takes : Jump → Bool) : Stmt → Stmt
  | .block body => .block (Stmt.targetedAll takes body)
  | .empty => .empty
  | .declare name type init => .declare name type init
  | .expr e => .expr e
  | .ret value => .ret value
  | .raise value => .raise value
  | .breakOut => if takes .breakOut then .breakOut else .ret none
  | .continueLoop => if takes .continueLoop then .continueLoop else .ret none
  | .ite condition thenArm elseArm =>
    .ite condition (thenArm.targeted takes) (elseArm.targeted takes)
  | .whileLoop condition body => .whileLoop condition body
  | .doLoop body condition => .doLoop body condition
  | .forLoop init condition step body => .forLoop (Stmt.targetedAll takes init) condition step body
  | .foreachLoop name type iterable body => .foreachLoop name type iterable body
  | .switch scrutinee sections =>
    .switch scrutinee (Section.targetedAll (Jump.takenInSwitch takes) sections)
  | .tryCatch body catches finalizer =>
    .tryCatch (Stmt.targetedAll takes body) (Catch.targetedAll takes catches)
      (Stmt.targetedAll takes finalizer)
  | .lock target body => .lock target (body.targeted takes)

def Stmt.targetedAll (takes : Jump → Bool) : List Stmt → List Stmt
  | [] => []
  | s :: rest => s.targeted takes :: Stmt.targetedAll takes rest

def Section.targetedAll (takes : Jump → Bool) : List Section → List Section
  | [] => []
  | .mk isDefault body :: rest =>
    .mk isDefault (Stmt.targetedAll takes body) :: Section.targetedAll takes rest

def Catch.targetedAll (takes : Jump → Bool) : List Catch → List Catch
  | [] => []
  | .mk type name body :: rest =>
    .mk type name (Stmt.targetedAll takes body) :: Catch.targetedAll takes rest

end

theorem Jump.takenInSwitch_true : takenInSwitch (fun _ => true) = fun _ => true :=
  funext fun _ => Bool.or_true _

mutual

/-- Where all jumps are taken, nothing is replaced. -/
theorem Stmt.targeted_true : ∀ s : Stmt, s.targeted (fun _ => true) = s
  | .block body => by rw [Stmt.targeted, Stmt.targetedAll_true body]
  | .empty | .declare .. | .expr _ | .ret _ | .raise _ | .breakOut | .continueLoop
  | .whileLoop .. | .doLoop .. | .foreachLoop .. => rfl
  | .ite condition thenArm elseArm => by
    rw [Stmt.targeted, Stmt.targeted_true thenArm, Stmt.targeted_true elseArm]
  | .forLoop init condition step body => by rw [Stmt.targeted, Stmt.targetedAll_true init]
  | .switch scrutinee sections => by
    rw [Stmt.targeted, Jump.takenInSwitch_true, Section.targetedAll_true sections]
  | .tryCatch body catches finalizer => by
    rw [Stmt.targeted, Stmt.targetedAll_true body, Catch.targetedAll_true catches,
      Stmt.targetedAll_true finalizer]
  | .lock target body => by rw [Stmt.targeted, Stmt.targeted_true body]

theorem Stmt.targetedAll_true : ∀ body : List Stmt, Stmt.targetedAll (fun _ => true) body = body
  | [] => rfl
  | s :: rest => by
    rw [Stmt.targetedAll, Stmt.targeted_true s, Stmt.targetedAll_true rest]

theorem Section.targetedAll_true : ∀ l : List Section, Section.targetedAll (fun _ => true) l = l
  | [] => rfl
  | .mk _ body :: rest => by
    rw [Section.targetedAll, Stmt.targetedAll_true body, Section.targetedAll_true rest]

theorem Catch.targetedAll_true : ∀ l : List Catch, Catch.targetedAll (fun _ => true) l = l
  | [] => rfl
  | .mk _ _ body :: rest => by
    rw [Catch.targetedAll, Stmt.targetedAll_true body, Catch.targetedAll_true rest]

end

/-- A `break` is replaced behind a loop, not in it. -/
example (condition : Expr) :
    Stmt.targetedAll (fun _ => false) [.whileLoop condition .breakOut, .breakOut] =
      [.whileLoop condition .breakOut, .ret none] := rfl

theorem Section.any_isDefault_targetedAll {takes : Jump → Bool} (l : List Section) :
    (targetedAll takes l).any isDefault = l.any isDefault := by
  induction l with
  | nil => rfl
  | cons s rest ih =>
    obtain ⟨isDefault, body⟩ := s
    rw [targetedAll, List.any_cons, List.any_cons, ih]
    rfl

namespace WalkContext

variable (w : WalkContext)

theorem jumps_handled {σ : BodyScope} {body : List Stmt} {catches : List Catch} {held : HeldSet}
    {j : Jump} (hbody : (w.stmts σ.push body held).exits.jumps j = [])
    (hcatches : ∀ (σ : BodyScope) (entry : HeldSet),
      (w.catches σ (.unreached σ.locals) catches entry).exits.jumps j = []) :
    (w.handled σ body catches held).exits.jumps j = [] := by
  rw [handled_eq_orElse]
  exact Outcome.jumps_orElse.trans (List.append_eq_nil_iff.2 ⟨hbody, hcatches _ _⟩)

mutual

/-- A jump leaves a statement only for something that takes it. -/
theorem jumps_targeted : ∀ (s : Stmt) (j : Jump) {takes : Jump → Bool} (σ : BodyScope)
    (held : HeldSet), takes j = false → (w.stmt σ (s.targeted takes) held).exits.jumps j = []
  | .block body, j, takes, σ, held, hj => by
    rw [Stmt.targeted, stmt]
    exact jumps_targetedAll body j σ.push held hj
  | .empty, j, takes, σ, held, _ | .expr _, j, takes, σ, held, _ | .declare .., j, takes, σ, held, _
  | .ret _, j, takes, σ, held, _ | .raise _, j, takes, σ, held, _ => by
    rw [Stmt.targeted, stmt]
    cases j <;> rfl
  | .breakOut, j, takes, σ, held, hj | .continueLoop, j, takes, σ, held, hj => by
    rw [Stmt.targeted]
    split
    · next htaken =>
      cases j with
      | breakOut | continueLoop => first | rfl | exact absurd htaken (ne_true_of_eq_false hj)
    · cases j <;> rfl
  | .ite condition thenArm elseArm, j, takes, σ, held, hj => by
    have hthen (held : HeldSet) := jumps_targeted thenArm j σ held hj
    have helse (σ : BodyScope) (held : HeldSet) := jumps_targeted elseArm j σ held hj
    rw [Stmt.targeted, stmt]
    exact Outcome.jumps_orElse.trans (List.append_eq_nil_iff.2 ⟨hthen _, helse _ _⟩)
  | .whileLoop .., j, takes, σ, held, _ | .doLoop .., j, takes, σ, held, _
  | .foreachLoop .., j, takes, σ, held, _ => by
    rw [Stmt.targeted, stmt]
    exact LoopPass.jumps_run
  | .forLoop init condition step body, j, takes, σ, held, hj => by
    have hinit := jumps_targetedAll init j σ.push held hj
    rw [Stmt.targeted, stmt_forLoop]
    dsimp only
    cases (w.stmts σ.push (Stmt.targetedAll takes init) held).exit with
    | none => exact hinit
    | some entry =>
      exact Outcome.jumps_andThen.trans (List.append_eq_nil_iff.2 ⟨hinit, LoopPass.jumps_run⟩)
  | .switch scrutinee sections, j, takes, σ, held, hj => by
    rw [Stmt.targeted, stmt]
    cases j with
    | breakOut => rfl
    | continueLoop => exact jumps_sections_targetedAll sections .continueLoop σ _ hj
  | .tryCatch body catches finalizer, j, takes, σ, held, hj => by
    have hbody := jumps_targetedAll body j σ.push held hj
    have hcatches (σ : BodyScope) (entry : HeldSet) :=
      jumps_catches_targetedAll catches j σ entry hj
    rw [Stmt.targeted, stmt_tryCatch, Outcome.jumps_finalizing, w.jumps_handled hbody hcatches,
      List.filterMap_nil]
  | .lock target body, j, takes, σ, held, hj => by
    have hbody (held : HeldSet) := jumps_targeted body j σ held hj
    rw [Stmt.targeted, stmt]
    cases (σ.place target).path with
    | none => exact hbody _
    | some path =>
      dsimp only
      split
      · exact hbody _
      · exact Outcome.jumps_releasing.trans (congrArg (List.map _) (hbody _))

theorem jumps_targetedAll : ∀ (body : List Stmt) (j : Jump) {takes : Jump → Bool} (σ : BodyScope)
    (held : HeldSet), takes j = false →
      (w.stmts σ (Stmt.targetedAll takes body) held).exits.jumps j = []
  | [], j, takes, σ, held, _ => by cases j <;> rfl
  | s :: rest, j, takes, σ, held, hj => by
    have hs := jumps_targeted s j σ held hj
    have hrest (σ : BodyScope) (held : HeldSet) := jumps_targetedAll rest j σ held hj
    rw [Stmt.targetedAll, stmts]
    cases (w.stmt σ (s.targeted takes) held).exit with
    | none => exact hs
    | some held' =>
      exact Outcome.jumps_andThen.trans (List.append_eq_nil_iff.2 ⟨hs, hrest _ _⟩)

theorem jumps_sections_targetedAll : ∀ (l : List Section) (j : Jump) {takes : Jump → Bool}
    (σ : BodyScope) (held : HeldSet), takes j = false →
      (w.sections σ (Section.targetedAll takes l) held).exits.jumps j = []
  | [], j, takes, σ, held, _ => by cases j <;> rfl
  | .mk _ body :: rest, j, takes, σ, held, hj => by
    have hbody := jumps_targetedAll body j σ.push held hj
    have hrest (σ : BodyScope) := jumps_sections_targetedAll rest j σ held hj
    rw [Section.targetedAll, sections]
    exact Outcome.jumps_orElse.trans (List.append_eq_nil_iff.2 ⟨hbody, hrest _⟩)

theorem jumps_catches_targetedAll : ∀ (l : List Catch) (j : Jump) {takes : Jump → Bool}
    (σ : BodyScope) (entry : HeldSet), takes j = false →
      (w.catches σ (.unreached σ.locals) (Catch.targetedAll takes l) entry).exits.jumps j = []
  | [], j, takes, σ, entry, _ => by cases j <;> rfl
  | .mk type name body :: rest, j, takes, σ, entry, hj => by
    have hbody (σ : BodyScope) (held : HeldSet) := jumps_targetedAll body j σ held hj
    have hrest (σ : BodyScope) := jumps_catches_targetedAll rest j σ entry hj
    rw [Catch.targetedAll]
    cases name with
    | none =>
      rw [catches_cons_none]
      exact Outcome.jumps_orElse.trans (List.append_eq_nil_iff.2 ⟨hbody _ _, hrest _⟩)
    | some name =>
      rw [catches_cons_some]
      exact Outcome.jumps_orElse.trans (List.append_eq_nil_iff.2 ⟨hbody _ _, hrest _⟩)

end

end WalkContext

end LockDiscipline
