import LockDiscipline.Proofs.Held.BodyFlow
import LockDiscipline.Proofs.Held.Simulation

/-! Variables told apart. A walk names a variable by its name, though inner blocks may bind the name
again. Here the bindings of a body are numbered in the order of its text, the parameters first, and a
lock is named by the number of the binding that it is reached through. What a binding's flow holds is
held through that very binding. -/

namespace LockDiscipline

/-- The variables visible at a point of a body, each with the number of its binding, the latest one
first. -/
abbrev Bindings := List (String × Nat)

/-- The variables at the start of a method's body. -/
def MethodDecl.bindings (m : MethodDecl) : Bindings :=
  (m.parameters.zipIdx.map fun q => (q.1.name, q.2)).reverse

mutual

/-- How many variables a statement binds. -/
def Stmt.bindingCount : Stmt → Nat
  | .block body => Stmt.bindingCounts body
  | .declare .. => 1
  | .ite _ thenArm elseArm => thenArm.bindingCount + elseArm.bindingCount
  | .whileLoop _ body | .doLoop body _ | .lock _ body => body.bindingCount
  | .forLoop init _ _ body => Stmt.bindingCounts init + body.bindingCount
  | .foreachLoop _ _ _ body => 1 + body.bindingCount
  | .switch _ sections => Section.bindingCounts sections
  | .tryCatch body catches finalizer =>
    Stmt.bindingCounts body + Catch.bindingCounts catches + Stmt.bindingCounts finalizer
  | _ => 0

def Stmt.bindingCounts : List Stmt → Nat
  | [] => 0
  | s :: rest => s.bindingCount + Stmt.bindingCounts rest

def Section.bindingCounts : List Section → Nat
  | [] => 0
  | .mk _ body :: rest => Stmt.bindingCounts body + Section.bindingCounts rest

def Catch.bindingCounts : List Catch → Nat
  | [] => 0
  | .mk _ name body :: rest =>
    name.toList.length + Stmt.bindingCounts body + Catch.bindingCounts rest

end

namespace Bindings

/-- What is visible after a statement in its block, whose bindings are numbered from `next`. -/
def after (β : Bindings) (next : Nat) : Stmt → Bindings
  | .declare name _ _ => (name, next) :: β
  | _ => β

end Bindings

namespace LockPath

/-- The variable of binding number `k`, which is called `name`. -/
def binding (k : Nat) (name : String) : LockPath := .ofRoot (.parameter k name)

/-- The lock at `p`, reached through the binding that the variable in front denotes. A lock that is
not reached through a variable has no such name. -/
def boundBy (p : LockPath) (β : Bindings) : Option LockPath :=
  match p.root with
  | .var name => (β.lookup name).map fun k => ⟨.parameter k name, p.steps⟩
  | _ => none

variable {p q r place : LockPath} {β : Bindings} {name : String}

theorem boundBy_eq_some_iff :
    p.boundBy β = some q ↔
      ∃ name k, p.root = .var name ∧ β.lookup name = some k ∧ q = ⟨.parameter k name, p.steps⟩ := by
  obtain ⟨root, steps⟩ := p
  cases root with
  | var name =>
    simp only [boundBy, Option.map_eq_some_iff]
    constructor
    · rintro ⟨k, hk, rfl⟩
      exact ⟨name, k, rfl, hk, rfl⟩
    · rintro ⟨_, k, hname, hk, rfl⟩
      cases hname
      exact ⟨k, hk, rfl⟩
  | _ => simp [boundBy]

theorem boundBy_inj (hp : p.boundBy β = some r) (hq : q.boundBy β = some r) : p = q := by
  obtain ⟨name, k, hroot, -, rfl⟩ := boundBy_eq_some_iff.1 hp
  obtain ⟨name', k', hroot', -, hr⟩ := boundBy_eq_some_iff.1 hq
  obtain ⟨pr, ps⟩ := p
  obtain ⟨qr, qs⟩ := q
  cases hr
  cases hroot
  cases hroot'
  rfl

theorem boundBy_cons (k : Nat) (hname : p.root ≠ .var name) :
    p.boundBy ((name, k) :: β) = p.boundBy β := by
  obtain ⟨root, steps⟩ := p
  cases root with
  | var name' =>
    have hne : (name' == name) = false := beq_false_of_ne fun h => hname (h ▸ rfl)
    simp only [boundBy, List.lookup_cons, hne]
  | _ => rfl

theorem not_reachedThrough_var : p.reachedThrough (.var name) = false ↔ p.root ≠ .var name := by
  simp only [reachedThrough, LockPath.var, ofRoot, List.isPrefixOf, Bool.and_true]
  exact decide_eq_false_iff_not

theorem reachedThrough_boundBy (hp : p.boundBy β = some q) (hplace : place.boundBy β = some r) :
    q.reachedThrough r = p.reachedThrough place := by
  obtain ⟨name, k, hroot, hk, rfl⟩ := boundBy_eq_some_iff.1 hp
  obtain ⟨name', k', hroot', hk', rfl⟩ := boundBy_eq_some_iff.1 hplace
  by_cases hname : name = name'
  · subst hname
    obtain rfl := Option.some.inj (hk.symm.trans hk')
    simp [reachedThrough, hroot, hroot']
  · simp [reachedThrough, hroot, hroot', hname]

/-- A lock reached through one variable is not reached through the bindings of another. -/
theorem not_reachedThrough_binding (k : Nat) (hp : p.boundBy β = some q)
    (hname : p.root ≠ .var name) : q.reachedThrough (.binding k name) = false := by
  obtain ⟨name', k', hroot, -, rfl⟩ := boundBy_eq_some_iff.1 hp
  have hne : name' ≠ name := fun h => hname (h ▸ hroot)
  simp [reachedThrough, binding, ofRoot, hne]

end LockPath

/-- The locks that are reached through variables, by their bindings. -/
def HeldSet.boundBy (held : HeldSet) (β : Bindings) : HeldSet :=
  .ofList (held.toList.filterMap (·.boundBy β))

/-- The access together with the bindings that are visible where it is made: each is one more
argument. -/
def Access.seenBy (a : Access) (β : Bindings) : Access :=
  { a with args := a.args ++ β.map fun b => some (.binding b.2 b.1) }

namespace Flow

def changeAt (effect : LockEffect) : Option LockPath → Flow
  | some path => .change effect path
  | none => .nothing

def rebindAt : Option LockPath → Flow
  | some place => .rebind place
  | none => .nothing

def lockedAt (body : Flow) : Option LockPath → Flow
  | some path => .locked path body
  | none => body

/-- What the flow does to locks that are reached through variables, where `β` is visible throughout.
Each access tells what is visible. -/
def boundBy (β : Bindings) : Flow → Flow
  | .access a => .access (a.seenBy β)
  | .change effect path => changeAt effect (path.boundBy β)
  | .rebind place => rebindAt (place.boundBy β)
  | .leave e => .leave e
  | .never => .never
  | .seq first second => .seq (first.boundBy β) (second.boundBy β)
  | .either first second => .either (first.boundBy β) (second.boundBy β)
  | .forever body => .forever (body.boundBy β)
  | .landing j body => .landing j (body.boundBy β)
  | .catching body handler => .catching (body.boundBy β) (handler.boundBy β)
  | .finalized body finalizer => .finalized (body.boundBy β) (finalizer.boundBy β)
  | .locked path body => lockedAt (body.boundBy β) (path.boundBy β)

end Flow

namespace WalkContext

mutual

/-- The flow of a statement with the variables told apart. `β` is visible before it, and its own
bindings are numbered from `next`. -/
def boundStmt (w : WalkContext) (σ : BodyScope) (β : Bindings) (next : Nat) : Stmt → Flow
  | .block body => w.boundStmts σ.push β next (fun _ _ => .nothing) body
  | .empty => .nothing
  | .declare name _ init =>
    .seq ((w.optExprFlow σ init).boundBy β) (.rebind (.binding next name))
  | .expr e => (w.exprFlow σ e).boundBy β
  | .ret value => .seq ((w.optExprFlow σ value).boundBy β) (.leave .returned)
  | .raise value => .seq ((w.optExprFlow σ value).boundBy β) (.leave .raised)
  | .breakOut => .leave (.jump .breakOut)
  | .continueLoop => .leave (.jump .continueLoop)
  | .ite condition thenArm elseArm =>
    .seq ((w.exprFlow σ condition).boundBy β)
      (.either (w.boundStmt σ β next thenArm)
        (w.boundStmt (σ.after thenArm) β (next + thenArm.bindingCount) elseArm))
  | .whileLoop condition body =>
    .landing .breakOut <| .forever <|
      .seq ((w.exprFlow σ condition).boundBy β) <|
      .seq (loopExit condition.isTrue) (.landing .continueLoop (w.boundStmt σ β next body))
  | .doLoop body condition =>
    .landing .breakOut <| .forever <|
      .seq (.landing .continueLoop (w.boundStmt σ β next body)) <|
      .seq ((w.exprFlow σ condition).boundBy β) (loopExit condition.isTrue)
  | .forLoop init condition step body =>
    let inner := σ.push.afterAll init
    w.boundStmts σ.push β next (fun β next =>
      .landing .breakOut <| .forever <|
        .seq ((w.optExprFlow inner condition).boundBy β) <|
        .seq (loopExit (condition.all Expr.isTrue)) <|
        .seq (.landing .continueLoop (w.boundStmt inner β next body))
          ((w.exprsFlow inner step).boundBy β)) init
  | .foreachLoop name type iterable body =>
    .seq ((w.exprFlow σ iterable).boundBy β) <|
    .landing .breakOut <| .forever <|
      .seq (.rebind (.binding next name)) <|
      .seq (loopExit false)
        (.landing .continueLoop
          (w.boundStmt (σ.push.declare name type none) ((name, next) :: β) (next + 1) body))
  | .switch scrutinee sections =>
    .seq ((w.exprFlow σ scrutinee).boundBy β) <|
    .landing .breakOut <|
      if sections.any Section.isDefault then w.boundSections σ β next sections
      else .either (w.boundSections σ β next sections) .nothing
  | .tryCatch body catches finalizer =>
    let caught := next + Stmt.bindingCounts body
    .finalized
      (.catching (w.boundStmts σ.push β next (fun _ _ => .nothing) body)
        (w.boundCatches σ β caught catches))
      (w.boundStmts σ.push β (caught + Catch.bindingCounts catches) (fun _ _ => .nothing) finalizer)
  | .lock target body =>
    .seq ((w.exprFlow σ target).boundBy β)
      (.lockedAt (w.boundStmt σ β next body) ((σ.place target).path.bind (·.boundBy β)))

/-- The flow of statements one after another, with `last` at their end. -/
def boundStmts (w : WalkContext) (σ : BodyScope) (β : Bindings) (next : Nat)
    (last : Bindings → Nat → Flow) : List Stmt → Flow
  | [] => last β next
  | s :: rest =>
    .seq (w.boundStmt σ β next s)
      (w.boundStmts (σ.after s) (β.after next s) (next + s.bindingCount) last rest)

def boundSections (w : WalkContext) (σ : BodyScope) (β : Bindings) (next : Nat) :
    List Section → Flow
  | [] => .never
  | .mk _ body :: rest =>
    .either (w.boundStmts σ.push β next (fun _ _ => .nothing) body)
      (w.boundSections σ β (next + Stmt.bindingCounts body) rest)

def boundCatches (w : WalkContext) (σ : BodyScope) (β : Bindings) (next : Nat) :
    List Catch → Flow
  | [] => .never
  | .mk type (some name) body :: rest =>
    .either
      (.seq (.rebind (.binding next name))
        (w.boundStmts (σ.push.declare name type none).push ((name, next) :: β) (next + 1)
          (fun _ _ => .nothing) body))
      (w.boundCatches σ β (next + 1 + Stmt.bindingCounts body) rest)
  | .mk _ none body :: rest =>
    .either (w.boundStmts σ.push.push β next (fun _ _ => .nothing) body)
      (w.boundCatches σ β (next + Stmt.bindingCounts body) rest)

end

/-- The flow of the body of a method, with the variables told apart. -/
def boundBody (w : WalkContext) (t : TypeTable) (owner : String) (m : MethodDecl)
    (body : List Stmt) : Flow :=
  w.boundStmts (BodyScope.ofMethod t owner m).push m.bindings m.parameters.length
    (fun _ _ => .nothing) body

end WalkContext

mutual

/-- Whether no branch of an `if` and no body of a `lock` is a bare declaration: the name would belong
to the block around it, and the other branch would see it without having bound it. -/
def Stmt.branchesClosed : Stmt → Bool
  | .block body => Stmt.allBranchesClosed body
  | .ite _ thenArm elseArm =>
    !thenArm.declaresBare && !elseArm.declaresBare &&
      (thenArm.branchesClosed && elseArm.branchesClosed)
  | .whileLoop _ body | .doLoop body _ | .foreachLoop _ _ _ body => body.branchesClosed
  | .forLoop init _ _ body => Stmt.allBranchesClosed init && body.branchesClosed
  | .switch _ sections => Section.allBranchesClosed sections
  | .tryCatch body catches finalizer =>
    Stmt.allBranchesClosed body && Catch.allBranchesClosed catches &&
      Stmt.allBranchesClosed finalizer
  | .lock _ body => !body.declaresBare && body.branchesClosed
  | _ => true

def Stmt.allBranchesClosed : List Stmt → Bool
  | [] => true
  | s :: rest => s.branchesClosed && Stmt.allBranchesClosed rest

def Section.allBranchesClosed : List Section → Bool
  | [] => true
  | .mk _ body :: rest => Stmt.allBranchesClosed body && Section.allBranchesClosed rest

def Catch.allBranchesClosed : List Catch → Bool
  | [] => true
  | .mk _ _ body :: rest => Stmt.allBranchesClosed body && Catch.allBranchesClosed rest

end

/-- The locks reached through the variable `name` with which the flow is left, by its end or by a
jump, if it is entered without locks. -/
def Flow.leftAt (f : Flow) (name : String) : List LockPath :=
  (f.walk ∅).waysOut.flatMap fun s => s.toList.filter fun p => p.root = .var name

namespace WalkContext

/-- The rounds of a `for` loop, in the scope that its initializers leave. -/
def roundsFlow (w : WalkContext) (σ : BodyScope) (condition : Option Expr) (step : List Expr)
    (body : Stmt) : Flow :=
  .landing .breakOut <| .forever <|
    .seq (w.optExprFlow σ condition) <|
    .seq (loopExit (condition.all Expr.isTrue)) <|
    .seq (.landing .continueLoop (w.stmtFlow σ body)) (w.exprsFlow σ step)

/-- The locks with which what follows a declaration is left, if the declaration hides a variable
visible in `outer`. -/
def leftByHiding (outer : BodyScope) (rest : Flow) : Stmt → List LockPath
  | .declare name _ _ => if outer.isLocal name then rest.leftAt name else []
  | _ => []

mutual

/-- The locks that are left behind by a scope of the statement: they are reached through a variable
of the scope, which hides another one. -/
def leaks (w : WalkContext) (σ : BodyScope) : Stmt → List LockPath
  | .block body => w.leaksAll σ σ.push .nothing body
  | .ite _ thenArm elseArm => w.leaks σ thenArm ++ w.leaks (σ.after thenArm) elseArm
  | .whileLoop _ body | .doLoop body _ | .lock _ body => w.leaks σ body
  | .forLoop init condition step body =>
    let inner := σ.push.afterAll init
    w.leaksAll σ σ.push (w.roundsFlow inner condition step body) init ++ w.leaks inner body
  | .foreachLoop name type _ body => w.leaks (σ.push.declare name type none) body
  | .switch _ sections => w.leaksSections σ sections
  | .tryCatch body catches finalizer =>
    w.leaksAll σ σ.push .nothing body ++
      (w.leaksCatches σ catches ++ w.leaksAll σ σ.push .nothing finalizer)
  | _ => []

/-- The same for statements one after another, in a block of `outer` that goes on with `last`. -/
def leaksAll (w : WalkContext) (outer σ : BodyScope) (last : Flow) : List Stmt → List LockPath
  | [] => []
  | s :: rest =>
    leftByHiding outer (.seq (w.stmtsFlow (σ.after s) rest) last) s ++
      (w.leaks σ s ++ w.leaksAll outer (σ.after s) last rest)

def leaksSections (w : WalkContext) (σ : BodyScope) : List Section → List LockPath
  | [] => []
  | .mk _ body :: rest => w.leaksAll σ σ.push .nothing body ++ w.leaksSections σ rest

def leaksCatches (w : WalkContext) (σ : BodyScope) : List Catch → List LockPath
  | [] => []
  | .mk type (some name) body :: rest =>
    let inner := σ.push.declare name type none
    (if σ.isLocal name then (w.stmtsFlow inner.push body).leftAt name else []) ++
      (w.leaksAll inner inner.push .nothing body ++ w.leaksCatches σ rest)
  | .mk _ none body :: rest => w.leaksAll σ.push σ.push.push .nothing body ++ w.leaksCatches σ rest

end

/-- The locks that are left behind in the body of a method. No scope is around the body itself. -/
def leaksBody (w : WalkContext) (t : TypeTable) (owner : String) (m : MethodDecl)
    (body : List Stmt) : List LockPath :=
  w.leaksAll ⟨t, owner, [], []⟩ (BodyScope.ofMethod t owner m).push .nothing body

end WalkContext

end LockDiscipline
