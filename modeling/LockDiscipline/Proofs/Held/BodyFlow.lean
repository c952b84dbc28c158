import LockDiscipline.Guard.UnitCheck
import LockDiscipline.Proofs.Held.Flow

/-! The flow of a body. Names are resolved once, in the scope in which they stand: a declaration is
seen by what follows it up to the end of its block. -/

namespace LockDiscipline

namespace BodyScope

/-- The scope of what follows a statement in its block. A branch of an `if` and the body of a `lock`
are no blocks of their own. -/
def after (σ : BodyScope) : Stmt → BodyScope
  | .declare name type init => σ.declare name type init
  | .ite _ thenArm elseArm => (σ.after thenArm).after elseArm
  | .lock _ body => σ.after body
  | _ => σ

/-- The scope at the end of a block. -/
def afterAll (σ : BodyScope) (body : List Stmt) : BodyScope := body.foldl after σ

end BodyScope

/-- Whether the statement is a bare declaration, or has one as a branch or as a body. -/
def Stmt.declaresBare : Stmt → Bool
  | .declare .. => true
  | .ite _ thenArm elseArm => thenArm.declaresBare || elseArm.declaresBare
  | .lock _ body => body.declaresBare
  | _ => false

mutual

/-- Whether no loop has a bare declaration for its body: the name would belong to the block around
the loop, and each round would see it already. -/
def Stmt.loopsClosed : Stmt → Bool
  | .block body => Stmt.allLoopsClosed body
  | .ite _ thenArm elseArm => thenArm.loopsClosed && elseArm.loopsClosed
  | .whileLoop _ body | .doLoop body _ | .foreachLoop _ _ _ body =>
    !body.declaresBare && body.loopsClosed
  | .forLoop init _ _ body =>
    Stmt.allLoopsClosed init && (!body.declaresBare && body.loopsClosed)
  | .switch _ sections => Section.allLoopsClosed sections
  | .tryCatch body catches finalizer =>
    Stmt.allLoopsClosed body && Catch.allLoopsClosed catches && Stmt.allLoopsClosed finalizer
  | .lock _ body => body.loopsClosed
  | _ => true

def Stmt.allLoopsClosed : List Stmt → Bool
  | [] => true
  | s :: rest => s.loopsClosed && Stmt.allLoopsClosed rest

def Section.allLoopsClosed : List Section → Bool
  | [] => true
  | .mk _ body :: rest => Stmt.allLoopsClosed body && Section.allLoopsClosed rest

def Catch.allLoopsClosed : List Catch → Bool
  | [] => true
  | .mk _ _ body :: rest => Stmt.allLoopsClosed body && Catch.allLoopsClosed rest

end

namespace WalkContext

/-- The access of a field at a site, if there is one. -/
def fieldFlow (id : String) (span : Option Span) : Option (MemberSite FieldDecl) → Flow
  | some site => .access ⟨.field site.owner id, site.receiver, [], site.decl.isStatic, span⟩
  | none => .nothing

/-- The effects of an annotated method, in order. -/
def bindingsFlow (receiver : Option LockPath) (args : List (Option LockPath)) :
    List LockBinding → Flow
  | [] => .nothing
  | b :: rest =>
    match b.lock.path.instantiate receiver args with
    | some path => .seq (.change b.effect path) (bindingsFlow receiver args rest)
    | none => bindingsFlow receiver args rest

/-- The call of a method at a site: its access, then the effects of its annotations. -/
def callFlow (w : WalkContext) (args : List (Option LockPath)) (span : Option Span) :
    Option (MemberSite MethodDecl) → Flow
  | some site =>
    let member := MemberRef.method site.owner site.decl
    .seq (.access ⟨member, site.receiver, args, site.decl.isStatic, span⟩)
      (bindingsFlow site.receiver args (w.bindings member))
  | none => .nothing

/-- The call of a known lock method without arguments on what lies at `base`. -/
def lockCallFlow (w : WalkContext) (base : Place) (method : String) : Flow :=
  match w.api.effect? method, base.type, base.path with
  | some effect, some type, some path =>
    if w.api.isLockType type then .change effect path else .nothing
  | _, _, _ => .nothing

mutual

def exprFlow (w : WalkContext) (σ : BodyScope) : Expr → Flow
  | .literal _ => .nothing
  | .this => .nothing
  | .name id span => fieldFlow id span (σ.bareField id)
  | .member base id span =>
    .seq (w.exprFlow σ base) (fieldFlow id span (σ.fieldOf (σ.place base) id))
  | .call (.name id _) args span =>
    .seq (w.exprsFlow σ args)
      (w.callFlow (args.map fun e => (σ.place e).path) span (σ.bareMethod id args.length))
  | .call (.member base id _) args span =>
    let called := .seq (.seq (w.exprFlow σ base) (w.exprsFlow σ args))
      (w.callFlow (args.map fun e => (σ.place e).path) span
        (σ.methodOf (σ.place base) id args.length))
    if args.isEmpty then .seq called (w.lockCallFlow (σ.place base) id) else called
  | .call callee args _ => .seq (w.exprFlow σ callee) (w.exprsFlow σ args)
  | .assign target value =>
    let assigned := .seq (w.exprFlow σ target) (w.exprFlow σ value)
    match (σ.place target).path with
    | some place => .seq assigned (.rebind place)
    | none => assigned
  | .unary _ operand => w.exprFlow σ operand
  | .binary op left right =>
    if op.shortCircuits then .seq (w.exprFlow σ left) (.either .nothing (w.exprFlow σ right))
    else .seq (w.exprFlow σ left) (w.exprFlow σ right)
  | .conditional condition thenArm elseArm =>
    .seq (w.exprFlow σ condition) (.either (w.exprFlow σ thenArm) (w.exprFlow σ elseArm))
  | .new _ args => w.exprsFlow σ args

def exprsFlow (w : WalkContext) (σ : BodyScope) : List Expr → Flow
  | [] => .nothing
  | e :: rest => .seq (w.exprFlow σ e) (w.exprsFlow σ rest)

end

def optExprFlow (w : WalkContext) (σ : BodyScope) : Option Expr → Flow
  | some e => w.exprFlow σ e
  | none => .nothing

/-- Where a loop may end by itself: nowhere, if it is endless. -/
def loopExit (endless : Bool) : Flow := if endless then .nothing else .mayBreak

mutual

def stmtFlow (w : WalkContext) (σ : BodyScope) : Stmt → Flow
  | .block body => w.stmtsFlow σ.push body
  | .empty => .nothing
  | .declare name _ init => .seq (w.optExprFlow σ init) (.rebind (.var name))
  | .expr e => w.exprFlow σ e
  | .ret value => .seq (w.optExprFlow σ value) (.leave .returned)
  | .raise value => .seq (w.optExprFlow σ value) (.leave .raised)
  | .breakOut => .leave (.jump .breakOut)
  | .continueLoop => .leave (.jump .continueLoop)
  | .ite condition thenArm elseArm =>
    .seq (w.exprFlow σ condition)
      (.either (w.stmtFlow σ thenArm) (w.stmtFlow (σ.after thenArm) elseArm))
  | .whileLoop condition body =>
    .landing .breakOut <| .forever <|
      .seq (w.exprFlow σ condition) <|
      .seq (loopExit condition.isTrue) (.landing .continueLoop (w.stmtFlow σ body))
  | .doLoop body condition =>
    .landing .breakOut <| .forever <|
      .seq (.landing .continueLoop (w.stmtFlow σ body)) <|
      .seq (w.exprFlow σ condition) (loopExit condition.isTrue)
  | .forLoop init condition step body =>
    let inner := σ.push.afterAll init
    .seq (w.stmtsFlow σ.push init) <|
    .landing .breakOut <| .forever <|
      .seq (w.optExprFlow inner condition) <|
      .seq (loopExit (condition.all Expr.isTrue)) <|
      .seq (.landing .continueLoop (w.stmtFlow inner body)) (w.exprsFlow inner step)
  | .foreachLoop name type iterable body =>
    .seq (w.exprFlow σ iterable) <|
    .landing .breakOut <| .forever <|
      .seq (.rebind (.var name)) <|
      .seq (loopExit false)
        (.landing .continueLoop (w.stmtFlow (σ.push.declare name type none) body))
  | .switch scrutinee sections =>
    .seq (w.exprFlow σ scrutinee) <|
    .landing .breakOut <|
      if sections.any Section.isDefault then w.sectionsFlow σ sections
      else .either (w.sectionsFlow σ sections) .nothing
  | .tryCatch body catches finalizer =>
    .finalized (.catching (w.stmtsFlow σ.push body) (w.catchesFlow σ catches))
      (w.stmtsFlow σ.push finalizer)
  | .lock target body =>
    .seq (w.exprFlow σ target) <|
      match (σ.place target).path with
      | none => w.stmtFlow σ body
      | some path => .locked path (w.stmtFlow σ body)

def stmtsFlow (w : WalkContext) (σ : BodyScope) : List Stmt → Flow
  | [] => .nothing
  | s :: rest => .seq (w.stmtFlow σ s) (w.stmtsFlow (σ.after s) rest)

/-- The flow through one of the sections of a `switch`. -/
def sectionsFlow (w : WalkContext) (σ : BodyScope) : List Section → Flow
  | [] => .never
  | .mk _ body :: rest => .either (w.stmtsFlow σ.push body) (w.sectionsFlow σ rest)

/-- The flow through one of the clauses of a `try`, with its variable bound. -/
def catchesFlow (w : WalkContext) (σ : BodyScope) : List Catch → Flow
  | [] => .never
  | .mk type (some name) body :: rest =>
    .either
      (.seq (.rebind (.var name)) (w.stmtsFlow (σ.push.declare name type none).push body))
      (w.catchesFlow σ rest)
  | .mk _ none body :: rest => .either (w.stmtsFlow σ.push.push body) (w.catchesFlow σ rest)

end

def bodyFlow (w : WalkContext) (σ : BodyScope) (body : List Stmt) : Flow := w.stmtsFlow σ.push body

end WalkContext

/-! A type with a lock and a counter, for the bodies of examples. -/

namespace Counter

def table : TypeTable := .ofUnit
  ⟨"Counter.cs", [⟨"Counter", none,
    [⟨"lock", "Lock", false, [], none⟩, ⟨"x", "int", false, [], none⟩], [], [], []⟩]⟩

def scope : BodyScope := ⟨table, "Counter", [], []⟩

def context : WalkContext := table.walkContext {}

def readX : Expr := .name "x" none

def accessX : Access := ⟨.field "Counter" "x", some .this, [], false, none⟩

def accessLock : Access := ⟨.field "Counter" "lock", some .this, [], false, none⟩

def lock : LockPath := ⟨.this, [.field "lock"]⟩

/-- Takes the lock if the counter says so, then reads the counter again. -/
def lockIf : List Stmt :=
  [.ite readX (.expr (.call (.member (.name "lock" none) "lock" none) [] none)) .empty, .expr readX]

/-- `lock (lock) x; x;` -/
def lockBlock : List Stmt := [.lock (.name "lock" none) (.expr readX), .expr readX]

end Counter

end LockDiscipline
