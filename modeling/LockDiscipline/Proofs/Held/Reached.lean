import LockDiscipline.Proofs.Held.BodyFlow

/-! What of a body is reached, and how it can be left, by its structure alone: neither locks nor what
a condition says are looked at, except that a loop on the literal `true` does not end by itself. -/

namespace LockDiscipline

mutual

/-- The names, selections and calls of an expression, in the order in which they are evaluated. The
callee's own name is a part of the call. -/
def Expr.nodes : Expr → List Expr
  | .literal _ | .this => []
  | .name id span => [.name id span]
  | .member base id span => base.nodes ++ [.member base id span]
  | .call (.name id s) args span => Expr.allNodes args ++ [.call (.name id s) args span]
  | .call (.member base id s) args span =>
    base.nodes ++ (Expr.allNodes args ++ [.call (.member base id s) args span])
  | .call callee args span => callee.nodes ++ (Expr.allNodes args ++ [.call callee args span])
  | .assign target value => target.nodes ++ value.nodes
  | .unary _ operand => operand.nodes
  | .binary _ left right => left.nodes ++ right.nodes
  | .conditional condition thenArm elseArm =>
    condition.nodes ++ (thenArm.nodes ++ elseArm.nodes)
  | .new _ args => Expr.allNodes args

def Expr.allNodes : List Expr → List Expr
  | [] => []
  | e :: rest => e.nodes ++ Expr.allNodes rest

end

/-- The access that an expression makes itself, if it resolves to a member. -/
def BodyScope.access? (σ : BodyScope) : Expr → Option Access
  | .name id span => (σ.fieldSite none id).map fun site =>
    ⟨.field site.owner id, site.receiver, [], site.decl.isStatic, span⟩
  | .member base id span => (σ.fieldSite (some base) id).map fun site =>
    ⟨.field site.owner id, site.receiver, [], site.decl.isStatic, span⟩
  | .call (.name id _) args span => (σ.methodSite none id args.length).map fun site =>
    ⟨.method site.owner site.decl, site.receiver, args.map fun e => (σ.place e).path,
      site.decl.isStatic, span⟩
  | .call (.member base id _) args span => (σ.methodSite (some base) id args.length).map fun site =>
    ⟨.method site.owner site.decl, site.receiver, args.map fun e => (σ.place e).path,
      site.decl.isStatic, span⟩
  | _ => none

/-- The accesses of expressions that stand in one scope. -/
def BodyScope.accesses (σ : BodyScope) (nodes : List Expr) : List Access :=
  nodes.filterMap σ.access?

/-- How a part of a body can be left: by its end, and by which jumps. -/
@[ext]
structure Ways where
  done : Bool
  jumps : Jump → Bool

namespace Ways

def byEnd : Ways := ⟨true, fun _ => false⟩

/-- Not at all, or by a `return` or an exception. -/
def closed : Ways := ⟨false, fun _ => false⟩

def byJump (j : Jump) : Ways := ⟨false, fun k => k = j⟩

/-- One part after the other, which is reached from the end of the first only. -/
def andThen (first second : Ways) : Ways :=
  ⟨first.done && second.done, fun j => first.jumps j || (first.done && second.jumps j)⟩

def orElse (first second : Ways) : Ways :=
  ⟨first.done || second.done, fun j => first.jumps j || second.jumps j⟩

/-- A loop with this body ends by a `break`, or by itself if `ends`. -/
def loop (ends : Bool) (body : Ways) : Ways :=
  ⟨ends || body.jumps .breakOut, fun _ => false⟩

/-- Whether the end of a loop's body is reached, by itself or by a `continue`. -/
def comesBack (body : Ways) : Bool := body.done || body.jumps .continueLoop

/-- A `try` goes on after its `finally` block only if that has an end. -/
def finalized (body finalizer : Ways) : Ways :=
  ⟨body.done && finalizer.done,
    fun j => (body.jumps j && finalizer.done) || finalizer.jumps j⟩

end Ways

mutual

/-- How a statement can be left. -/
def Stmt.ways : Stmt → Ways
  | .block body => Stmt.allWays body
  | .empty | .declare .. | .expr _ => .byEnd
  | .ret _ | .raise _ => .closed
  | .breakOut => .byJump .breakOut
  | .continueLoop => .byJump .continueLoop
  | .ite _ thenArm elseArm => thenArm.ways.orElse elseArm.ways
  | .whileLoop condition body => .loop (!condition.isTrue) body.ways
  | .doLoop body condition => .loop (body.ways.comesBack && !condition.isTrue) body.ways
  | .forLoop init condition _ body =>
    (Stmt.allWays init).andThen (.loop (!condition.all Expr.isTrue) body.ways)
  | .foreachLoop _ _ _ body => .loop true body.ways
  | .switch _ sections =>
    let s := Section.allWays sections
    ⟨s.done || s.jumps .breakOut || !sections.any Section.isDefault,
      fun j => j = .continueLoop && s.jumps j⟩
  | .tryCatch body catches finalizer =>
    ((Stmt.allWays body).orElse (Catch.allWays catches)).finalized (Stmt.allWays finalizer)
  | .lock _ body => body.ways

def Stmt.allWays : List Stmt → Ways
  | [] => .byEnd
  | s :: rest => s.ways.andThen (Stmt.allWays rest)

def Section.allWays : List Section → Ways
  | [] => .closed
  | .mk _ body :: rest => (Stmt.allWays body).orElse (Section.allWays rest)

def Catch.allWays : List Catch → Ways
  | [] => .closed
  | .mk _ _ body :: rest => (Stmt.allWays body).orElse (Catch.allWays rest)

end

mutual

/-- The accesses that are reached in a statement, in the order of evaluation. What stands after a
statement without an end is not reached; the clauses of a `try` and its `finally` block are. -/
def Stmt.reached (σ : BodyScope) : Stmt → List Access
  | .block body => Stmt.allReached σ.push body
  | .empty | .breakOut | .continueLoop => []
  | .declare _ _ value | .ret value | .raise value => σ.accesses (value.elim [] Expr.nodes)
  | .expr e => σ.accesses e.nodes
  | .ite condition thenArm elseArm =>
    σ.accesses condition.nodes ++ (thenArm.reached σ ++ elseArm.reached (σ.after thenArm))
  | .whileLoop condition body => σ.accesses condition.nodes ++ body.reached σ
  | .doLoop body condition =>
    body.reached σ ++ if body.ways.comesBack then σ.accesses condition.nodes else []
  | .forLoop init condition step body =>
    let inner := σ.push.afterAll init
    Stmt.allReached σ.push init ++
      if (Stmt.allWays init).done then
        inner.accesses (condition.elim [] Expr.nodes) ++ (body.reached inner ++
          if body.ways.comesBack then inner.accesses (Expr.allNodes step) else [])
      else []
  | .foreachLoop name type iterable body =>
    σ.accesses iterable.nodes ++ body.reached (σ.push.declare name type none)
  | .switch scrutinee sections =>
    σ.accesses scrutinee.nodes ++ Section.allReached σ sections
  | .tryCatch body catches finalizer =>
    Stmt.allReached σ.push body ++ Catch.allReached σ catches ++ Stmt.allReached σ.push finalizer
  | .lock target body => σ.accesses target.nodes ++ body.reached σ

def Stmt.allReached (σ : BodyScope) : List Stmt → List Access
  | [] => []
  | s :: rest => s.reached σ ++ if s.ways.done then Stmt.allReached (σ.after s) rest else []

def Section.allReached (σ : BodyScope) : List Section → List Access
  | [] => []
  | .mk _ body :: rest => Stmt.allReached σ.push body ++ Section.allReached σ rest

def Catch.allReached (σ : BodyScope) : List Catch → List Access
  | [] => []
  | .mk type name body :: rest =>
    let inner := name.elim σ.push fun name => σ.push.declare name type none
    Stmt.allReached inner.push body ++ Catch.allReached σ rest

end

mutual

/-- Whether no `break` or `continue` that is reached in a `finally` block leaves it. -/
def Stmt.finallyClosed : Stmt → Bool
  | .block body => Stmt.allFinallyClosed body
  | .ite _ thenArm elseArm => thenArm.finallyClosed && elseArm.finallyClosed
  | .whileLoop _ body | .doLoop body _ | .foreachLoop _ _ _ body | .lock _ body =>
    body.finallyClosed
  | .forLoop init _ _ body => Stmt.allFinallyClosed init && body.finallyClosed
  | .switch _ sections => Section.allFinallyClosed sections
  | .tryCatch body catches finalizer =>
    Stmt.allFinallyClosed body && (Catch.allFinallyClosed catches &&
      (Stmt.allFinallyClosed finalizer &&
        (!(Stmt.allWays finalizer).jumps .breakOut &&
          !(Stmt.allWays finalizer).jumps .continueLoop)))
  | _ => true

def Stmt.allFinallyClosed : List Stmt → Bool
  | [] => true
  | s :: rest => s.finallyClosed && Stmt.allFinallyClosed rest

def Section.allFinallyClosed : List Section → Bool
  | [] => true
  | .mk _ body :: rest => Stmt.allFinallyClosed body && Section.allFinallyClosed rest

def Catch.allFinallyClosed : List Catch → Bool
  | [] => true
  | .mk _ _ body :: rest => Stmt.allFinallyClosed body && Catch.allFinallyClosed rest

end

end LockDiscipline
