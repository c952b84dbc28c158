import LockDiscipline.Syntax.Expr

/-!
Statements of a method body. A missing `else` arm is the empty statement, and a missing `finally`
clause is the empty block: neither does anything.
-/

namespace LockDiscipline

mutual

/-- A statement. -/
inductive Stmt where
  | block (body : List Stmt)
  | empty
  | declare (name : String) (type : Option String) (init : Option Expr)
  | expr (e : Expr)
  | ret (value : Option Expr)
  | raise (value : Option Expr)
  | breakOut
  | continueLoop
  | ite (condition : Expr) (thenArm elseArm : Stmt)
  | whileLoop (condition : Expr) (body : Stmt)
  | doLoop (body : Stmt) (condition : Expr)
  | forLoop (init : List Stmt) (condition : Option Expr) (step : List Expr) (body : Stmt)
  | foreachLoop (name : String) (type : Option String) (iterable : Expr) (body : Stmt)
  | switch (scrutinee : Expr) (sections : List Section)
  | tryCatch (body : List Stmt) (catches : List Catch) (finalizer : List Stmt)
  | lock (target : Expr) (body : Stmt)

/-- One section of a `switch`; sections do not fall through. -/
inductive Section where
  | mk (isDefault : Bool) (body : List Stmt)

/-- One clause of a `try`, with the type it catches and the name it binds. -/
inductive Catch where
  | mk (type name : Option String) (body : List Stmt)

end

instance : Inhabited Stmt := ⟨.empty⟩

/-- Whether the section is taken when no other one is. -/
def Section.isDefault : Section → Bool
  | .mk d _ => d

end LockDiscipline
