import LockDiscipline.Span

/-!
Expressions of a method body, as the host compiler hands them over. A name, a member selection and
a call may access a member, so these three carry the span under which the access is reported.
-/

namespace LockDiscipline

/-- Operators with one operand. -/
inductive UnaryOp where
  | negate
  | complement
  | preIncrement
  | preDecrement
  | postIncrement
  | postDecrement
  deriving DecidableEq, Repr

/-- Operators with two operands. -/
inductive BinaryOp where
  | add
  | sub
  | mul
  | div
  | equal
  | notEqual
  | less
  | greater
  | and
  | or
  deriving DecidableEq, Repr

/-- Whether the right operand is evaluated only for one value of the left one. -/
def BinaryOp.shortCircuits : BinaryOp → Bool
  | .and | .or => true
  | _ => false

/-- An expression. The callee of a call is a name for a bare call, a member selection for a call on
a receiver, and any other expression for a call of a computed function. -/
inductive Expr where
  | literal (text : String)
  | this
  | name (id : String) (span : Option Span)
  | member (base : Expr) (id : String) (span : Option Span)
  | call (callee : Expr) (args : List Expr) (span : Option Span)
  | assign (target value : Expr)
  | unary (op : UnaryOp) (operand : Expr)
  | binary (op : BinaryOp) (left right : Expr)
  | conditional (condition thenArm elseArm : Expr)
  | new (type : String) (args : List Expr)
  deriving Repr, Inhabited

namespace Expr

/-- The expression with its own span replaced; its parts keep theirs. -/
def located (s : Span) : Expr → Expr
  | .name id _ => .name id (some s)
  | .member base id _ => .member base id (some s)
  | .call callee args _ => .call callee args (some s)
  | e => e

/-- The literal `true`, as the condition of a loop that only a jump leaves. -/
def isTrue : Expr → Bool
  | .literal text => text = "true"
  | _ => false

end Expr

end LockDiscipline
