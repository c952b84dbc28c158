/-!
Lock expressions: the chains of members by which an annotation names a lock, such as `this`,
`lock`, `foo.lock`, `getLock()` and `foo.getLock()`.
-/

namespace LockDiscipline

/-- A lock expression. A call never has arguments. -/
inductive LockExpr where
  | this
  | name (id : String)
  | call (method : String)
  | select (base : LockExpr) (member : String)
  | invoke (base : LockExpr) (method : String)
  deriving DecidableEq, Repr, Inhabited

namespace LockExpr

/-- The first element of the chain. -/
def root : LockExpr → LockExpr
  | .select base _ => base.root
  | .invoke base _ => base.root
  | e => e

/-- The expression as written without spaces. -/
def render : LockExpr → String
  | .this => "this"
  | .name id => id
  | .call method => method ++ "()"
  | .select base member => base.render ++ "." ++ member
  | .invoke base method => base.render ++ "." ++ method ++ "()"

end LockExpr

end LockDiscipline
