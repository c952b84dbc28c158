import LockDiscipline.Guard.Annotation

/-!
The lock methods that the analysis knows without annotations: which types are locks, and which of
their methods take or free them.
-/

namespace LockDiscipline

/-- The types that are locks, and the names of their methods that take and free them. -/
structure LockApi where
  lockTypes : List String := ["Lock", "ReentrantLock"]
  acquireMethods : List String := ["lock", "lockInterruptibly"]
  releaseMethods : List String := ["unlock"]
  deriving DecidableEq, Repr

instance : Inhabited LockApi := ⟨{}⟩

namespace LockApi

/-- Whether `type` is listed, in full or by the last part of its dotted name. -/
def isLockType (api : LockApi) (type : String) : Bool :=
  api.lockTypes.any fun t => t = type || t = Text.lastPiece '.' type

/-- What a method does to the lock it is called on; a name in both lists acquires. -/
def effect? (api : LockApi) (method : String) : Option LockEffect :=
  if api.acquireMethods.contains method then some .acquire
  else if api.releaseMethods.contains method then some .release
  else none

end LockApi

end LockDiscipline
