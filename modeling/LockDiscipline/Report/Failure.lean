/-!
Why a request to the library fails as a whole. Findings are never failures.
-/

namespace LockDiscipline

/-- A failure, by the part that failed, with its message. -/
inductive Failure where
  | io (message : String)
  | config (message : String)
  | registry (message : String)
  | internal (message : String)
  deriving DecidableEq, Repr

namespace Failure

/-- The failure in words. -/
def render : Failure → String
  | .io message => "I/O error: " ++ message
  | .config message => "configuration error: " ++ message
  | .registry message => "check registry error: " ++ message
  | .internal message => "internal error: " ++ message

/-- The message of the failure underneath; only input and output failures have one. -/
def source : Failure → Option String
  | .io message => some message
  | _ => none

end Failure

end LockDiscipline
