/-!
Places in a source text.
-/

namespace LockDiscipline

/-- The bytes from `start` up to, not including, `stop`. -/
structure Span where
  start : UInt64
  stop : UInt64
  deriving DecidableEq, Repr

namespace Span

/-- The two offsets with two dots between them. -/
def render (s : Span) : String :=
  s!"{s.start}..{s.stop}"

end Span

end LockDiscipline
