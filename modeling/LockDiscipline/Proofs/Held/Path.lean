import LockDiscipline.Proofs.Held.BodyFlow
import Mathlib.Logic.Relation

/-! Executions of a body. One execution carries one set of locks; where a walk joins, it makes a
choice. It is long enough to end, but an exception may end it anywhere, so that each beginning of an
execution is one. -/

namespace LockDiscipline

/-- `Path J f c t e d`: with the locks `c` at its start, the flow `f` can make the accesses `t`, each
with the locks held at it, and end in the way `e` with the locks `d`. A jump out of a `finally`
block is taken if `J` allows it. -/
inductive Flow.Path (finallyJumps : Bool) :
    Flow → HeldSet → List (Access × HeldSet) → Ending → HeldSet → Prop
  | raiseFirst {f c} : Path finallyJumps f c [] .raised c
  | raiseLast {f c t d} : Path finallyJumps f c t .done d → Path finallyJumps f c t .raised d
  | access {a c} : Path finallyJumps (.access a) c [(a, c)] .done c
  | change {effect path c} :
      Path finallyJumps (.change effect path) c [] .done (effect.apply path c)
  | rebind {place c} : Path finallyJumps (.rebind place) c [] .done (c.invalidate place)
  | leave {e c} : Path finallyJumps (.leave e) c [] e c
  | seq {f g c t b u e d} :
      Path finallyJumps f c t .done b → Path finallyJumps g b u e d →
        Path finallyJumps (.seq f g) c (t ++ u) e d
  | seqLeft {f g c t e d} :
      Path finallyJumps f c t e d → e ≠ .done → Path finallyJumps (.seq f g) c t e d
  | left {f g c t e d} : Path finallyJumps f c t e d → Path finallyJumps (.either f g) c t e d
  | right {f g c t e d} : Path finallyJumps g c t e d → Path finallyJumps (.either f g) c t e d
  | again {f c t b u e d} :
      Path finallyJumps f c t .done b → Path finallyJumps (.forever f) b u e d →
        Path finallyJumps (.forever f) c (t ++ u) e d
  | foreverLeft {f c t e d} :
      Path finallyJumps f c t e d → e ≠ .done → Path finallyJumps (.forever f) c t e d
  | lands {f j c t d} :
      Path finallyJumps f c t (.jump j) d → Path finallyJumps (.landing j f) c t .done d
  | passesBy {f j c t e d} :
      Path finallyJumps f c t e d → e ≠ .jump j → Path finallyJumps (.landing j f) c t e d
  | uncaught {f g c t e d} :
      Path finallyJumps f c t e d → Path finallyJumps (.catching f g) c t e d
  | caught {f g c t b u e d} :
      Path finallyJumps f c t .raised b → Path finallyJumps g b u e d →
        Path finallyJumps (.catching f g) c (t ++ u) e d
  | finalized {f g c t e b u d} :
      Path finallyJumps f c t e b → Path finallyJumps g b u .done d →
        Path finallyJumps (.finalized f g) c (t ++ u) e d
  | overridden {f g c t e b u e' d} :
      Path finallyJumps f c t e b → Path finallyJumps g b u e' d → e' ≠ .done →
        (∀ j, e' = .jump j → finallyJumps = true) →
        Path finallyJumps (.finalized f g) c (t ++ u) e' d
  | lockedHeld {path f c t e d} :
      path ∈ c → Path finallyJumps f c t e d → Path finallyJumps (.locked path f) c t e d
  | lockedFree {path f c t e d} :
      path ∉ c → Path finallyJumps f (c.insert path) t e d →
        Path finallyJumps (.locked path f) c t e (d.erase path)

namespace Flow

open Relation

variable {finallyJumps : Bool} {f : Flow} {c b d : HeldSet} {t u : List (Access × HeldSet)}
  {e : Ending}

/-- An execution that jumps out of no `finally` block is one whether or not it may. -/
theorem Path.allow (h : Path false f c t e d) : Path finallyJumps f c t e d := by
  induction h with
  | raiseFirst => exact .raiseFirst
  | raiseLast _ ih => exact .raiseLast ih
  | access => exact .access
  | change => exact .change
  | rebind => exact .rebind
  | leave => exact .leave
  | seq _ _ ihf ihg => exact .seq ihf ihg
  | seqLeft _ hne ih => exact .seqLeft ih hne
  | left _ ih => exact .left ih
  | right _ ih => exact .right ih
  | again _ _ ihf ihr => exact .again ihf ihr
  | foreverLeft _ hne ih => exact .foreverLeft ih hne
  | lands _ ih => exact .lands ih
  | passesBy _ hne ih => exact .passesBy ih hne
  | uncaught _ ih => exact .uncaught ih
  | caught _ _ ihf ihg => exact .caught ihf ihg
  | finalized _ _ ihf ihg => exact .finalized ihf ihg
  | overridden _ _ hne hjump ihf ihg => exact .overridden ihf ihg hne fun j hj => nomatch hjump j hj
  | lockedHeld hin _ ih => exact .lockedHeld hin ih
  | lockedFree hout _ ih => exact .lockedFree hout ih

/-- One round of a loop with the body `f`, from head to head. -/
def Round (finallyJumps : Bool) (f : Flow) (c b : HeldSet) : Prop :=
  ∃ t, Path finallyJumps f c t .done b

theorem allow_rounds (h : ReflTransGen (Round false f) c b) :
    ReflTransGen (Round finallyJumps f) c b := by
  refine ReflTransGen.mono (fun c b hround => ?_) c b h
  obtain ⟨t, ht⟩ := hround
  exact ⟨t, ht.allow⟩

/-- A loop goes on from a head that it comes to. -/
theorem Path.after_rounds (hr : ReflTransGen (Round finallyJumps f) c b)
    (h : Path finallyJumps (forever f) b u e d) :
    ∃ t, Path finallyJumps (forever f) c (t ++ u) e d := by
  induction hr using ReflTransGen.head_induction_on with
  | refl => exact ⟨[], h⟩
  | head hround _ ih =>
    obtain ⟨t, ht⟩ := hround
    obtain ⟨t', ht'⟩ := ih
    exact ⟨t ++ t', by rw [List.append_assoc]; exact .again ht ht'⟩

end Flow

end LockDiscipline
