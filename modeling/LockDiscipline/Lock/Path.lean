/-!
Lock paths: where a lock is found, as a root and the members followed from it. Two locks are taken
for the same lock exactly when their paths are equal.
-/

namespace LockDiscipline

open Std

/-- Where a lock path begins. -/
inductive LockRoot where
  /-- The receiver of the member at hand. -/
  | this
  /-- The instance of an enclosing type. -/
  | outer (type : String)
  /-- A parameter of the declaring method, counted from zero. -/
  | parameter (index : Nat) (name : String)
  /-- A parameter or local of the body at hand. -/
  | var (name : String)
  /-- A type, whose static members need no instance. -/
  | static (type : String)
  deriving DecidableEq, Repr, Inhabited

/-- A member followed on the way to a lock. -/
inductive LockStep where
  | field (name : String)
  | call (name : String)
  deriving DecidableEq, Repr, Inhabited

/-- A root and the members followed from it. -/
structure LockPath where
  root : LockRoot
  steps : List LockStep
  deriving DecidableEq, Repr, Inhabited

attribute [local instance] lexOrd

/-- The rank of the kind, the index and the name, by which roots are ordered in this turn. -/
def LockRoot.key : LockRoot → Nat × Nat × String
  | .this => (0, 0, "")
  | .outer type => (1, 0, type)
  | .parameter index name => (2, index, name)
  | .var name => (3, 0, name)
  | .static type => (4, 0, type)

theorem LockRoot.key_injective {a b : LockRoot} (h : a.key = b.key) : a = b := by
  cases a <;> cases b <;> simp_all [key]

instance : Ord LockRoot := ⟨compareOn LockRoot.key⟩

instance : TransOrd LockRoot := inferInstanceAs (TransCmp (compareOn LockRoot.key))

instance : LawfulEqOrd LockRoot where
  compare_self := ReflOrd.compare_self (α := Nat × Nat × String)
  eq_of_compare h := LockRoot.key_injective (LawfulEqOrd.eq_of_compare h)

/-- The rank of the kind and the name, by which steps are ordered in this turn. -/
def LockStep.key : LockStep → Nat × String
  | .field name => (0, name)
  | .call name => (1, name)

theorem LockStep.key_injective {a b : LockStep} (h : a.key = b.key) : a = b := by
  cases a <;> cases b <;> simp_all [key]

instance : Ord LockStep := ⟨compareOn LockStep.key⟩

instance : TransOrd LockStep := inferInstanceAs (TransCmp (compareOn LockStep.key))

instance : LawfulEqOrd LockStep where
  compare_self := ReflOrd.compare_self (α := Nat × String)
  eq_of_compare h := LockStep.key_injective (LawfulEqOrd.eq_of_compare h)

/-- Paths are ordered by their roots, then by their steps as words. -/
instance : Ord LockPath := ⟨compareLex (compareOn LockPath.root) (compareOn LockPath.steps)⟩

instance : TransOrd LockPath :=
  inferInstanceAs (TransCmp (compareLex (compareOn LockPath.root) (compareOn LockPath.steps)))

instance : LawfulEqOrd LockPath where
  compare_self {p} := compareLex_eq_eq.2
    ⟨ReflOrd.compare_self (α := LockRoot), ReflOrd.compare_self (α := List LockStep)⟩
  eq_of_compare {a b} h := by
    have h := compareLex_eq_eq.1 h
    cases a
    cases b
    cases LawfulEqOrd.eq_of_compare (α := LockRoot) h.1
    cases LawfulEqOrd.eq_of_compare (α := List LockStep) h.2
    rfl

namespace LockRoot

/-- The root in the words of the source language. -/
def render : LockRoot → String
  | .this => "this"
  | .outer type => type ++ ".this"
  | .parameter _ name => name
  | .var name => name
  | .static type => type

end LockRoot

/-- The step with the dot before it. -/
def LockStep.render : LockStep → String
  | .field name => "." ++ name
  | .call name => "." ++ name ++ "()"

namespace LockPath

/-- The path without steps. -/
def ofRoot (root : LockRoot) : LockPath := ⟨root, []⟩

/-- The receiver itself. -/
def this : LockPath := ofRoot .this

/-- The variable itself. -/
def var (name : String) : LockPath := ofRoot (.var name)

/-- The type itself, which is not a lock. -/
def static (type : String) : LockPath := ofRoot (.static type)

/-- The path followed by one more step. -/
def step (p : LockPath) (s : LockStep) : LockPath := ⟨p.root, p.steps ++ [s]⟩

/-- The field `name` of the object at the path. -/
def field (p : LockPath) (name : String) : LockPath := p.step (.field name)

/-- What the call of `name` on the object at the path returns. -/
def call (p : LockPath) (name : String) : LockPath := p.step (.call name)

/-- Whether the path is a type and nothing more. -/
def isBareStatic : LockPath → Bool
  | ⟨.static _, []⟩ => true
  | _ => false

/-- Whether `p` is `q` or is reached through it. -/
def reachedThrough (p q : LockPath) : Bool :=
  p.root = q.root && q.steps.isPrefixOf p.steps

/-- The path seen from a use of its declaration: the receiver of the use takes the place of `this`,
and an argument that of its parameter. There is none if that receiver or argument has no path. -/
def instantiate (p : LockPath) (receiver : Option LockPath) (args : List (Option LockPath)) :
    Option LockPath :=
  match p.root with
  | .this => receiver.map fun r => ⟨r.root, r.steps ++ p.steps⟩
  | .parameter index _ => (args[index]?.bind id).map fun a => ⟨a.root, a.steps ++ p.steps⟩
  | _ => some p

/-- The path in the words of the source language. -/
def render (p : LockPath) : String :=
  p.root.render ++ String.join (p.steps.map LockStep.render)

end LockPath

end LockDiscipline
