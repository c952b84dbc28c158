import LockDiscipline.Text.Blank
import LockDiscipline.Text.Pieces

/-!
The rules findings are reported under, their levels and categories, and the spellings by which a
rule may be named.
-/

namespace LockDiscipline

open Std

/-- How a rule's findings are reported, if at all. -/
inductive Level where
  | allow
  | warn
  | error
  deriving DecidableEq, Repr

namespace Level

/-- The level as it is printed. -/
def render : Level → String
  | .allow => "allow"
  | .warn => "warn"
  | .error => "error"

/-- The level of a word, in any ASCII case. -/
def ofWord? (word : String) : Option Level :=
  match Text.lower word with
  | "allow" | "off" => some .allow
  | "warn" | "warning" => some .warn
  | "deny" | "error" => some .error
  | _ => none

end Level

/-- A group of rules. -/
inductive Category where
  | correctness
  deriving DecidableEq, Repr

namespace Category

/-- The place of the category among all. -/
def rank : Category → Nat
  | .correctness => 0

instance : Ord Category := ⟨compareOn rank⟩

instance : TransOrd Category := inferInstanceAs (TransCmp (compareOn rank))

instance : LawfulEqOrd Category where
  compare_self {a} := by cases a; rfl
  eq_of_compare {a b} _ := by cases a; cases b; rfl

/-- The category as it is printed. -/
def render : Category → String
  | .correctness => "correctness"

/-- The category of a word, in any ASCII case. -/
def ofWord? (word : String) : Option Category :=
  match Text.lower word with
  | "correctness" => some .correctness
  | _ => none

end Category

/-- A rule. -/
structure Rule where
  code : String
  name : String
  /-- Other names under which an attribute may suppress the rule. -/
  aliases : List String
  description : String
  category : Category
  defaultLevel : Level
  deriving DecidableEq, Repr

/-- The one form of a rule's name, whatever quotes, blanks, hyphens and capitals it is written with:
quotes at the ends go first, then white space, then hyphens become underscores and ASCII letters
small. -/
def canonicalName (raw : String) : String :=
  Text.lower
    ((Text.trim (Text.strip (fun c => c = '"' || c = '\'') raw)).map fun c =>
      if c = '-' then '_' else c)

namespace Rule

/-- Guarded members are accessed with their lock held. -/
def guardedBy : Rule :=
  { code := "GUARD001", name := "guarded_by", aliases := ["GuardedBy"]
    description := "guarded members accessed without holding their lock"
    category := .correctness, defaultLevel := .error }

/-- Static members are guarded by locks that need no instance. -/
def staticGuardMismatch : Rule :=
  { code := "GUARD002", name := "static_guard_mismatch", aliases := []
    description := "static members guarded by a lock that needs an instance"
    category := .correctness, defaultLevel := .error }

/-- Annotations name locks. -/
def unresolvableGuard : Rule :=
  { code := "GUARD003", name := "unresolvable_guard", aliases := []
    description := "lock expressions that do not parse or do not name a lock in scope"
    category := .correctness, defaultLevel := .warn }

/-- All rules, in the order of their codes. -/
def all : List Rule := [guardedBy, staticGuardMismatch, unresolvableGuard]

theorem canonicalName_name {r : Rule} (hr : r ∈ all) : canonicalName r.name = r.name := by
  revert r; decide +kernel

/-- Whether `s` is the rule's code, in any ASCII case. -/
def hasCode (r : Rule) (s : String) : Bool :=
  Text.lower r.code = Text.lower s

/-- The rule that a name or code means. -/
def find? (name : String) : Option Rule :=
  all.find? fun r => r.name = canonicalName name || r.hasCode name

end Rule

end LockDiscipline
