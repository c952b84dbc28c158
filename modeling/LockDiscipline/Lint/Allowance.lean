import LockDiscipline.Lint.Rule
import LockDiscipline.Syntax.Decl

/-!
Suppressions written as attributes: `allow` and `SuppressWarnings` with the names of rules,
categories or `all`, or an attribute that itself names a rule or category.
-/

namespace LockDiscipline

/-- What the attributes of a declaration allow. -/
structure Allowance where
  everything : Bool := false
  rules : List String := []
  categories : List Category := []
  deriving DecidableEq, Repr

namespace Allowance

/-- Whether findings of the rule `name` in `category` are allowed. -/
def allows (a : Allowance) (category : Category) (name : String) : Bool :=
  a.everything || a.rules.contains (canonicalName name) || a.categories.contains category

/-- What either of two declarations allows. -/
def merge (a b : Allowance) : Allowance :=
  ⟨a.everything || b.everything, a.rules ++ b.rules, a.categories ++ b.categories⟩

/-- Allows one rule. -/
def ofRule (name : String) : Allowance := { rules := [name] }

/-- Allows one category. -/
def ofCategory (category : Category) : Allowance := { categories := [category] }

/-- What one word in a suppression allows: everything, a category, or a rule by its name or one of
its other names. An unknown word allows the rule of that name, which no rule has. -/
def ofWord (word : String) : Allowance :=
  let name := canonicalName word
  if name = "" then {}
  else if name = "all" then { everything := true }
  else match Category.ofWord? name with
    | some category => ofCategory category
    | none =>
      match Rule.all.find? fun r => r.aliases.any fun a => canonicalName a = name with
      | some rule => ofRule rule.name
      | none => ofRule name

/-- What one attribute allows. -/
def ofAttribute (a : Attribute) : Allowance :=
  let name := canonicalName (Text.lastPiece '.' a.name)
  if name = "allow" || name = "suppresswarnings" then
    ((a.args.flatMap (Text.pieces ',')).map ofWord).foldl merge {}
  else match Category.ofWord? name with
    | some category => ofCategory category
    | none => if Rule.all.any fun r => r.name = name || r.hasCode a.name then ofRule name else {}

/-- What the attributes of a declaration allow together. -/
def ofAttributes (attributes : List Attribute) : Allowance :=
  (attributes.map ofAttribute).foldl merge {}

end Allowance

end LockDiscipline
