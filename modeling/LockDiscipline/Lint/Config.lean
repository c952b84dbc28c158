import LockDiscipline.Lint.Rule
import LockDiscipline.Ordered.Map
import LockDiscipline.Ordered.Set

/-!
The settings of a run: levels of rules and categories, flags of checks, and checks switched off.
Settings come in layers, of which a later one overrides an earlier one key by key.
-/

namespace LockDiscipline

/-- Options of checks as texts, each under the name of the check, a dot and the option's name. -/
abbrev Flags := OrderedMap String String

namespace Flags

/-- The flag as a truth value, if it reads as one. -/
def getBool? (flags : Flags) (key : String) : Option Bool :=
  match (flags.get? key).map fun value => Text.lower (Text.trim value) with
  | some "true" | some "yes" | some "on" => some true
  | some "false" | some "no" | some "off" => some false
  | _ => none

/-- The items of a list: the trimmed pieces between commas, without the empty ones. -/
def items (value : String) : List String :=
  ((Text.pieces ',' value).map Text.trim).filter fun item => item ≠ ""

/-- The flag as a list. -/
def getList? (flags : Flags) (key : String) : Option (List String) :=
  (flags.get? key).map items

end Flags

/-- Settings that override those below them. -/
structure LintLayer where
  categories : OrderedMap Category Level := ∅
  rules : OrderedMap String Level := ∅
  flags : Flags := ∅
  disabled : OrderedSet String := ∅
  deriving DecidableEq

/-- The settings of a run. -/
structure LintConfig where
  categories : OrderedMap Category Level
  rules : OrderedMap String Level
  flags : Flags
  disabled : OrderedSet String
  deriving DecidableEq

namespace LintConfig

/-- The settings without any layer. -/
def default : LintConfig :=
  { categories := .ofList [(.correctness, .error)]
    rules := .ofList [(canonicalName "unresolvable_guard", .warn)]
    flags := ∅
    disabled := ∅ }

instance : Inhabited LintConfig := ⟨default⟩

/-- The level of a rule: its own if it has one, or else that of its category, or else `fallback`. -/
def levelFor (c : LintConfig) (name : String) (category : Category) (fallback : Level) : Level :=
  match c.rules.get? (canonicalName name) with
  | some level => level
  | none => (c.categories.get? category).getD fallback

/-- Sets the level of a rule, however it is spelled. -/
def setRuleLevel (c : LintConfig) (rule : String) (level : Level) : LintConfig :=
  { c with rules := c.rules.insert (canonicalName rule) level }

/-- Switches a check off, however it is spelled. -/
def disable (c : LintConfig) (check : String) : LintConfig :=
  { c with disabled := c.disabled.insert (canonicalName check) }

/-- Puts a layer over the settings. -/
def applyLayer (c : LintConfig) (layer : LintLayer) : LintConfig :=
  { categories := c.categories.insertAll layer.categories.toList
    rules := c.rules.insertAll layer.rules.toList
    flags := c.flags.insertAll layer.flags.toList
    disabled := c.disabled.union layer.disabled }

/-- The rules that were given a level. -/
def configuredRules (c : LintConfig) : List String := c.rules.keys

end LintConfig

end LockDiscipline
