import LockDiscipline.Lint.Config
import LockDiscipline.Yaml.Value

/-!
Documents with lint settings: what they say, and the layer of settings that they make.
-/

namespace LockDiscipline

open Yaml (Value)

mutual

/-- A flag's value as text; the items of a sequence are joined by commas. Missing values, mappings
and tagged values have no text, and neither has a sequence that holds one. -/
def flagText? : Value → Option String
  | .string text => some text
  | .bool value => some (if value then "true" else "false")
  | .number value => some value.render
  | .sequence items => (flagTexts? items).map (Text.join ",")
  | _ => none

/-- The texts of all items of a sequence. -/
def flagTexts? : List Value → Option (List String)
  | [] => some []
  | value :: rest => do return (← flagText? value) :: (← flagTexts? rest)

end

/-- What a document says, in the order in which it is written. -/
structure LintDocument where
  /-- The document that this one extends. -/
  base : Option String := none
  categories : List (String × String) := []
  rules : List (String × String) := []
  flags : List (String × Value) := []
  disabled : List String := []

namespace LintDocument

/-- The layer that the document makes. Entries with unknown words and flags without a text are left
out. -/
def layer (d : LintDocument) : LintLayer :=
  { categories := .ofList (d.categories.filterMap fun (category, level) => do
      return (← Category.ofWord? category, ← Level.ofWord? level))
    rules := .ofList (d.rules.filterMap fun (rule, level) => do
      return (canonicalName rule, ← Level.ofWord? level))
    flags := .ofList (d.flags.filterMap fun (flag, value) => do
      return (flag, ← flagText? value))
    disabled := .ofList (d.disabled.map canonicalName) }

/-- The text of a value, tagged or not. -/
def text? (value : Value) : Option String :=
  match value.untagged with
  | .string text => some text
  | _ => none

/-- The items of a sequence; a missing value has none. -/
def items? (value : Value) : Option (List Value) :=
  match value.untagged with
  | .sequence items => some items
  | .null => some []
  | _ => none

/-- The list without entries whose key comes again. -/
def lastOfEach {α : Type} : List (String × α) → List (String × α)
  | [] => []
  | entry :: rest =>
    if rest.any (·.1 = entry.1) then lastOfEach rest else entry :: lastOfEach rest

/-- The entries of a mapping by their names; a missing value has none. Refused if a key is no
text. -/
def entries? (value : Value) : Option (List (String × Value)) :=
  match value.untagged with
  | .mapping entries => entries.mapM fun (key, value) => return (← text? key, value)
  | .null => some []
  | _ => none

/-- The value of the field that goes by the given names; refused if it is given twice. -/
def field? (entries : List (String × Value)) (names : List String) : Option (Option Value) :=
  match entries.filter fun entry => names.contains entry.1 with
  | [] => some none
  | [entry] => some (some entry.2)
  | _ => none

/-- The entries of a mapping of texts to texts; refused if a value is no text, even if its key comes
again. -/
def texts? (value : Value) : Option (List (String × String)) := do
  let entries ← (← entries? value).mapM fun (key, value) => return (key, ← text? value)
  return lastOfEach entries

/-- The document that a value makes; none if its parts are not of the kinds they have to be. Fields
with other names do not count. -/
def ofValue? (value : Value) : Option LintDocument := do
  let entries ← entries? value
  let base ← field? entries ["extends"]
  let categories ← field? entries ["categories", "category-levels"]
  let rules ← field? entries ["rules"]
  let flags ← field? entries ["flags"]
  let disabled ← field? entries ["disabled"]
  return {
    base := ← match base with
      | none | some .null => some none
      | some value => (text? value).map some
    categories := ← texts? (categories.getD .null)
    rules := ← texts? (rules.getD .null)
    flags := lastOfEach (← entries? (flags.getD .null))
    disabled := ← (← items? (disabled.getD .null)).mapM text? }

/-- The text without a line of three dashes at its start. -/
def withoutMarker (text : String) : String :=
  match text.toList with
  | '-' :: '-' :: '-' :: '\n' :: rest => String.ofList rest
  | _ => text

/-- The part of a value that holds settings: what is under the key `lint` of a mapping, or else the
mapping. Other values hold none. -/
def section? (value : Value) : Option Value :=
  match value with
  | .mapping entries =>
    match entries.find? fun entry => entry.1.same (.string "lint") with
    | some entry => some entry.2
    | none => some value
  | _ => none

end LintDocument

end LockDiscipline
