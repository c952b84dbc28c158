import LockDiscipline.Lint.Document
import LockDiscipline.Proofs.Checks.Builtin
import Mathlib.Data.List.Nodup

/-! Lists as flags, from the document to the check. A sequence is flattened into one text, and the
check cuts the text at the commas again; so it gets the texts of the leaves, however deep they lie,
trimmed and without the empty ones. A leaf without a text takes the whole flag away. -/

namespace LockDiscipline

open Yaml (Value)

namespace Yaml.Value

mutual

/-- The values in a value that are no sequences, in order. -/
def leaves : Value → List Value
  | .sequence items => leavesAll items
  | value => [value]

/-- The leaves of values, one after another. -/
def leavesAll : List Value → List Value
  | [] => []
  | value :: rest => value.leaves ++ leavesAll rest

end

/-- The text of a scalar. Missing values, mappings and tagged values have none. -/
def scalarText? : Value → Option String
  | .string text => some text
  | .bool value => some (if value then "true" else "false")
  | .number value => some value.render
  | _ => none

end Yaml.Value

namespace Flags

theorem items_of_not_mem {text : String} (h : ',' ∉ text.toList) :
    items text = [Text.trim text].filter fun item => item ≠ "" := by
  rw [items, Text.pieces_of_not_mem h, List.map_singleton]

/-- The items of what is joined are the items of the parts. -/
theorem items_join (texts : List String) : items (Text.join "," texts) = texts.flatMap items := by
  by_cases hne : texts = []
  · subst hne
    decide +kernel
  · have hpieces : Text.pieces ',' (Text.join "," texts) = texts.flatMap (Text.pieces ',') :=
      Text.pieces_join hne
    rw [items, hpieces, List.map_flatMap, List.filter_flatMap]
    rfl

theorem flatMap_items {texts : List String} (h : ∀ text ∈ texts, ',' ∉ text.toList) :
    texts.flatMap items = (texts.map Text.trim).filter fun item => item ≠ "" := by
  induction texts with
  | nil => rfl
  | cons text rest ih =>
    obtain ⟨htext, hrest⟩ := List.forall_mem_cons.1 h
    rw [List.flatMap_cons, items_of_not_mem htext, ih hrest, List.map_cons, ← List.filter_append,
      List.singleton_append]

end Flags

mutual

/-- What is cut out of the text of a flag is what is cut out of the texts of its leaves; there is no
text exactly if a leaf has none. -/
theorem map_items_flagText? : (value : Value) → (flagText? value).map Flags.items =
    (value.leaves.mapM Value.scalarText?).map (·.flatMap Flags.items)
  | .sequence values => by
    rw [flagText?, Value.leaves, ← map_items_flagTexts? values, Option.map_map]
    congr 1
    funext texts
    exact Flags.items_join texts
  | .null | .bool _ | .number _ | .string _ | .mapping _ | .tagged _ _ => by
    simp [flagText?, Value.leaves, Value.scalarText?]

theorem map_items_flagTexts? : (values : List Value) →
    (flagTexts? values).map (·.flatMap Flags.items) =
      ((Value.leavesAll values).mapM Value.scalarText?).map (·.flatMap Flags.items)
  | [] => rfl
  | value :: rest => by
    -- Both sides put the items of the rest behind those of the first value.
    have hcons (x : Option String) (y : Option (List String)) :
        (do return (← x) :: (← y) : Option (List String)).map (·.flatMap Flags.items) =
          (x.map Flags.items).bind fun first =>
            (y.map (·.flatMap Flags.items)).map (first ++ ·) := by
      cases x <;> cases y <;> rfl
    have happend (x y : Option (List String)) :
        (do return (← x) ++ (← y) : Option (List String)).map (·.flatMap Flags.items) =
          (x.map (·.flatMap Flags.items)).bind fun first =>
            (y.map (·.flatMap Flags.items)).map (first ++ ·) := by
      cases x <;> cases y <;> simp
    rw [flagTexts?, hcons, map_items_flagText? value, map_items_flagTexts? rest, Value.leavesAll,
      List.mapM_append, happend]

end

section

variable {v : Value} {texts : List String}

/-- Whatever was joined, the items are the trimmed texts of the leaves that are not empty. -/
theorem exists_flagText? (htexts : v.leaves.mapM Value.scalarText? = some texts)
    (hcomma : ∀ text ∈ texts, ',' ∉ text.toList) : ∃ text, flagText? v = some text ∧
      Flags.items text = (texts.map Text.trim).filter fun item => item ≠ "" := by
  have h := map_items_flagText? v
  rw [htexts, Option.map_some, Flags.flatMap_items hcomma] at h
  exact Option.map_eq_some_iff.1 h

/-- One leaf without a text leaves the whole without one. -/
theorem flagText?_eq_none (h : ∃ leaf ∈ v.leaves, leaf.scalarText? = none) : flagText? v = none := by
  have hnone : v.leaves.mapM Value.scalarText? = none := by
    generalize v.leaves = leaves at h
    induction leaves with
    | nil => simp at h
    | cons leaf rest ih =>
      rw [List.mapM_cons]
      obtain ⟨other, hmem, hother⟩ := h
      rcases List.mem_cons.1 hmem with rfl | hmem
      · rw [hother]
        rfl
      · rw [ih ⟨other, hmem, hother⟩]
        cases leaf.scalarText? <;> rfl
  have hmap := map_items_flagText? v
  rw [hnone, Option.map_none] at hmap
  exact Option.map_eq_none_iff.1 hmap

end

namespace LintDocument

variable {d : LintDocument} {value v : Value} {key : String}

theorem mem_of_mem_lastOfEach {α : Type} {l : List (String × α)} {entry : String × α}
    (h : entry ∈ lastOfEach l) : entry ∈ l := by
  induction l with
  | nil => cases h
  | cons first rest ih =>
    rw [lastOfEach] at h
    split at h
    · exact List.mem_cons_of_mem _ (ih h)
    · rcases List.mem_cons.1 h with rfl | h
      · exact List.mem_cons_self
      · exact List.mem_cons_of_mem _ (ih h)

theorem nodup_lastOfEach {α : Type} (l : List (String × α)) : ((lastOfEach l).map (·.1)).Nodup := by
  induction l with
  | nil => exact .nil
  | cons first rest ih =>
    rw [lastOfEach]
    split
    · exact ih
    · next hnew =>
      rw [List.map_cons, List.nodup_cons]
      refine ⟨fun hmem => hnew ?_, ih⟩
      obtain ⟨later, hlater, heq⟩ := List.mem_map.1 hmem
      exact List.any_eq_true.2 ⟨later, mem_of_mem_lastOfEach hlater, decide_eq_true heq⟩

/-- The flags of a document have different names. -/
theorem nodup_flags (h : ofValue? value = some d) : (d.flags.map (·.1)).Nodup := by
  rw [ofValue?] at h
  -- The fields are looked up first; then what they hold is read, the flags as the fourth.
  iterate 6 obtain ⟨_, -, h⟩ := Option.bind_eq_some_iff.1 h
  split at h <;>
  · iterate 3 obtain ⟨_, -, h⟩ := Option.bind_eq_some_iff.1 h
    obtain ⟨entries, -, h⟩ := Option.bind_eq_some_iff.1 h
    iterate 2 obtain ⟨_, -, h⟩ := Option.bind_eq_some_iff.1 h
    cases h
    exact nodup_lastOfEach entries

/-- A flag of the document is in its layer with its text, if it has one. -/
theorem get?_flags (hkeys : (d.flags.map (·.1)).Nodup) (hflag : (key, v) ∈ d.flags) :
    d.layer.flags.get? key = flagText? v := by
  have hsome {text : String} (hget : d.layer.flags.get? key = some text) :
      flagText? v = some text := by
    obtain ⟨⟨name, v'⟩, hmem, htext⟩ := List.mem_filterMap.1 (OrderedMap.mem_of_get?_ofList hget)
    obtain ⟨text', htext', heq⟩ := Option.bind_eq_some_iff.1 htext
    cases heq
    cases List.inj_on_of_nodup_map hkeys hflag hmem rfl
    exact htext'
  cases hget : d.layer.flags.get? key with
  | some text => exact (hsome hget).symm
  | none =>
    cases htext : flagText? v with
    | none => rfl
    | some text =>
      have hentry : (flagText? v).bind (fun text => some (key, text)) = some (key, text) := by
        rw [htext, Option.bind_some]
      have hbound : (d.layer.flags.get? key).isSome :=
        OrderedMap.isSome_get?_ofList (List.mem_filterMap.2 ⟨(key, v), hflag, hentry⟩)
      rw [hget] at hbound
      cases hbound

end LintDocument

namespace GuardedBy

/-- The options of the check that are lists. -/
inductive ListOption where
  | lockTypes
  | acquireMethods
  | releaseMethods
  deriving DecidableEq, Repr

namespace ListOption

/-- The flag that sets the option. -/
def flag : ListOption → String
  | lockTypes => "guarded_by.lock_types"
  | acquireMethods => "guarded_by.acquire_methods"
  | releaseMethods => "guarded_by.release_methods"

/-- The list that the check has for the option. -/
def value (api : LockApi) : ListOption → List String
  | lockTypes => api.lockTypes
  | acquireMethods => api.acquireMethods
  | releaseMethods => api.releaseMethods

end ListOption

variable {o : ListOption} {flags : Flags}

theorem value_lockApi :
    o.value (lockApi flags) = (flags.getList? o.flag).getD (o.value {}) := by
  cases o <;> rfl

/-- A flag of a document whose leaves are scalars without commas is the list of their texts, trimmed
and without the empty ones, however deep the leaves lie, and the option that it sets has that list.
If some leaf is no scalar, the document does not set the flag: it stays as it was, and if it was not
set, then the option keeps its default. The scanner of the settings has the check with the options so
set. -/
theorem lockApi_of_listFlag {document v : Value} {d : LintDocument} {key : String}
    (hd : LintDocument.ofValue? document = some d) (hflag : (key, v) ∈ d.flags) (c : LintConfig) :
    let flags := (c.applyLayer d.layer).flags
    (∀ texts, v.leaves.mapM Value.scalarText? = some texts →
      (∀ text ∈ texts, ',' ∉ text.toList) →
        let list := (texts.map Text.trim).filter fun item => item ≠ ""
        (∃ text, flagText? v = some text ∧ Flags.items text = list) ∧
          flags.getList? key = some list ∧
          ∀ o : ListOption, o.flag = key → o.value (lockApi flags) = list) ∧
    ((∃ leaf ∈ v.leaves, leaf.scalarText? = none) →
      flagText? v = none ∧ flags.get? key = c.flags.get? key ∧
        (c.flags.get? key = none →
          ∀ o : ListOption, o.flag = key → o.value (lockApi flags) = o.value {})) ∧
    ∀ choice, ScannerConfig.ofLintConfig .builtin (c.applyLayer d.layer) = .ok choice →
      choice.isEnabled id = true →
        ∃ s, Scanner.ofConfig .builtin choice = .ok s ∧ s.checks = [check (lockApi flags)] := by
  intro flags
  have hget : flags.get? key = (flagText? v).or (c.flags.get? key) := by
    rw [← LintDocument.get?_flags (LintDocument.nodup_flags hd) hflag]
    exact OrderedMap.get?_insertAll_toList c.flags d.layer.flags key
  refine ⟨fun texts htexts hcomma => ?_, fun hleaf => ?_, fun choice hchoice hon => ?_⟩
  · obtain ⟨text, htext, hitems⟩ := exists_flagText? htexts hcomma
    have hlist : flags.getList? key = some ((texts.map Text.trim).filter fun item => item ≠ "") := by
      rw [Flags.getList?, hget, htext, Option.some_or, Option.map_some, hitems]
    refine ⟨⟨text, htext, hitems⟩, hlist, ?_⟩
    rintro o rfl
    rw [value_lockApi, hlist, Option.getD_some]
  · have hnone := flagText?_eq_none hleaf
    rw [hnone, Option.none_or] at hget
    refine ⟨hnone, hget, ?_⟩
    rintro hunset o rfl
    rw [value_lockApi, Flags.getList?, hget, hunset, Option.map_none, Option.getD_none]
  · obtain ⟨hvalid, rfl⟩ := ScannerConfig.validated_eq_ok_iff.1 hchoice
    exact Scanner.exists_ofConfig_builtin hvalid hon

end GuardedBy

namespace Sample

/-- Lock types in sequences inside one another. -/
def nestedTypes : Value :=
  .sequence [.string " Mutex", .sequence [], .sequence [.string "", .bool true]]

/-- Acquiring methods, one of which is missing. -/
def holedMethods : Value := .sequence [.string "enter", .null]

/-- A document that sets both. -/
def listFlags : Value :=
  .mapping [(.string "flags", .mapping
    [(.string "guarded_by.lock_types", nestedTypes),
      (.string "guarded_by.acquire_methods", holedMethods)])]

end Sample

open Sample

/-- The lock types are those of the nested sequences, the acquiring methods those by default. -/
theorem GuardedBy.lockApi_of_listFlag_nested :
    ∃ d, LintDocument.ofValue? listFlags = some d ∧
      ("guarded_by.lock_types", nestedTypes) ∈ d.flags ∧
      ("guarded_by.acquire_methods", holedMethods) ∈ d.flags ∧
      let flags := (LintConfig.default.applyLayer d.layer).flags
      flags.getList? "guarded_by.lock_types" = some ["Mutex", "true"] ∧
        (lockApi flags).lockTypes = ["Mutex", "true"] ∧
        flagText? holedMethods = none ∧
        (lockApi flags).acquireMethods = ["lock", "lockInterruptibly"] ∧
        ∃ choice s, ScannerConfig.ofLintConfig .builtin (.applyLayer .default d.layer) = .ok choice ∧
          Scanner.ofConfig .builtin choice = .ok s ∧ s.checks = [check (lockApi flags)] := by
  let d : LintDocument :=
    { flags := [("guarded_by.lock_types", nestedTypes),
        ("guarded_by.acquire_methods", holedMethods)] }
  have hd : LintDocument.ofValue? listFlags = some d := rfl
  have htypes : ("guarded_by.lock_types", nestedTypes) ∈ d.flags := .head _
  have hmethods : ("guarded_by.acquire_methods", holedMethods) ∈ d.flags := .tail _ (.head _)
  obtain ⟨hlists, -, hscanner⟩ := lockApi_of_listFlag hd htypes .default
  obtain ⟨-, hholed, -⟩ := lockApi_of_listFlag hd hmethods .default
  have hlist : ([" Mutex", "", "true"].map Text.trim).filter (fun item => item ≠ "") =
      ["Mutex", "true"] := by decide +kernel
  obtain ⟨-, hget, hvalue⟩ := hlists [" Mutex", "", "true"] rfl (by decide)
  obtain ⟨hnone, -, hdefault⟩ := hholed ⟨.null, .tail _ (.head _), rfl⟩
  rw [hlist] at hget hvalue
  let settings : LintConfig := .applyLayer .default d.layer
  let choice : ScannerConfig := ⟨settings, settings.disabled, settings.flags⟩
  have hchoice : ScannerConfig.ofLintConfig .builtin settings = .ok choice :=
    ScannerConfig.validated_eq_ok_iff.2 ⟨by decide +kernel, rfl⟩
  obtain ⟨s, hs, hchecks⟩ := hscanner choice hchoice (by decide +kernel)
  exact ⟨d, hd, htypes, hmethods, hget, hvalue .lockTypes rfl, hnone,
    hdefault rfl .acquireMethods rfl, choice, s, hchoice, hs, hchecks⟩

end LockDiscipline
