import LockDiscipline.Lint.Config

/-! The level of a rule after any changes of the default settings. The last level that was set for
the rule stands before the last one set for its category, and that before the default level; but the
default settings hold a level of their own for one rule, which no level of its category replaces. -/

namespace LockDiscipline

/-- A change of the levels: a layer is put over the settings, or a rule is given a level, however it
is spelled. -/
inductive LevelChange where
  | layer (l : LintLayer)
  | rule (spelling : String) (level : Level)

namespace LevelChange

/-- The settings after the change. -/
def apply (c : LintConfig) : LevelChange → LintConfig
  | layer l => c.applyLayer l
  | rule spelling level => c.setRuleLevel spelling level

/-- The rules in a layer are listed under canonical names. -/
def Canonical : LevelChange → Prop
  | layer l => ∀ key ∈ l.rules.keys, canonicalName key = key
  | rule _ _ => True

instance : DecidablePred Canonical
  | layer l => inferInstanceAs (Decidable (∀ key ∈ l.rules.keys, canonicalName key = key))
  | rule _ _ => inferInstanceAs (Decidable True)

/-- The level that the change sets for a rule, under any spelling of its name. -/
def ruleLevel? (r : Rule) : LevelChange → Option Level
  | layer l => (l.rules.toList.find? fun entry => canonicalName entry.1 = r.name).map (·.2)
  | rule spelling level => if canonicalName spelling = r.name then some level else none

/-- The level that the change sets for a category. -/
def categoryLevel? (category : Category) : LevelChange → Option Level
  | layer l => l.categories.get? category
  | rule _ _ => none

end LevelChange

/-- The last of the levels that changes set. -/
def lastLevel (level? : LevelChange → Option Level) (changes : List LevelChange) : Option Level :=
  changes.reverse.findSome? level?

/-- The level of a rule by what was set: the last level set for it, or else the last one set for its
category, or else its default level. -/
def settledLevel (changes : List LevelChange) (r : Rule) : Level :=
  (lastLevel (·.ruleLevel? r) changes).getD
    ((lastLevel (·.categoryLevel? r.category) changes).getD r.defaultLevel)

variable {changes : List LevelChange} {change : LevelChange} {c : LintConfig} {r : Rule}

theorem LevelChange.ruleLevel?_layer {l : LintLayer} (h : (layer l).Canonical) :
    (layer l).ruleLevel? r = l.rules.get? r.name := by
  have hkey {entry : String × Level} (hmem : entry ∈ l.rules.toList)
      (hname : canonicalName entry.1 = r.name) : l.rules.get? r.name = some entry.2 := by
    rw [← hname, h entry.1 (List.mem_map_of_mem hmem)]
    exact OrderedMap.get?_eq_some_iff.2 hmem
  rw [ruleLevel?]
  cases hfind : l.rules.toList.find? fun entry => canonicalName entry.1 = r.name with
  | some entry =>
    have hname : canonicalName entry.1 = r.name := by simpa using List.find?_some hfind
    exact (hkey (List.mem_of_find?_eq_some hfind) hname).symm
  | none =>
    cases hget : l.rules.get? r.name with
    | none => rfl
    | some level =>
      have hmem := OrderedMap.get?_eq_some_iff.1 hget
      have hname : canonicalName r.name = r.name := h r.name (List.mem_map_of_mem hmem)
      simpa [hname] using List.find?_eq_none.1 hfind _ hmem

/-- What one change makes of the level under a rule's name. -/
theorem rules_apply (h : change.Canonical) :
    (change.apply c).rules.get? r.name = (change.ruleLevel? r).or (c.rules.get? r.name) := by
  cases change with
  | layer l =>
    rw [LevelChange.ruleLevel?_layer h]
    exact OrderedMap.get?_insertAll_toList c.rules l.rules r.name
  | rule spelling level =>
    have hinsert := OrderedMap.get?_insert c.rules (canonicalName spelling) r.name level
    rw [LevelChange.apply, LintConfig.setRuleLevel, hinsert, LevelChange.ruleLevel?]
    by_cases hname : canonicalName spelling = r.name
    · rw [if_pos hname.symm, if_pos hname, Option.some_or]
    · rw [if_neg (Ne.symm hname), if_neg hname, Option.none_or]

theorem categories_apply {category : Category} : (change.apply c).categories.get? category =
    (change.categoryLevel? category).or (c.categories.get? category) := by
  cases change with
  | layer l => exact OrderedMap.get?_insertAll_toList c.categories l.categories category
  | rule => rfl

/-- What every change sets over what was there, the last one sets over all. -/
theorem foldl_apply {level? : LevelChange → Option Level} (view : LintConfig → Option Level)
    (c : LintConfig)
    (hstep : ∀ change ∈ changes, ∀ c, view (change.apply c) = (level? change).or (view c)) :
    view (changes.foldl LevelChange.apply c) = (lastLevel level? changes).or (view c) := by
  induction changes generalizing c with
  | nil => rfl
  | cons change rest ih =>
    have hlast : lastLevel level? (change :: rest) =
        (lastLevel level? rest).or (level? change) := by
      rw [lastLevel, lastLevel, List.reverse_cons, List.findSome?_append, List.findSome?_singleton]
    have hrest : ∀ later ∈ rest, ∀ c, view (later.apply c) = (level? later).or (view c) :=
      fun later hlater => hstep later (List.mem_cons_of_mem _ hlater)
    rw [List.foldl_cons, ih (change.apply c) hrest, hstep change List.mem_cons_self, hlast,
      Option.or_assoc]

namespace LintConfig

/-- The level of a rule in changed settings, by what the default settings hold. -/
theorem levelFor_foldl_apply (hcanonical : ∀ change ∈ changes, change.Canonical)
    (hr : r ∈ Rule.all) (fallback : Level) :
    (changes.foldl LevelChange.apply c).levelFor r.name r.category fallback =
      ((lastLevel (·.ruleLevel? r) changes).or (c.rules.get? r.name)).getD
        (((lastLevel (·.categoryLevel? r.category) changes).or
          (c.categories.get? r.category)).getD fallback) := by
  have hrules := foldl_apply (·.rules.get? r.name) c fun change hchange c =>
    rules_apply (c := c) (r := r) (hcanonical change hchange)
  have hcategories := foldl_apply (·.categories.get? r.category) c
    fun change (_ : change ∈ changes) c => categories_apply (c := c)
  rw [levelFor, Rule.canonicalName_name hr, hrules, hcategories]
  cases (lastLevel (·.ruleLevel? r) changes).or (c.rules.get? r.name) <;> rfl

private theorem rules_default (hr : r ∈ Rule.all) :
    default.rules.get? r.name = if r = .unresolvableGuard then some .warn else none := by
  revert r
  decide +kernel

private theorem categories_default (hr : r ∈ Rule.all) :
    default.categories.get? r.category = some .error ∧
      (r.defaultLevel = if r = .unresolvableGuard then .warn else .error) := by
  revert r
  decide +kernel

/-- A rule has the last level that was set for it, or else the last one set for its category, or
else its default level; but the rule on locks that cannot be found keeps its default level whatever
is set for its category. So its level is the settled one exactly if it was given a level itself, or
if none was set for its category or the last one is the default level. -/
theorem levelFor_changed (hcanonical : ∀ change ∈ changes, change.Canonical) (hr : r ∈ Rule.all) :
    (changes.foldl LevelChange.apply default).levelFor r.name r.category r.defaultLevel =
      (if r = .unresolvableGuard then (lastLevel (·.ruleLevel? r) changes).getD r.defaultLevel
        else settledLevel changes r) ∧
    ((changes.foldl LevelChange.apply default).levelFor r.name r.category r.defaultLevel =
      settledLevel changes r ↔ r = .unresolvableGuard → lastLevel (·.ruleLevel? r) changes = none →
        ∀ level, lastLevel (·.categoryLevel? r.category) changes = some level →
          level = r.defaultLevel) := by
  obtain ⟨hcategory, hlevel⟩ := categories_default hr
  rw [levelFor_foldl_apply hcanonical hr, rules_default hr, hcategory]
  generalize hrule : lastLevel (·.ruleLevel? r) changes = ruleLevel
  generalize hset : lastLevel (·.categoryLevel? r.category) changes = categoryLevel
  rw [settledLevel, hrule, hset]
  by_cases h : r = .unresolvableGuard
  · subst h
    rw [if_pos rfl] at hlevel
    cases ruleLevel <;> cases categoryLevel <;> simp [hlevel, eq_comm]
  · rw [if_neg h] at hlevel
    cases ruleLevel <;> cases categoryLevel <;> simp [h, hlevel]

end LintConfig

/-- A layer switches a category off, another one sets a rule of it, and then another rule of it is
given a level. -/
def relaxedRules : List LevelChange :=
  [.layer { categories := .ofList [(.correctness, .allow)] },
    .layer { rules := .ofList [("static_guard_mismatch", .error)] }, .rule "GUARDED-BY" .warn]

theorem LintConfig.levelFor_changed_relaxedRules :
    (∀ change ∈ relaxedRules, change.Canonical) ∧ Rule.guardedBy ∈ Rule.all ∧
      (relaxedRules.foldl LevelChange.apply .default).levelFor "guarded_by" .correctness .error =
        settledLevel relaxedRules .guardedBy ∧
      settledLevel relaxedRules .guardedBy = .warn := by
  have hcanonical : ∀ change ∈ relaxedRules, change.Canonical := by decide +kernel
  have hr : Rule.guardedBy ∈ Rule.all := List.mem_cons_self
  exact ⟨hcanonical, hr, (levelFor_changed hcanonical hr).2.2 (by decide), by decide +kernel⟩

namespace Counter

/-- A layer switches the category off, and nothing is set for the rule itself. -/
def categoryOff : List LevelChange := [.layer { categories := .ofList [(.correctness, .allow)] }]

/-- The rule keeps its default level, though another one was set for its category. -/
theorem levelFor_categoryOff :
    (∀ change ∈ categoryOff, change.Canonical) ∧ Rule.unresolvableGuard ∈ Rule.all ∧
      (categoryOff.foldl LevelChange.apply .default).levelFor "unresolvable_guard" .correctness
        .warn = .warn ∧
      settledLevel categoryOff .unresolvableGuard = .allow := by
  decide +kernel

end Counter

end LockDiscipline
