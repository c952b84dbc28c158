import LockDiscipline.Proofs.Settings.Override

/-! Nearer settings win. Documents come in groups: each one that is found in a directory, asked for
or named by the environment, together with those that it extends. What a group sets is set by none
of those under it, in whatever order the documents inside a group are laid. -/

namespace LockDiscipline

variable {docs : List LintDocument} {key : SettingKey}

/-- Some of the documents sets the key. -/
def SomeSets (docs : List LintDocument) (key : SettingKey) : Prop :=
  ∃ doc ∈ docs, doc.get? key ≠ none

theorem lastSetting_eq_none_iff_not_someSets :
    lastSetting docs key = none ↔ ¬ SomeSets docs key := by
  rw [lastSetting_eq_none_iff, firstSetting, List.findSome?_eq_none_iff]
  simp [SomeSets]

/-- What is set last is set by some document. -/
theorem exists_of_lastSetting (h : SomeSets docs key) :
    ∃ doc ∈ docs, doc.get? key ≠ none ∧ lastSetting docs key = doc.get? key := by
  cases hlast : lastSetting docs key with
  | none => exact absurd h (lastSetting_eq_none_iff_not_someSets.1 hlast)
  | some v =>
    obtain ⟨above, doc, below, rfl, hdoc, -⟩ := lastSetting_eq_some_iff.1 hlast
    exact ⟨doc, List.mem_append_right _ (List.mem_cons_self ..), by simp [hdoc], hdoc.symm⟩

theorem lastSetting_flatten (parts : List (List LintDocument)) (key : SettingKey) :
    lastSetting parts.flatten key = parts.reverse.findSome? (lastSetting · key) := by
  rw [lastSetting, List.reverse_flatten, firstSetting_flatten, ← List.map_reverse,
    List.findSome?_map]
  rfl

/-- The last part that sets a key decides. -/
theorem lastSetting_flatten_of_last {before after : List (List LintDocument)}
    (h : SomeSets docs key) (hafter : ∀ part ∈ after, ¬ SomeSets part key) :
    lastSetting (before ++ docs :: after).flatten key = lastSetting docs key := by
  have hnone : after.reverse.findSome? (lastSetting · key) = none :=
    List.findSome?_eq_none_iff.2 fun part hpart =>
      lastSetting_eq_none_iff_not_someSets.2 (hafter part (List.mem_reverse.1 hpart))
  obtain ⟨doc, -, hdoc, hlast⟩ := exists_of_lastSetting h
  obtain ⟨v, hv⟩ := Option.ne_none_iff_exists'.1 hdoc
  rw [lastSetting_flatten, List.reverse_append, List.reverse_cons, List.append_assoc,
    List.findSome?_append, hnone, Option.none_or, List.singleton_append, List.findSome?_cons,
    hlast, hv]

/-- A check is switched off by a layer or was so before. -/
theorem mem_disabled_foldl_applyLayer (c : LintConfig) (docs : List LintDocument) (id : String) :
    id ∈ ((docs.map (·.layer)).foldl .applyLayer c).disabled ↔
      id ∈ c.disabled ∨ ∃ doc ∈ docs, id ∈ doc.disabled.map canonicalName := by
  induction docs generalizing c with
  | nil => simp
  | cons doc rest ih =>
    rw [List.map_cons, List.foldl_cons, ih, LintConfig.applyLayer, OrderedSet.mem_union]
    simp only [LintDocument.layer, OrderedSet.mem_ofList, List.exists_mem_cons_iff, or_assoc]

/-- The settings are those of groups of documents, of which the last one is the nearest. -/
structure LintConfig.OfGroups (c : LintConfig) (groups : List (List LintDocument)) : Prop where
  /-- Of the groups that set a key the last one decides. -/
  nearest : ∀ key before docs after, groups = before ++ docs :: after → SomeSets docs key →
    (∀ docs' ∈ after, ¬ SomeSets docs' key) →
      ∃ doc ∈ docs, doc.get? key ≠ none ∧ c.get? key = doc.get? key
  /-- A key that no group sets keeps its value. -/
  unset : ∀ key, (∀ docs ∈ groups, ¬ SomeSets docs key) →
    c.get? key = LintConfig.default.get? key
  /-- A check that one group switches off is off. -/
  disabled : ∀ id, id ∈ c.disabled ↔
    ∃ docs ∈ groups, ∃ doc ∈ docs, id ∈ doc.disabled.map canonicalName

/-- Layers laid group by group make the settings of the groups. -/
theorem LintConfig.ofGroups_foldl_applyLayer (groups : List (List LintDocument)) :
    OfGroups ((groups.flatten.map (·.layer)).foldl .applyLayer .default) groups where
  nearest key before docs after hgroups hsets hafter := by
    obtain ⟨doc, hmem, hdoc, hlast⟩ := exists_of_lastSetting hsets
    obtain ⟨v, hv⟩ := Option.ne_none_iff_exists'.1 hdoc
    refine ⟨doc, hmem, hdoc, ?_⟩
    rw [get?_foldl_applyLayer, hgroups, lastSetting_flatten_of_last hsets hafter, hlast, hv,
      Option.some_or]
  unset key hnone := by
    have hlast : lastSetting groups.flatten key = none := by
      rw [lastSetting_eq_none_iff_not_someSets]
      rintro ⟨doc, hdoc, hset⟩
      obtain ⟨docs, hdocs, hmem⟩ := List.mem_flatten.1 hdoc
      exact hnone docs hdocs ⟨doc, hmem, hset⟩
    rw [get?_foldl_applyLayer, hlast, Option.none_or]
  disabled id := by
    have hdefault : ¬ id ∈ LintConfig.default.disabled := OrderedSet.not_mem_empty
    rw [mem_disabled_foldl_applyLayer, or_iff_right hdefault]
    simp only [List.mem_flatten]
    constructor
    · rintro ⟨doc, ⟨docs, hdocs, hdoc⟩, hid⟩
      exact ⟨docs, hdocs, doc, hdoc, hid⟩
    · rintro ⟨docs, hdocs, doc, hdoc, hid⟩
      exact ⟨doc, ⟨docs, hdocs, hdoc⟩, hid⟩

namespace World

variable {w : World} {directory : FilePath} {paths paths' inputs : List FilePath}
  {places places' : List FilePlace} {chains chains' : List (List LintDocument)}
  {explicit environment : Option FilePath} {config : LintConfig}

/-- The documents in the directories above one and in it, the topmost directory first. -/
def documentsDown (w : World) (directory : FilePath) : List FilePath :=
  (directory.ancestors.reverse.flatMap fun above =>
    ["lint.yml", "lockguard.yaml", "lint.yaml"].map fun name => above.join ⟨name⟩).filter
      fun path => w.exists? path && w.isFile path

theorem reverse_documentsAbove (w : World) (directory : FilePath) :
    (w.documentsAbove directory).reverse = w.documentsDown directory := by
  rw [documentsAbove, documentsIn, documentsDown, ← List.filter_reverse, List.reverse_flatMap]
  rfl

theorem Chains.append (h : w.Chains paths places chains) (h' : w.Chains paths' places' chains') :
    w.Chains (paths ++ paths') (places ++ places') (chains ++ chains') := by
  induction h with
  | nil => exact h'
  | cons hchain _ ih => simpa using Chains.cons hchain ih

theorem chains_append_iff : w.Chains (paths ++ paths') places chains ↔
    ∃ places₁ places₂ chains₁ chains₂, w.Chains paths places₁ chains₁ ∧
      w.Chains paths' places₂ chains₂ ∧ places = places₁ ++ places₂ ∧
        chains = chains₁ ++ chains₂ := by
  constructor
  · intro h
    induction paths generalizing places chains with
    | nil => exact ⟨[], places, [], chains, .nil, h, rfl, rfl⟩
    | cons p paths ih =>
      cases h with
      | cons hchain hrest =>
        obtain ⟨places₁, places₂, chains₁, chains₂, h₁, h₂, rfl, rfl⟩ := ih hrest
        exact ⟨_, _, _, _, .cons hchain h₁, h₂, by simp, by simp⟩
  · rintro ⟨places₁, places₂, chains₁, chains₂, h₁, h₂, rfl, rfl⟩
    exact h₁.append h₂

theorem Chains.exists_reverse (h : w.Chains paths places chains) :
    ∃ places', w.Chains paths.reverse places' chains.reverse := by
  induction h with
  | nil => exact ⟨[], .nil⟩
  | cons hchain _ ih =>
    obtain ⟨places', hrest⟩ := ih
    rw [List.reverse_cons, List.reverse_cons]
    exact ⟨_, hrest.append (.cons hchain .nil)⟩

/-- Nearer settings win. The settings are those of the documents found in directories, each with the
chain of those that it extends, from the topmost directory down to the one where the search starts,
then of the document that is asked for, then of the one that the environment names. (Documents of
these two chains are laid the other way round.) -/
theorem discover_ofGroups (h : w.discover inputs explicit environment = .ok config) :
    ∃ directory places found asked named, w.startDirectory inputs = .ok directory ∧
      w.Chains (w.documentsDown directory) places found ∧ w.Apart explicit asked ∧
      w.Apart (environment.filter w.exists?) named ∧
      config.OfGroups (found ++ [asked.reverse, named.reverse]) := by
  obtain ⟨directory, places, found, asked, named, hdir, hfound, -, hasked, hnamed, rfl⟩ :=
    discover_eq_ok_iff.1 h
  obtain ⟨places', hdown⟩ := hfound.exists_reverse
  rw [reverse_documentsAbove] at hdown
  refine ⟨directory, places', found.reverse, asked, named, hdir, hdown, hasked, hnamed, ?_⟩
  have hflat : found.reverse.flatten ++ asked.reverse ++ named.reverse =
      (found.reverse ++ [asked.reverse, named.reverse]).flatten := by
    simp
  rw [hflat]
  exact LintConfig.ofGroups_foldl_applyLayer _

/-- Two directories with documents, one of which extends another, and two documents apart from them.
The topmost directory and the one below set the same rule; each of the other two switches a check
off. -/
def nestedGroups : World :=
  .ofFiles [] [(["lint.yml"], "rules:\n  r: warn",
      .fields [("rules", .fields [("r", .string "warn")])]),
    (["lint.yaml"], "extends: b.yaml", .fields [("extends", .string "b.yaml")]),
    (["b.yaml"], "flags:\n  f: yes", .fields [("flags", .fields [("f", .string "yes")])]),
    (["app", "lint.yaml"], "rules:\n  r: deny",
      .fields [("rules", .fields [("r", .string "deny")])]),
    (["a.yaml"], "disabled: [a]", .fields [("disabled", .sequence [.string "a"])]),
    (["e.yaml"], "disabled: [e]", .fields [("disabled", .sequence [.string "e"])])]

private theorem discover_nestedGroups : ∃ config,
    nestedGroups.discover [⟨"/app/A.java"⟩] (some ⟨"/a.yaml"⟩) (some ⟨"/e.yaml"⟩) = .ok config ∧
      (config.rules.get? "r", config.disabled.toList) = (some .error, ["a", "e"]) :=
  exists_ok_of_map_toOption (by decide +kernel)

private theorem startDirectory_nestedGroups :
    nestedGroups.startDirectory [⟨"/app/A.java"⟩] = .ok ⟨"/app"⟩ := by
  decide +kernel

private theorem documentsDown_nestedGroups : nestedGroups.documentsDown ⟨"/app"⟩ =
    [⟨"/lint.yml"⟩, ⟨"/lint.yaml"⟩, ⟨"/app/lint.yaml"⟩] := by
  decide +kernel

/-- The document of the lower directory decides over that of the topmost one, which comes before it,
and both checks are off. -/
theorem discover_ofGroups_nestedGroups : ∃ config places found asked named,
    nestedGroups.discover [⟨"/app/A.java"⟩] (some ⟨"/a.yaml"⟩) (some ⟨"/e.yaml"⟩) = .ok config ∧
      nestedGroups.Chains [⟨"/lint.yml"⟩, ⟨"/lint.yaml"⟩, ⟨"/app/lint.yaml"⟩] places found ∧
      nestedGroups.Apart (some ⟨"/a.yaml"⟩) asked ∧
      nestedGroups.Apart (some ⟨"/e.yaml"⟩) named ∧
      config.OfGroups (found ++ [asked.reverse, named.reverse]) ∧
      config.get? (.rule "r") = some Level.error ∧ config.disabled.toList = ["a", "e"] := by
  obtain ⟨config, hdiscover, hvalues⟩ := discover_nestedGroups
  obtain ⟨hlevel, hoff⟩ := Prod.mk.inj hvalues
  obtain ⟨directory, places, found, asked, named, hdir, hfound, hasked, hnamed, hgroups⟩ :=
    discover_ofGroups hdiscover
  obtain rfl := Except.ok.inj (hdir.symm.trans startDirectory_nestedGroups)
  rw [documentsDown_nestedGroups] at hfound
  have henv : (some ⟨"/e.yaml"⟩ : Option FilePath).filter nestedGroups.exists? =
      some ⟨"/e.yaml"⟩ := by
    decide +kernel
  rw [henv] at hnamed
  exact ⟨config, places, found, asked, named, hdiscover, hfound, hasked, hnamed, hgroups, hlevel,
    hoff⟩

end World

end LockDiscipline
