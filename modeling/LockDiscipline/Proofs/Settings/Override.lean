import LockDiscipline.Proofs.Settings.Cycle

/-! Which of several layers of settings a value comes from. A layer overrides those below it, so of
a chain found in a directory, where each document lies under those that it extends, the last one
wins; of a chain that is read apart it is the first. -/

namespace LockDiscipline

/-- What a layer can set. -/
inductive SettingKey where
  | category (c : Category)
  | rule (name : String)
  | flag (name : String)

/-- What it can be set to. -/
def SettingKey.Value : SettingKey → Type
  | .flag _ => String
  | _ => Level

/-- What the layer sets a key to. -/
def LintLayer.get? (l : LintLayer) : (key : SettingKey) → Option key.Value
  | .category c => l.categories.get? c
  | .rule name => l.rules.get? name
  | .flag name => l.flags.get? name

/-- What a key is set to. -/
def LintConfig.get? (c : LintConfig) : (key : SettingKey) → Option key.Value
  | .category c' => c.categories.get? c'
  | .rule name => c.rules.get? name
  | .flag name => c.flags.get? name

/-- What the document sets a key to. -/
def LintDocument.get? (doc : LintDocument) (key : SettingKey) : Option key.Value :=
  doc.layer.get? key

/-- What the first document that sets a key sets it to. -/
def firstSetting (docs : List LintDocument) (key : SettingKey) : Option key.Value :=
  docs.findSome? (·.get? key)

/-- What the last document that sets a key sets it to. -/
def lastSetting (docs : List LintDocument) (key : SettingKey) : Option key.Value :=
  firstSetting docs.reverse key

variable {docs docs' : List LintDocument} {key : SettingKey}

/-- A layer overrides what is below it key by key. -/
theorem get?_applyLayer (c : LintConfig) (l : LintLayer) (key : SettingKey) :
    (c.applyLayer l).get? key = (l.get? key).or (c.get? key) := by
  cases key with
  | category c' => exact OrderedMap.get?_insertAll_toList c.categories l.categories c'
  | rule name => exact OrderedMap.get?_insertAll_toList c.rules l.rules name
  | flag name => exact OrderedMap.get?_insertAll_toList c.flags l.flags name

theorem firstSetting_append :
    firstSetting (docs ++ docs') key = (firstSetting docs key).or (firstSetting docs' key) :=
  List.findSome?_append

theorem firstSetting_flatten (chains : List (List LintDocument)) :
    firstSetting chains.flatten key = chains.findSome? (firstSetting · key) := by
  induction chains with
  | nil => rfl
  | cons docs chains ih =>
    rw [List.flatten_cons, firstSetting_append, ih, List.findSome?_cons]
    cases firstSetting docs key <;> rfl

/-- The topmost document that sets a key decides. -/
theorem get?_foldl_applyLayer (c : LintConfig) (docs : List LintDocument) (key : SettingKey) :
    ((docs.map (·.layer)).foldl .applyLayer c).get? key =
      (lastSetting docs key).or (c.get? key) := by
  induction docs generalizing c with
  | nil => rfl
  | cons doc rest ih =>
    rw [List.map_cons, List.foldl_cons, ih, get?_applyLayer, lastSetting, lastSetting,
      List.reverse_cons, firstSetting_append, Option.or_assoc]
    congr 1
    rw [firstSetting, List.findSome?_singleton]
    rfl

/-- The documents of a stack, seen from above. -/
private theorem lastSetting_stack (found : List (List LintDocument))
    (asked named : List LintDocument) :
    lastSetting (found.reverse.flatten ++ asked.reverse ++ named.reverse) key =
      ((firstSetting named key).or (firstSetting asked key)).or
        (found.findSome? (lastSetting · key)) := by
  have hfound : found.reverse.flatten.reverse = (found.map List.reverse).flatten := by
    rw [List.reverse_flatten, List.map_reverse, List.reverse_reverse]
  rw [lastSetting, List.reverse_append, List.reverse_append, List.reverse_reverse,
    List.reverse_reverse, hfound, ← List.append_assoc, firstSetting_append, firstSetting_append,
    firstSetting_flatten, List.findSome?_map]
  rfl

theorem lastSetting_eq_some_iff {v : key.Value} : lastSetting docs key = some v ↔
    ∃ above doc below, docs = above ++ doc :: below ∧ doc.get? key = some v ∧
      ∀ doc' ∈ below, doc'.get? key = none := by
  rw [lastSetting, firstSetting, List.findSome?_eq_some_iff]
  constructor
  · rintro ⟨below, doc, above, hdocs, hdoc, hbelow⟩
    refine ⟨above.reverse, doc, below.reverse, ?_, hdoc,
      fun doc' h => hbelow doc' (by simpa using h)⟩
    rw [List.reverse_eq_iff.1 hdocs]
    simp
  · rintro ⟨above, doc, below, rfl, hdoc, hbelow⟩
    exact ⟨below.reverse, doc, above.reverse, by simp, hdoc,
      fun doc' h => hbelow doc' (by simpa using h)⟩

theorem lastSetting_eq_none_iff :
    lastSetting docs key = none ↔ firstSetting docs key = none := by
  simp only [lastSetting, firstSetting, List.findSome?_eq_none_iff, List.mem_reverse]

/-- The last setting is the first one exactly if the last document that sets the key, the one under
which none sets it, says what the first one says. -/
theorem lastSetting_eq_firstSetting_iff : lastSetting docs key = firstSetting docs key ↔
    ∀ above doc below v, docs = above ++ doc :: below → doc.get? key = some v →
      (∀ doc' ∈ below, doc'.get? key = none) → firstSetting docs key = some v := by
  constructor
  · intro heq above doc below v hdocs hdoc hbelow
    rw [← heq]
    exact lastSetting_eq_some_iff.2 ⟨above, doc, below, hdocs, hdoc, hbelow⟩
  · intro h
    cases hlast : lastSetting docs key with
    | none => exact (lastSetting_eq_none_iff.1 hlast).symm
    | some v =>
      obtain ⟨above, doc, below, hdocs, hdoc, hbelow⟩ := lastSetting_eq_some_iff.1 hlast
      exact (h above doc below v hdocs hdoc hbelow).symm

namespace World

variable {w : World} {inputs : List FilePath} {explicit environment : Option FilePath}
  {config : LintConfig}

/-- Where the settings come from. Of the chain of a document that is asked for or named by the
environment the first document that sets a key decides; of the chain of a document found in a
directory it is the last one. That is the same exactly if the last one repeats the first one. -/
theorem get?_discover (h : w.discover inputs explicit environment = .ok config) :
    ∃ directory places found asked named, w.startDirectory inputs = .ok directory ∧
      w.Chains (w.documentsAbove directory) places found ∧ w.Apart explicit asked ∧
      w.Apart (environment.filter w.exists?) named ∧
      (∀ key, config.get? key = (((firstSetting named key).or (firstSetting asked key)).or
        (found.findSome? (lastSetting · key))).or (LintConfig.default.get? key)) ∧
      ∀ docs ∈ found, ∀ key, lastSetting docs key = firstSetting docs key ↔
        ∀ above doc below v, docs = above ++ doc :: below → doc.get? key = some v →
          (∀ doc' ∈ below, doc'.get? key = none) → firstSetting docs key = some v := by
  obtain ⟨directory, places, found, asked, named, hdir, hfound, -, hasked, hnamed, rfl⟩ :=
    discover_eq_ok_iff.1 h
  refine ⟨directory, places, found, asked, named, hdir, hfound, hasked, hnamed, fun key => ?_,
    fun docs _ key => lastSetting_eq_firstSetting_iff⟩
  rw [get?_foldl_applyLayer, lastSetting_stack]

end World

namespace Counter

/-- A document that extends another one in its directory. Both set the level of a rule. -/
def relaxedBase : World :=
  .ofFiles [] [(["lint.yaml"], "extends: base.yaml\nrules:\n  guarded_by: warn",
      .fields [("extends", .string "base.yaml"),
        ("rules", .fields [("guarded_by", .string "warn")])]),
    (["base.yaml"], "rules:\n  guarded_by: error",
      .fields [("rules", .fields [("guarded_by", .string "error")])])]

private theorem startDirectory_relaxedBase : relaxedBase.startDirectory [] = .ok ⟨"/"⟩ := by
  decide +kernel

private theorem documentsAbove_relaxedBase :
    relaxedBase.documentsAbove ⟨"/"⟩ = [⟨"/lint.yaml"⟩] := by
  decide +kernel

private theorem discover_relaxedBase : ∃ config, relaxedBase.discover [] none none = .ok config ∧
    config.get? (.rule "guarded_by") = some Level.error := by
  have herror : (relaxedBase.discover [] none none).toOption.bind (·.rules.get? "guarded_by") =
      some .error := by
    decide +kernel
  cases hdiscover : relaxedBase.discover [] none none with
  | error e => simp [hdiscover, Except.toOption] at herror
  | ok config =>
    rw [hdiscover] at herror
    exact ⟨config, rfl, herror⟩

theorem get?_discover_relaxedBase : ∃ config places docs,
    relaxedBase.discover [] none none = .ok config ∧
      relaxedBase.Chain ⟨"/lint.yaml"⟩ places docs ∧
      ∀ key, config.get? key = (lastSetting docs key).or (LintConfig.default.get? key) := by
  obtain ⟨config, hdiscover, -⟩ := discover_relaxedBase
  obtain ⟨directory, places, found, asked, named, hdir, hfound, hasked, hnamed, hget, -⟩ :=
    World.get?_discover hdiscover
  obtain rfl := Except.ok.inj (hdir.symm.trans startDirectory_relaxedBase)
  rw [documentsAbove_relaxedBase] at hfound
  cases hfound with
  | cons hchain hrest =>
    cases hrest
    refine ⟨config, _, _, hdiscover, hchain, fun key => ?_⟩
    rw [hget key, show asked = [] from hasked, show named = [] from hnamed]
    simp [firstSetting]

/-- The document that is found says one thing, the one that it extends another, and the latter
stands. -/
theorem extended_overrides : ∃ config places docs,
    relaxedBase.discover [] none none = .ok config ∧
      relaxedBase.documentsAbove ⟨"/"⟩ = [⟨"/lint.yaml"⟩] ∧
      relaxedBase.Chain ⟨"/lint.yaml"⟩ places docs ∧
      docs.map (·.get? (.rule "guarded_by")) = [some Level.warn, some Level.error] ∧
      config.get? (.rule "guarded_by") = some Level.error := by
  obtain ⟨config, hdiscover, herror⟩ := discover_relaxedBase
  have hlayers : (relaxedBase.readChain [] ⟨"/lint.yaml"⟩).toOption.map
      (·.layers.reverse.map (·.rules.get? "guarded_by")) = some [some .warn, some .error] := by
    decide +kernel
  cases hread : relaxedBase.readChain [] ⟨"/lint.yaml"⟩ with
  | error e => simp [hread, Except.toOption] at hlayers
  | ok r =>
    obtain ⟨places, docs, hchain, -, rfl⟩ := World.readChain_eq_ok_iff.1 hread
    refine ⟨config, places, docs, hdiscover, documentsAbove_relaxedBase, hchain, ?_, herror⟩
    rw [hread] at hlayers
    have hlevels : (docs.map (·.layer)).reverse.reverse.map (·.rules.get? "guarded_by") =
        [some .warn, some .error] := Option.some.inj hlayers
    rw [List.reverse_reverse, List.map_map] at hlevels
    exact hlevels

end Counter

end LockDiscipline
