import LockDiscipline.Proofs.Settings.Nearest

/-! The order in which the entries of a document are taken. Several spellings of a rule or category
have one canonical name, and of the levels that they are given the last one stands. So a document
has one meaning in all orders exactly if no two of its spellings disagree, and a run has one result
exactly if the topmost document that says something on a key does not disagree with itself on it. -/

namespace LockDiscipline

/-- The same document with the entries of its categories and rules in another order. (Its flags are
told apart as they are written, so their order shows nowhere.) -/
structure LintDocument.Reordered (doc doc' : LintDocument) : Prop where
  base : doc'.base = doc.base
  categories : doc.categories.Perm doc'.categories
  rules : doc.rules.Perm doc'.rules
  flags : doc'.flags = doc.flags
  disabled : doc'.disabled = doc.disabled

/-- An entry of the document gives the key the value, under some spelling. -/
def LintDocument.Says (doc : LintDocument) : (key : SettingKey) → key.Value → Prop
  | .category c, level => ∃ entry ∈ doc.categories,
      Category.ofWord? entry.1 = some c ∧ Level.ofWord? entry.2 = some level
  | .rule name, level => ∃ entry ∈ doc.rules,
      canonicalName entry.1 = name ∧ Level.ofWord? entry.2 = some level
  | .flag name, text => doc.get? (.flag name) = some text

/-- No two entries give the key different values. -/
def LintDocument.Consistent (doc : LintDocument) (key : SettingKey) : Prop :=
  ∀ v v', doc.Says key v → doc.Says key v' → v = v'

/-- The levels that entries give to the keys that they mean. -/
def levelsOf {κ : Type} (key? : String → Option κ) (entries : List (String × String)) :
    List (κ × Level) :=
  entries.filterMap fun entry => do return (← key? entry.1, ← Level.ofWord? entry.2)

section LevelsOf

variable {κ : Type} {key? : String → Option κ} {entries : List (String × String)} {k : κ}
  {level : Level}

theorem mem_levelsOf : (k, level) ∈ levelsOf key? entries ↔
    ∃ entry ∈ entries, key? entry.1 = some k ∧ Level.ofWord? entry.2 = some level := by
  simp [levelsOf, List.mem_filterMap, Option.bind_eq_some_iff]

/-- An entry that is moved to the end of the others has its level stand. -/
theorem exists_perm_ofList_levelsOf [Ord κ] [Std.TransOrd κ] [Std.LawfulEqOrd κ] [DecidableEq κ]
    (h : (k, level) ∈ levelsOf key? entries) :
    ∃ entries', entries.Perm entries' ∧
      (OrderedMap.ofList (levelsOf key? entries')).get? k = some level := by
  obtain ⟨entry, hmem, hkey, hlevel⟩ := mem_levelsOf.1 h
  obtain ⟨before, after, rfl⟩ := List.append_of_mem hmem
  have hlast : levelsOf key? (before ++ after ++ [entry]) =
      levelsOf key? (before ++ after) ++ [(k, level)] := by
    simp [levelsOf, hkey, hlevel]
  refine ⟨before ++ after ++ [entry], ?_, ?_⟩
  · exact List.perm_middle.trans (List.perm_append_singleton entry (before ++ after)).symm
  · rw [hlast, OrderedMap.get?_ofList_concat, if_pos rfl]

end LevelsOf

namespace LintDocument

variable {doc doc' : LintDocument} {key : SettingKey} {v : key.Value}

theorem get?_rule (name : String) : doc.get? (.rule name) =
    (OrderedMap.ofList (levelsOf (fun rule => some (canonicalName rule)) doc.rules)).get? name := by
  rfl

theorem says_category {c : Category} {level : Level} : doc.Says (.category c) level ↔
    (c, level) ∈ levelsOf Category.ofWord? doc.categories :=
  mem_levelsOf.symm

theorem says_rule {name : String} {level : Level} : doc.Says (.rule name) level ↔
    (name, level) ∈ levelsOf (fun rule => some (canonicalName rule)) doc.rules := by
  simp only [mem_levelsOf, Option.some.injEq]
  rfl

/-- What a document sets a key to, one of its entries says. -/
theorem says_of_get? (h : doc.get? key = some v) : doc.Says key v := by
  cases key with
  | category c => exact says_category.2 (OrderedMap.mem_of_get?_ofList h)
  | rule name => exact says_rule.2 (OrderedMap.mem_of_get?_ofList h)
  | flag name => exact h

/-- A key on which some entry says something is set. -/
theorem get?_ne_none (h : doc.Says key v) : doc.get? key ≠ none := by
  cases key with
  | category c =>
    exact Option.isSome_iff_ne_none.1 (OrderedMap.isSome_get?_ofList (says_category.1 h))
  | rule name => exact Option.isSome_iff_ne_none.1 (OrderedMap.isSome_get?_ofList (says_rule.1 h))
  | flag name => exact Option.ne_none_iff_exists'.2 ⟨v, h⟩

/-- The last entry of a rule stands. -/
theorem get?_rule_of_last (doc : LintDocument) (before : List (String × String))
    {entry : String × String} {level : Level} (hrules : doc.rules = before ++ [entry])
    (hlevel : Level.ofWord? entry.2 = some level) :
    doc.get? (.rule (canonicalName entry.1)) = some level := by
  have hlast : levelsOf (fun rule => some (canonicalName rule)) (before ++ [entry]) =
      levelsOf (fun rule => some (canonicalName rule)) before ++
        [(canonicalName entry.1, level)] := by
    simp [levelsOf, hlevel]
  rw [get?_rule, hrules, hlast, OrderedMap.get?_ofList_concat, if_pos rfl]

theorem Reordered.refl (doc : LintDocument) : doc.Reordered doc := ⟨rfl, .refl _, .refl _, rfl, rfl⟩

/-- The order of the entries has no part in what they say. -/
theorem Reordered.says_iff (h : doc.Reordered doc') : doc'.Says key v ↔ doc.Says key v := by
  cases key with
  | category c => simp only [Says, h.categories.mem_iff]
  | rule name => simp only [Says, h.rules.mem_iff]
  | flag name => rw [Says, Says, get?, get?, LintLayer.get?, LintLayer.get?, layer, layer, h.flags]

/-- Whatever an entry says stands in some order. -/
theorem exists_reordered (h : doc.Says key v) :
    ∃ doc', doc.Reordered doc' ∧ doc'.get? key = some v := by
  cases key with
  | category c =>
    obtain ⟨entries, hperm, hget⟩ := exists_perm_ofList_levelsOf (says_category.1 h)
    exact ⟨{ doc with categories := entries }, ⟨rfl, hperm, .refl _, rfl, rfl⟩, hget⟩
  | rule name =>
    obtain ⟨entries, hperm, hget⟩ := exists_perm_ofList_levelsOf (says_rule.1 h)
    exact ⟨{ doc with rules := entries }, ⟨rfl, .refl _, hperm, rfl, rfl⟩, hget⟩
  | flag name => exact ⟨doc, .refl doc, h⟩

/-- In all orders a document sets the same keys, and those on which it is consistent to the same
values. -/
theorem Reordered.get?_eq (h : doc.Reordered doc') (hkey : doc.Consistent key) :
    doc'.get? key = doc.get? key := by
  cases hget' : doc'.get? key with
  | some v' =>
    have hstated' := h.says_iff.1 (says_of_get? hget')
    obtain ⟨v, hget⟩ := Option.ne_none_iff_exists'.1 (get?_ne_none hstated')
    rw [hget, hkey v v' (says_of_get? hget) hstated']
  | none =>
    cases hget : doc.get? key with
    | none => rfl
    | some v =>
      exact absurd hget' (get?_ne_none (h.says_iff.2 (says_of_get? hget)))

end LintDocument

/-- A layer is what it sets and what it switches off. -/
theorem LintLayer.ext_get? {l l' : LintLayer} (hget : ∀ key, l.get? key = l'.get? key)
    (hdisabled : l.disabled = l'.disabled) : l = l' := by
  have hcategories : l.categories = l'.categories := OrderedMap.ext fun c => hget (.category c)
  have hrules : l.rules = l'.rules := OrderedMap.ext fun name => hget (.rule name)
  have hflags : l.flags = l'.flags := OrderedMap.ext fun name => hget (.flag name)
  cases l
  cases l'
  cases hcategories
  cases hrules
  cases hflags
  cases hdisabled
  rfl

/-- Settings are what they set and what they switch off. -/
theorem LintConfig.ext_get? {c c' : LintConfig} (hget : ∀ key, c.get? key = c'.get? key)
    (hdisabled : ∀ id, id ∈ c.disabled ↔ id ∈ c'.disabled) : c = c' := by
  have hcategories : c.categories = c'.categories := OrderedMap.ext fun k => hget (.category k)
  have hrules : c.rules = c'.rules := OrderedMap.ext fun name => hget (.rule name)
  have hflags : c.flags = c'.flags := OrderedMap.ext fun name => hget (.flag name)
  have hids : c.disabled = c'.disabled := OrderedSet.ext hdisabled
  cases c
  cases c'
  cases hcategories
  cases hrules
  cases hflags
  cases hids
  rfl

/-- A document makes one layer in all orders of its entries exactly if it is consistent. -/
theorem LintDocument.layer_unique_iff {doc : LintDocument} :
    (∀ doc₁ doc₂, doc.Reordered doc₁ → doc.Reordered doc₂ → doc₁.layer = doc₂.layer) ↔
      ∀ key, doc.Consistent key := by
  constructor
  · intro h key v v' hv hv'
    obtain ⟨doc₁, hdoc₁, hget₁⟩ := exists_reordered hv
    obtain ⟨doc₂, hdoc₂, hget₂⟩ := exists_reordered hv'
    have hlayer : doc₁.get? key = doc₂.get? key := by
      rw [get?, get?, h doc₁ doc₂ hdoc₁ hdoc₂]
    exact Option.some.inj (hget₁.symm.trans (hlayer.trans hget₂))
  · intro h doc₁ doc₂ hdoc₁ hdoc₂
    refine LintLayer.ext_get? (fun key => ?_) ?_
    · exact (hdoc₁.get?_eq (h key)).trans (hdoc₂.get?_eq (h key)).symm
    · rw [layer, layer, hdoc₁.disabled, hdoc₂.disabled]

/-- Of documents, seen from above, the first one that says something on the key is consistent
on it. -/
def ConsistentAt (docs : List LintDocument) (key : SettingKey) : Prop :=
  ∀ above doc below, docs = above ++ doc :: below → (∃ v, doc.Says key v) →
    (∀ doc' ∈ above, ∀ v, ¬ doc'.Says key v) → doc.Consistent key

section Orders

variable {doc : LintDocument} {docs docs' : List LintDocument} {key : SettingKey}

theorem ConsistentAt.tail (h : ConsistentAt (doc :: docs) key) (hdoc : ∀ v, ¬ doc.Says key v) :
    ConsistentAt docs key := by
  rintro above first below rfl hfirst habove
  exact h (doc :: above) first below rfl hfirst (List.forall_mem_cons.2 ⟨hdoc, habove⟩)

/-- The first setting is the same in all orders of the entries of consistent documents. -/
theorem firstSetting_reordered (h : docs.Forall₂ LintDocument.Reordered docs')
    (hkey : ConsistentAt docs key) : firstSetting docs' key = firstSetting docs key := by
  induction h with
  | nil => rfl
  | @cons doc doc' docs docs' hdoc _ ih =>
    rw [firstSetting, List.findSome?_cons, firstSetting, List.findSome?_cons]
    by_cases hstated : ∃ v, doc.Says key v
    · have hconsistent : doc.Consistent key := hkey [] doc docs rfl hstated (by simp)
      obtain ⟨v, hv⟩ := hstated
      obtain ⟨v', hget⟩ := Option.ne_none_iff_exists'.1 (LintDocument.get?_ne_none hv)
      rw [hdoc.get?_eq hconsistent, hget]
    · have hdoc' : doc'.get? key = none := by
        refine Option.eq_none_iff_forall_ne_some.2 fun v hget => hstated ⟨v, ?_⟩
        exact hdoc.says_iff.1 (LintDocument.says_of_get? hget)
      have hnone : doc.get? key = none := by
        refine Option.eq_none_iff_forall_ne_some.2 fun v hget => hstated ⟨v, ?_⟩
        exact LintDocument.says_of_get? hget
      rw [hdoc', hnone]
      exact ih (hkey.tail (not_exists.1 hstated))

theorem disabled_reordered (h : docs.Forall₂ LintDocument.Reordered docs') :
    docs'.map (·.disabled) = docs.map (·.disabled) := by
  induction h with
  | nil => rfl
  | cons hdoc _ ih => rw [List.map_cons, List.map_cons, hdoc.disabled, ih]

/-- One document of several takes its entries in another order. -/
theorem forall₂_reordered {above below : List LintDocument} {doc' : LintDocument}
    (h : doc.Reordered doc') : (above ++ doc :: below).Forall₂ LintDocument.Reordered
      (above ++ doc' :: below) := by
  have hrefl (docs : List LintDocument) : docs.Forall₂ LintDocument.Reordered docs :=
    List.forall₂_same.2 fun doc _ => .refl doc
  exact List.rel_append (hrefl above) (.cons h (hrefl below))

end Orders

/-- The settings that documents make of the default ones, the first of them over all others. -/
def LintConfig.ofDocuments (docs : List LintDocument) : LintConfig :=
  (docs.reverse.map (·.layer)).foldl .applyLayer .default

namespace LintConfig

variable {docs docs' : List LintDocument} {key : SettingKey}

theorem get?_ofDocuments :
    (ofDocuments docs).get? key = (firstSetting docs key).or (default.get? key) := by
  rw [ofDocuments, get?_foldl_applyLayer, lastSetting, List.reverse_reverse]

/-- What the first document says stands that no document above it contradicts. -/
theorem get?_ofDocuments_of_first {above : List LintDocument} {doc : LintDocument}
    {v : key.Value} (below : List LintDocument) (habove : firstSetting above key = none)
    (hdoc : doc.get? key = some v) :
    (ofDocuments (above ++ doc :: below)).get? key = some v := by
  rw [get?_ofDocuments, firstSetting_append, habove, Option.none_or, firstSetting,
    List.findSome?_cons, hdoc, Option.some_or]

theorem mem_disabled_ofDocuments {id : String} : id ∈ (ofDocuments docs).disabled ↔
    ∃ ids ∈ docs.map (·.disabled), id ∈ ids.map canonicalName := by
  have hdefault : ¬ id ∈ LintConfig.default.disabled := OrderedSet.not_mem_empty
  rw [ofDocuments, mem_disabled_foldl_applyLayer, or_iff_right hdefault]
  simp only [List.mem_reverse, List.mem_map, exists_exists_and_eq_and]

/-- Documents make one configuration in all orders of their entries exactly if those on top are
consistent. -/
theorem ofDocuments_unique_iff :
    (∀ docs₁ docs₂, docs.Forall₂ LintDocument.Reordered docs₁ →
      docs.Forall₂ LintDocument.Reordered docs₂ → ofDocuments docs₁ = ofDocuments docs₂) ↔
    ∀ key, ConsistentAt docs key := by
  constructor
  · intro h key above doc below hdocs _ habove v v' hv hv'
    obtain ⟨doc₁, hdoc₁, hget₁⟩ := LintDocument.exists_reordered hv
    obtain ⟨doc₂, hdoc₂, hget₂⟩ := LintDocument.exists_reordered hv'
    have habove' : firstSetting above key = none := by
      refine List.findSome?_eq_none_iff.2 fun doc hdoc => ?_
      refine Option.eq_none_iff_forall_ne_some.2 fun v hget => ?_
      exact habove doc hdoc v (LintDocument.says_of_get? hget)
    have heq := h _ _ (hdocs ▸ forall₂_reordered hdoc₁) (hdocs ▸ forall₂_reordered hdoc₂)
    have htop₁ := get?_ofDocuments_of_first below habove' hget₁
    have htop₂ := get?_ofDocuments_of_first below habove' hget₂
    exact Option.some.inj (htop₁.symm.trans (heq ▸ htop₂))
  · intro h docs₁ docs₂ hdocs₁ hdocs₂
    refine ext_get? (fun key => ?_) fun id => ?_
    · rw [get?_ofDocuments, get?_ofDocuments, firstSetting_reordered hdocs₁ (h key),
        firstSetting_reordered hdocs₂ (h key)]
    · rw [mem_disabled_ofDocuments, mem_disabled_ofDocuments, disabled_reordered hdocs₁,
        disabled_reordered hdocs₂]

end LintConfig

namespace World

variable {w : World} {inputs : List FilePath} {places places' : List FilePlace}
  {docs docs' : List LintDocument} {explicit environment : Option FilePath} {config : LintConfig}

/-- `w.Stack inputs explicit environment places docs`: a run reads these documents, each of which
lies over those that come after it, and those that it finds in directories lead over these
places. -/
def Stack (w : World) (inputs : List FilePath) (explicit environment : Option FilePath)
    (places : List FilePlace) (docs : List LintDocument) : Prop :=
  ∃ directory found asked named, w.startDirectory inputs = .ok directory ∧
    w.Chains (w.documentsAbove directory) places found ∧ places.Nodup ∧ w.Apart explicit asked ∧
    w.Apart (environment.filter w.exists?) named ∧
    docs = named ++ asked ++ (found.map List.reverse).flatten

/-- `w.MayDiscover inputs explicit environment config`: the settings found by a run that takes the
entries of each document it reads in some order. -/
def MayDiscover (w : World) (inputs : List FilePath) (explicit environment : Option FilePath)
    (config : LintConfig) : Prop :=
  ∃ places docs docs', w.Stack inputs explicit environment places docs ∧
    docs.Forall₂ LintDocument.Reordered docs' ∧ config = .ofDocuments docs'

theorem Stack.det (h : w.Stack inputs explicit environment places docs)
    (h' : w.Stack inputs explicit environment places' docs') : places = places' ∧ docs = docs' := by
  obtain ⟨directory, found, asked, named, hdir, hfound, -, hasked, hnamed, rfl⟩ := h
  obtain ⟨directory', found', asked', named', hdir', hfound', -, hasked', hnamed', rfl⟩ := h'
  obtain rfl := Except.ok.inj (hdir.symm.trans hdir')
  obtain ⟨rfl, rfl⟩ := hfound.det hfound'
  rw [hasked.det hasked', hnamed.det hnamed']
  exact ⟨rfl, rfl⟩

/-- The order in which the entries are written is one of the orders. -/
theorem discover_eq_ok_iff_stack : w.discover inputs explicit environment = .ok config ↔
    ∃ places docs, w.Stack inputs explicit environment places docs ∧
      config = .ofDocuments docs := by
  have hreverse (found : List (List LintDocument)) (asked named : List LintDocument) :
      (named ++ asked ++ (found.map List.reverse).flatten).reverse =
        found.reverse.flatten ++ asked.reverse ++ named.reverse := by
    rw [List.reverse_append, List.reverse_append, List.reverse_flatten, List.map_map,
      List.reverse_involutive.comp_self, List.map_id, List.append_assoc]
  rw [discover_eq_ok_iff]
  constructor
  · rintro ⟨directory, places, found, asked, named, hdir, hfound, hnodup, hasked, hnamed, rfl⟩
    refine ⟨places, _, ⟨directory, found, asked, named, hdir, hfound, hnodup, hasked, hnamed, rfl⟩,
      ?_⟩
    rw [LintConfig.ofDocuments, hreverse]
  · rintro ⟨places, docs, ⟨directory, found, asked, named, hdir, hfound, hnodup, hasked, hnamed,
      rfl⟩, rfl⟩
    refine ⟨directory, places, found, asked, named, hdir, hfound, hnodup, hasked, hnamed, ?_⟩
    rw [LintConfig.ofDocuments, hreverse]

theorem mayDiscover_of_discover (h : w.discover inputs explicit environment = .ok config) :
    w.MayDiscover inputs explicit environment config := by
  obtain ⟨places, docs, hstack, rfl⟩ := discover_eq_ok_iff_stack.1 h
  exact ⟨places, docs, docs, hstack, List.forall₂_same.2 fun doc _ => .refl doc, rfl⟩

/-- When a document has one meaning, and a run one result. A document makes the same layer in all
orders of its entries exactly if it is consistent. Whether settings are found does not depend on the
orders; which ones does not exactly if, for each key, the topmost document that says something on it
is consistent on it. -/
theorem layer_and_discover_unique_iff (w : World) (inputs : List FilePath)
    (explicit environment : Option FilePath) :
    (∀ doc : LintDocument,
      (∀ doc₁ doc₂, doc.Reordered doc₁ → doc.Reordered doc₂ → doc₁.layer = doc₂.layer) ↔
        ∀ key, doc.Consistent key) ∧
    ((∃ config, w.MayDiscover inputs explicit environment config) ↔
      ∃ config, w.discover inputs explicit environment = .ok config) ∧
    ((∀ c c', w.MayDiscover inputs explicit environment c →
        w.MayDiscover inputs explicit environment c' → c = c') ↔
      ∀ places docs, w.Stack inputs explicit environment places docs →
        ∀ key, ConsistentAt docs key) := by
  refine ⟨fun doc => LintDocument.layer_unique_iff, ⟨?_, ?_⟩, ?_, ?_⟩
  · rintro ⟨_, places, docs, -, hstack, -, -⟩
    exact ⟨_, discover_eq_ok_iff_stack.2 ⟨places, docs, hstack, rfl⟩⟩
  · rintro ⟨config, hdiscover⟩
    exact ⟨config, mayDiscover_of_discover hdiscover⟩
  · intro h places docs hstack
    refine LintConfig.ofDocuments_unique_iff.1 fun docs₁ docs₂ hdocs₁ hdocs₂ => ?_
    exact h _ _ ⟨places, docs, docs₁, hstack, hdocs₁, rfl⟩
      ⟨places, docs, docs₂, hstack, hdocs₂, rfl⟩
  · rintro h _ _ ⟨places, docs, docs₁, hstack, hdocs₁, rfl⟩
      ⟨places', docs', docs₂, hstack', hdocs₂, rfl⟩
    obtain ⟨-, rfl⟩ := hstack.det hstack'
    exact LintConfig.ofDocuments_unique_iff.2 (h places docs hstack) docs₁ docs₂ hdocs₁ hdocs₂

end World

namespace Counter

/-- A document that spells one rule in two ways and gives it two levels. -/
def twoLevels : LintDocument := { rules := [("guarded-by", "warn"), ("guarded_by", "error")] }

/-- The same document with its entries the other way round. -/
def swappedLevels : LintDocument := { rules := [("guarded_by", "error"), ("guarded-by", "warn")] }

/-- A directory with such a document. -/
def twoSpellings : World :=
  .ofFiles [] [(["lint.yaml"], "rules:\n  guarded-by: warn\n  guarded_by: error",
    .fields [("rules", .fields [("guarded-by", .string "warn"), ("guarded_by", .string "error")])])]

private theorem exists_stack_twoSpellings :
    ∃ places doc, twoSpellings.Stack [] none none places [doc] ∧ doc.rules = twoLevels.rules := by
  have hdocument : (twoSpellings.document ⟨"/lint.yaml"⟩
      "rules:\n  guarded-by: warn\n  guarded_by: error").toOption.map
        (·.map fun doc => (doc.base, doc.rules)) = some (some (none, twoLevels.rules)) := by
    decide +kernel
  obtain ⟨found, hfound, hfields⟩ := exists_ok_of_map_toOption hdocument
  obtain ⟨doc, rfl, hdoc⟩ := Option.map_eq_some_iff.1 hfields
  obtain ⟨hbase, hrules⟩ := Prod.mk.inj hdoc
  have hreads : twoSpellings.Reads ⟨"/lint.yaml"⟩ ["/", "lint.yaml"] (some doc) :=
    ⟨by decide +kernel, _, by decide +kernel, hfound⟩
  have hpaths : twoSpellings.documentsAbove ⟨"/"⟩ = [⟨"/lint.yaml"⟩] := by decide +kernel
  have hdir : twoSpellings.startDirectory [] = .ok ⟨"/"⟩ := by decide +kernel
  refine ⟨[["/", "lint.yaml"]], doc,
    ⟨⟨"/"⟩, [[doc]], [], [], hdir, ?_, by simp, rfl, rfl, rfl⟩, hrules⟩
  rw [hpaths]
  exact .cons (.last hreads hbase) .nil

/-- The same entries in two orders give one rule two levels, and so two runs over the same files
find different settings. -/
theorem meaning_by_order :
    (twoLevels.Reordered swappedLevels ∧
      twoLevels.get? (.rule "guarded_by") = some Level.error ∧
      swappedLevels.get? (.rule "guarded_by") = some Level.warn) ∧
    ∃ c c', twoSpellings.MayDiscover [] none none c ∧ twoSpellings.MayDiscover [] none none c' ∧
      c.get? (.rule "guarded_by") = some Level.error ∧
      c'.get? (.rule "guarded_by") = some Level.warn := by
  have hspelling : canonicalName "guarded-by" = "guarded_by" := by decide +kernel
  have hname : canonicalName "guarded_by" = "guarded_by" := by decide +kernel
  have herror : Level.ofWord? "error" = some .error := by decide +kernel
  have hwarn : Level.ofWord? "warn" = some .warn := by decide +kernel
  have hswap : twoLevels.rules.Perm swappedLevels.rules := .swap ..
  have htwo := LintDocument.get?_rule_of_last twoLevels [_] rfl herror
  have hswapped := LintDocument.get?_rule_of_last swappedLevels [_] rfl hwarn
  rw [hname] at htwo
  rw [hspelling] at hswapped
  refine ⟨⟨⟨rfl, .refl _, hswap, rfl, rfl⟩, htwo, hswapped⟩, ?_⟩
  obtain ⟨places, doc, hstack, hrules⟩ := exists_stack_twoSpellings
  have hrun {level : Level} (hstated : doc.Says (.rule "guarded_by") level) :
      ∃ c, twoSpellings.MayDiscover [] none none c ∧
        c.get? (.rule "guarded_by") = some level := by
    obtain ⟨doc', hdoc', hget⟩ := LintDocument.exists_reordered hstated
    have hnone : firstSetting [] (.rule "guarded_by") = none := rfl
    exact ⟨_, ⟨places, [doc], [doc'], hstack, .cons hdoc' .nil, rfl⟩,
      LintConfig.get?_ofDocuments_of_first [] hnone hget⟩
  have hstatedError : doc.Says (.rule "guarded_by") Level.error :=
    ⟨("guarded_by", "error"), by simp [hrules, twoLevels], hname, herror⟩
  have hstatedWarn : doc.Says (.rule "guarded_by") Level.warn :=
    ⟨("guarded-by", "warn"), by simp [hrules, twoLevels], hspelling, hwarn⟩
  obtain ⟨c, hc, hget⟩ := hrun hstatedError
  obtain ⟨c', hc', hget'⟩ := hrun hstatedWarn
  exact ⟨c, c', hc, hc', hget, hget'⟩

end Counter

end LockDiscipline
