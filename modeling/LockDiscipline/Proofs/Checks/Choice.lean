import LockDiscipline.Proofs.Checks.Registration

/-! Choices of checks. A choice that a registry accepts names only what is registered there, so it
stays acceptable as the registry grows, and its scanner has one check for each id that is not
switched off. -/

namespace LockDiscipline

namespace Registration

variable {r : Registration} {flags : Flags} {check : Check} {build : Flags → Check}

/-- `r.Makes flags check`: the check is made by the first constructor that takes flags, or, if there
is none, by the first one that takes none. -/
inductive Makes (r : Registration) (flags : Flags) : Check → Prop
  | fromFlags {before build after} : r.factories = before ++ .withFlags build :: after →
      (∀ build', .withFlags build' ∉ before) → Makes r flags (build flags)
  | plain {before check after} : (∀ build, .withFlags build ∉ r.factories) →
      r.factories = before ++ .plain check :: after → (∀ check', .plain check' ∉ before) →
      Makes r flags check

theorem makes_of_fromFlags? (h : r.fromFlags? = some build) :
    r.Makes flags (build flags) := by
  obtain ⟨before, factory, after, hfactories, hbuild, hbefore⟩ := List.findSome?_eq_some_iff.1 h
  cases factory with
  | plain => cases hbuild
  | withFlags =>
    cases hbuild
    exact .fromFlags hfactories fun build' hmem => nomatch hbefore _ hmem

theorem makes_of_plain? (hnone : r.fromFlags? = none) (h : r.plain? = some check) :
    r.Makes flags check := by
  obtain ⟨before, factory, after, hfactories, hcheck, hbefore⟩ := List.findSome?_eq_some_iff.1 h
  cases factory with
  | withFlags => cases hcheck
  | plain =>
    cases hcheck
    exact .plain (fun build hmem => nomatch List.findSome?_eq_none_iff.1 hnone _ hmem) hfactories
      fun check' hmem => nomatch hbefore _ hmem

/-- The first constructor that takes flags makes the check. -/
theorem Makes.eq_of_fromFlags? (h : r.Makes flags check) (hbuild : r.fromFlags? = some build) :
    check = build flags := by
  cases h with
  | @fromFlags before build' after hfactories hbefore =>
    have hfirst : r.fromFlags? = some build' := by
      refine List.findSome?_eq_some_iff.2
        ⟨before, .withFlags build', after, hfactories, rfl, fun factory hmem => ?_⟩
      cases factory with
      | withFlags build => exact absurd hmem (hbefore build)
      | plain check => rfl
    cases hfirst.symm.trans hbuild
    rfl
  | plain hnone =>
    obtain ⟨factory, hmem, hfactory⟩ := List.exists_of_findSome?_eq_some hbuild
    cases factory with
    | withFlags build => exact absurd hmem (hnone build)
    | plain check => cases hfactory

/-- A check can be made whenever there is some constructor. -/
theorem exists_makes (h : r.factories ≠ []) (flags : Flags) :
    ∃ check, r.instantiate? flags = some check ∧ r.Makes flags check := by
  rw [instantiate?]
  cases hflags : r.fromFlags? with
  | some build => exact ⟨_, rfl, makes_of_fromFlags? hflags⟩
  | none =>
    cases hplain : r.plain? with
    | some check => exact ⟨check, rfl, makes_of_plain? hflags hplain⟩
    | none =>
      obtain ⟨factory, hmem⟩ := List.exists_mem_of_ne_nil _ h
      cases factory with
      | withFlags => exact nomatch List.findSome?_eq_none_iff.1 hflags _ hmem
      | plain => exact nomatch List.findSome?_eq_none_iff.1 hplain _ hmem

end Registration

namespace CheckRegistry

/-- `registry.Instantiates flags id check`: the check is made as it is registered under the id. -/
def Instantiates (registry : CheckRegistry) (flags : Flags) (id : String) (check : Check) : Prop :=
  ∃ r, registry.entries.get? id = some r ∧ r.Makes flags check

end CheckRegistry

namespace ScannerConfig

variable {c : ScannerConfig} {registry next : CheckRegistry}

/-- A choice is accepted if the registry knows all that it names. -/
theorem validate_eq_ok_iff : c.validate registry = .ok () ↔
    (∀ id ∈ c.disabled.toList, registry.contains id = true) ∧
      (∀ key ∈ c.flags.keys, registry.contains (Text.firstPiece '.' key) = true) ∧
      ∀ rule ∈ c.levels.configuredRules, registry.knowsRule rule = true := by
  unfold validate
  cases hdisabled : c.disabled.toList.find? fun id => !registry.contains id with
  | some id =>
    have hid := List.find?_some hdisabled
    have hmem := List.mem_of_find?_eq_some hdisabled
    refine ⟨nofun, fun h => ?_⟩
    simp [h.1 id hmem] at hid
  | none =>
    cases hflags : c.flags.keys.find? fun key => !registry.contains (Text.firstPiece '.' key) with
    | some key =>
      have hkey := List.find?_some hflags
      have hmem := List.mem_of_find?_eq_some hflags
      refine ⟨nofun, fun h => ?_⟩
      simp [h.2.1 key hmem] at hkey
    | none =>
      simp only [List.find?_eq_none, Bool.not_eq_true', Bool.not_eq_false] at hdisabled hflags
      cases hlevels : c.levels.configuredRules.filter fun rule => !registry.knowsRule rule with
      | cons rule rules =>
        obtain ⟨hmem, hrule⟩ := List.mem_filter.1 (hlevels ▸ List.mem_cons_self ..)
        refine ⟨nofun, fun h => ?_⟩
        simp [h.2.2 rule hmem] at hrule
      | nil =>
        simp only [List.filter_eq_nil_iff, Bool.not_eq_true', Bool.not_eq_false] at hlevels
        exact ⟨fun _ => ⟨hdisabled, hflags, hlevels⟩, fun _ => rfl⟩

/-- What a choice names is still known when more is registered. -/
theorem validate_of_extends (h : registry.Extends next) (hc : c.validate registry = .ok ()) :
    c.validate next = .ok () := by
  have hcontains {id : String} (hid : registry.contains id = true) : next.contains id = true := by
    obtain ⟨r, hr⟩ := CheckRegistry.contains_iff.1 hid
    exact CheckRegistry.contains_iff.2 ⟨r, h id r hr⟩
  obtain ⟨hdisabled, hflags, hlevels⟩ := validate_eq_ok_iff.1 hc
  refine validate_eq_ok_iff.2 ⟨fun id hid => hcontains (hdisabled id hid),
    fun key hkey => hcontains (hflags key hkey), fun rule hrule => ?_⟩
  obtain ⟨id, r, hr, hmem⟩ := CheckRegistry.knowsRule_iff.1 (hlevels rule hrule)
  exact CheckRegistry.knowsRule_iff.2 ⟨id, r, h id r hr, hmem⟩

theorem validated_eq_ok_iff {c' : ScannerConfig} :
    validated registry c = .ok c' ↔ c.validate registry = .ok () ∧ c = c' := by
  rw [validated, bind_eq_ok_iff]
  constructor
  · rintro ⟨⟨⟩, hvalid, h⟩
    exact ⟨hvalid, Except.ok.inj h⟩
  · rintro ⟨hvalid, rfl⟩
    exact ⟨(), hvalid, rfl⟩

/-- `c.ReturnedBy registry`: the choice was made of settings, or changed, against the registry. -/
inductive ReturnedBy (registry : CheckRegistry) (c : ScannerConfig) : Prop
  | ofLintConfig {levels} : ofLintConfig registry levels = .ok c → ReturnedBy registry c
  | withDisabled {earlier : ScannerConfig} {id} :
      earlier.withDisabled registry id = .ok c → ReturnedBy registry c
  | withFlag {earlier : ScannerConfig} {key value} :
      earlier.withFlag registry key value = .ok c → ReturnedBy registry c

theorem ReturnedBy.validate (h : c.ReturnedBy registry) : c.validate registry = .ok () := by
  cases h with
  | ofLintConfig h | withDisabled h | withFlag h =>
    obtain ⟨hvalid, hc⟩ := validated_eq_ok_iff.1 h
    rwa [hc] at hvalid

end ScannerConfig

namespace Scanner

variable {registry : CheckRegistry} {c : ScannerConfig}

/-- The scanner of an acceptable choice has one check for each id that is not switched off. -/
theorem exists_ofConfig (haccepted : registry.AllAccepted) (hc : c.validate registry = .ok ()) :
    ∃ s, ofConfig registry c = .ok s ∧ s.config = c ∧
      (registry.ids.filter (· ∉ c.disabled)).Forall₂ (registry.Instantiates c.flags) s.checks := by
  -- Each registration was accepted with a constructor, so no check is left unmade.
  have hmake : ∀ entry ∈ registry.entries.toList.filter fun entry => c.isEnabled entry.1,
      ∃ check, (entry.2.instantiate? c.flags).elim
          (Except.error (RegistryError.noConstructor entry.1)) Except.ok = Except.ok check ∧
        registry.Instantiates c.flags entry.1 check := by
    intro entry hentry
    have hr := OrderedMap.get?_eq_some_iff.2 (List.mem_of_mem_filter hentry)
    obtain ⟨check, hcheck, hmakes⟩ :=
      Registration.exists_makes (haccepted _ _ hr).2.factories c.flags
    exact ⟨check, by rw [hcheck, Option.elim_some], _, hr, hmakes⟩
  obtain ⟨checks, hchecks, hall⟩ := exists_mapM_eq_ok hmake
  have hids : registry.ids.filter (· ∉ c.disabled) =
      (registry.entries.toList.filter fun entry => c.isEnabled entry.1).map (·.1) := by
    rw [CheckRegistry.ids, OrderedMap.keys, List.filter_map]
    rfl
  refine ⟨⟨checks, c⟩, ?_, rfl, ?_⟩
  · rw [ofConfig, hc]
    refine bind_eq_ok_iff.2 ⟨(), rfl, bind_eq_ok_iff.2 ⟨checks, ?_, rfl⟩⟩
    rw [← hchecks]
    congr 1
    funext entry
    cases entry.2.instantiate? c.flags <;> rfl
  · rw [hids, List.forall₂_map_left_iff]
    exact hall

theorem validate_of_ofConfig {s : Scanner} (h : ofConfig registry c = .ok s) :
    c.validate registry = .ok () := by
  obtain ⟨⟨⟩, hvalid, -⟩ := bind_eq_ok_iff.1 h
  exact hvalid

/-- An accepted choice stays usable. Whatever calls of registration built the registry that it was
accepted against, and whatever calls follow, it is acceptable, and its scanner has one check for
each registered id that is not switched off, by ascending id, and made from the flags wherever there
is a way to. A call that is refused leaves its registry as it was. -/
theorem ofConfig_of_returnedBy (calls further : List Registration)
    (h : c.ReturnedBy (.afterCalls .empty calls)) :
    let later := (CheckRegistry.empty.afterCalls calls).afterCalls further
    c.validate later = .ok () ∧
      (∃ s, ofConfig later c = .ok s ∧ s.config = c ∧
        (later.ids.filter (· ∉ c.disabled)).Forall₂ (later.Instantiates c.flags) s.checks) ∧
      later.ids.Pairwise (· < ·) ∧ (∀ id, id ∈ later.ids ↔ later.contains id = true) ∧
      ∀ (r : Registration) registry e next,
        (CheckRegistry.registerInPlace r).run registry = .error e next →
          registry.register r = .error e ∧ next = registry := by
  intro later
  have haccepted : later.AllAccepted :=
    CheckRegistry.allAccepted_afterCalls
      (CheckRegistry.allAccepted_afterCalls CheckRegistry.allAccepted_empty calls) further
  have hvalid : c.validate later = .ok () :=
    ScannerConfig.validate_of_extends (CheckRegistry.extends_afterCalls _ further) h.validate
  exact ⟨hvalid, exists_ofConfig haccepted hvalid, later.ids_ascending,
    fun _ => CheckRegistry.mem_ids_iff,
    fun _ _ _ _ hrun => CheckRegistry.unchanged_of_refused hrun⟩

end Scanner

namespace Sample

/-- A check that reports nothing. -/
def silent (id : String) : Check := ⟨id, fun _ => []⟩

/-- A check with a constructor of each kind; a flag gives the check its name. -/
def audit : Registration :=
  { id := "audit", rules := ["guarded_by"]
    factories := [.plain (silent "plain"),
      .withFlags fun flags => silent ((flags.get? "audit.name").getD "unnamed")] }

/-- A check that is made without flags. -/
def census : Registration := ⟨"census", ["unresolvable_guard"], [.plain (silent "census")]⟩

/-- No check, as nothing makes it. -/
def unmade : Registration := ⟨"unmade", [], []⟩

/-- The default choice with a name for the check. -/
def namedAudit : ScannerConfig :=
  { ScannerConfig.default with flags := OrderedMap.insert ∅ "audit.name" "ledger" }

end Sample

open Sample

/-- Of four calls two are refused, one of them after the choice was made. -/
theorem Scanner.ofConfig_of_returnedBy_namedAudit :
    namedAudit.ReturnedBy (.afterCalls .empty [census, unmade, audit]) ∧
      let later := (CheckRegistry.empty.afterCalls [census, unmade, audit]).afterCalls
        [census, { census with id := "count" }]
      namedAudit.validate later = .ok () ∧ later.ids = ["audit", "census", "count"] ∧
        ∃ s, ofConfig later namedAudit = .ok s ∧
          s.checks.map (·.id) = ["ledger", "census", "census"] := by
  have hflag : ScannerConfig.default.withFlag (.afterCalls .empty [census, unmade, audit])
      "audit.name" "ledger" = .ok namedAudit := by decide +kernel
  obtain ⟨hvalid, ⟨s, hs, -⟩, -⟩ :=
    ofConfig_of_returnedBy [census, unmade, audit] [census, { census with id := "count" }]
      (.withFlag hflag)
  refine ⟨.withFlag hflag, hvalid, by decide +kernel, s, hs, ?_⟩
  have hids : (ofConfig ((CheckRegistry.empty.afterCalls [census, unmade, audit]).afterCalls
      [census, { census with id := "count" }]) namedAudit).toOption.map
        (fun s => s.checks.map (·.id)) = some ["ledger", "census", "census"] := by decide +kernel
  rw [hs] at hids
  exact Option.some.inj hids

end LockDiscipline
