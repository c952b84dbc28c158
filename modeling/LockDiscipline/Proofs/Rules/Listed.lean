import LockDiscipline.Proofs.Checks.Builtin
import LockDiscipline.Proofs.Rules.Silenced

/-! Levels of the rules that checks are registered with. A rule may be listed by its name or by its
code, but a level is stored under the canonical name of what is written, and looked up under the
name of the rule. So a level that is set for a listed rule counts exactly if the rule is not written
as its code. -/

namespace LockDiscipline

namespace CheckRegistry

variable {registry next : CheckRegistry} {written : String}

theorem Reports.of_extends (h : registry.Extends next) (hreports : registry.Reports written) :
    next.Reports written := by
  obtain ⟨id, r, hr, hmem⟩ := hreports
  exact ⟨id, r, h id r hr, hmem⟩

/-- Each rule that a check of the registry lists was known at its registration. -/
theorem AllAccepted.exists_find? (h : registry.AllAccepted) (hreports : registry.Reports written) :
    ∃ r, Rule.find? written = some r := by
  obtain ⟨id, registration, hget, hmem⟩ := hreports
  exact Option.isSome_iff_exists.1 ((h id registration hget).2.rules written hmem)

end CheckRegistry

namespace Rule

variable {r : Rule} {written : String}

theorem mem_all_of_find? (h : find? written = some r) : r ∈ all := List.mem_of_find?_eq_some h

/-- What means a rule is its code or spells its name, but not both. -/
theorem canonicalName_eq_name_iff (h : find? written = some r) :
    canonicalName written = r.name ↔ r.hasCode written = false := by
  have hr : r ∈ all := mem_all_of_find? h
  constructor
  · intro hname
    refine Bool.eq_false_iff.2 fun hcode => ?_
    have hne : canonicalName r.code ≠ r.name := (List.nodup_cons.1 (nodup_names hr)).1 ∘ (· ▸ .head _)
    exact hne (canonicalName_of_hasCode hcode ▸ hname)
  · intro hcode
    have hmeant := List.find?_some h
    simpa [hcode, eq_comm] using hmeant

end Rule

theorem LintContext.emit?_eq {cx : LintContext} {r : Rule} {allowance : Allowance} {message : String}
    {span : Option Span} {notes : List String} {suggestions : List Suggestion} :
    cx.emit? r allowance message span notes suggestions =
      if cx.level r allowance = .allow then none
      else some { rule := r, level := cx.level r allowance, message, file := cx.unit.path, span,
                  notes, suggestions } := by
  rw [emit?]
  cases cx.level r allowance <;> rfl

namespace LintConfig

variable {c : LintConfig} {registry : CheckRegistry} {r : Rule} {written : String} {level : Level}

/-- Whether a level that is set for what is written counts for a rule: the registry accepts the
settings, and whatever is found under the rule, and is not silenced, is reported at that level. -/
def SetsLevel (registry : CheckRegistry) (c : LintConfig) (written : String) (r : Rule)
    (level : Level) : Prop :=
  ∃ c', ScannerConfig.ofLintConfig registry (c.setRuleLevel written level) = .ok c' ∧
    ∀ unit allowance, allowance.allows r.category r.name = false →
      ∀ message span notes suggestions,
        LintContext.emit? ⟨unit, c'.levels⟩ r allowance message span notes suggestions =
          if level = .allow then none
          else some { rule := r, level, message, file := unit.path, span, notes, suggestions }

/-- Accepted settings stay so with one more level exactly if some check lists the rule just as the
level is stored. -/
theorem exists_ofLintConfig_setRuleLevel (hc : ∃ c', ScannerConfig.ofLintConfig registry c = .ok c') :
    (∃ c', ScannerConfig.ofLintConfig registry (c.setRuleLevel written level) = .ok c') ↔
      registry.Reports (canonicalName written) := by
  rw [ScannerConfig.ofLintConfig, ScannerConfig.exists_validated_iff,
    ScannerConfig.validate_eq_ok_iff] at hc ⊢
  obtain ⟨hdisabled, hflags, hlevels⟩ := hc
  constructor
  · rintro ⟨-, -, hall⟩
    exact CheckRegistry.knowsRule_iff.1 (hall _ (mem_configuredRules_setRuleLevel.2 (.inl rfl)))
  · intro hreports
    refine ⟨hdisabled, hflags, fun rule hrule => ?_⟩
    rcases mem_configuredRules_setRuleLevel.1 hrule with rfl | hrule
    · exact CheckRegistry.knowsRule_iff.2 hreports
    · exact hlevels rule hrule

theorem levels_of_ofLintConfig {c' : ScannerConfig}
    (h : ScannerConfig.ofLintConfig registry c = .ok c') : c'.levels = c := by
  obtain ⟨-, rfl⟩ := ScannerConfig.validated_eq_ok_iff.1 h
  rfl

theorem level_of_not_allows {cx : LintContext} {allowance : Allowance}
    (h : allowance.allows r.category r.name = false) :
    cx.level r allowance = cx.config.levelFor r.name r.category r.defaultLevel := by
  rw [LintContext.level, h]
  rfl

theorem setsLevel_iff : c.SetsLevel registry written r level ↔
    (∃ c', ScannerConfig.ofLintConfig registry (c.setRuleLevel written level) = .ok c') ∧
      (c.setRuleLevel written level).levelFor r.name r.category r.defaultLevel = level := by
  constructor
  · rintro ⟨c', hc', hemit⟩
    refine ⟨⟨c', hc'⟩, ?_⟩
    have hnone : ({} : Allowance).allows r.category r.name = false := rfl
    have h := hemit { path := "", types := [] } {} hnone "" none [] []
    rw [LintContext.emit?_eq, level_of_not_allows hnone, levels_of_ofLintConfig hc'] at h
    grind
  · rintro ⟨⟨c', hc'⟩, hlevel⟩
    refine ⟨c', hc', fun unit allowance hallows message span notes suggestions => ?_⟩
    rw [LintContext.emit?_eq, level_of_not_allows hallows, levels_of_ofLintConfig hc', hlevel]

/-- A level that is set for a rule in the spelling of a registration counts exactly if the spelling is
not the code of the rule. The code is refused if no check lists it in small letters, and where it is
taken nothing changes for the rule. -/
theorem setsLevel_iff_of_reports (calls : List Registration) {written : String}
    (hreports : (CheckRegistry.builtin.afterCalls calls).Reports written) :
    let registry := CheckRegistry.builtin.afterCalls calls
    (∃ c', ScannerConfig.ofLintConfig registry .default = .ok c') ∧
    ∃ r, Rule.find? written = some r ∧
      ∀ c : LintConfig, (∃ c', ScannerConfig.ofLintConfig registry c = .ok c') →
        ((∀ level, c.SetsLevel registry written r level) ↔ r.hasCode written = false) ∧
        (r.hasCode written = true → ∀ level,
          ((∃ c', ScannerConfig.ofLintConfig registry (c.setRuleLevel written level) = .ok c') ↔
            registry.Reports (canonicalName r.code)) ∧
          (c.setRuleLevel written level).levelFor r.name r.category r.defaultLevel =
            c.levelFor r.name r.category r.defaultLevel) := by
  intro registry
  have hknown {r : Rule} (hr : r ∈ Rule.all) : registry.Reports r.name :=
    (CheckRegistry.reports_builtin hr).of_extends (CheckRegistry.extends_afterCalls _ calls)
  have hdefault : ∃ c', ScannerConfig.ofLintConfig registry .default = .ok c' :=
    ScannerConfig.exists_validated_iff.2
      (ScannerConfig.validate_default.2 (hknown (r := .unresolvableGuard) (by decide)))
  obtain ⟨r, hfind⟩ := (CheckRegistry.allAccepted_afterCalls CheckRegistry.allAccepted_builtin
    calls).exists_find? hreports
  have hr : r ∈ Rule.all := Rule.mem_all_of_find? hfind
  have hname := Rule.canonicalName_eq_name_iff hfind
  -- The level is looked up under the name of the rule, which the code does not spell.
  have hlevel (c : LintConfig) (level : Level) :
      (c.setRuleLevel written level).levelFor r.name r.category r.defaultLevel =
        if r.hasCode written = false then level else c.levelFor r.name r.category r.defaultLevel := by
    simp only [levelFor_setRuleLevel, Rule.canonicalName_name hr, eq_comm (a := r.name), hname]
  refine ⟨hdefault, r, hfind, fun c hc => ⟨⟨fun hsets => ?_, fun hcode level => ?_⟩, ?_⟩⟩
  · by_contra hcode
    have hwarn := (setsLevel_iff.1 (hsets .warn)).2
    have herror := (setsLevel_iff.1 (hsets .error)).2
    rw [hlevel, if_neg hcode] at hwarn herror
    cases hwarn.symm.trans herror
  · refine setsLevel_iff.2 ⟨(exists_ofLintConfig_setRuleLevel hc).2 ?_, by rw [hlevel, if_pos hcode]⟩
    exact hname.2 hcode ▸ hknown hr
  · intro hcode level
    refine ⟨?_, by rw [hlevel, if_neg (by simp [hcode])]⟩
    rw [exists_ofLintConfig_setRuleLevel hc, Rule.canonicalName_of_hasCode hcode]

end LintConfig

open Sample

/-- A check lists the rule in capitals and with a hyphen; the level counts. -/
theorem LintConfig.setsLevel_iff_of_reports_hyphen :
    let registry := CheckRegistry.builtin.afterCalls [{ audit with rules := ["GUARDED-BY"] }]
    registry.Reports "GUARDED-BY" ∧
      (∃ c', ScannerConfig.ofLintConfig registry .default = .ok c') ∧
      LintConfig.default.SetsLevel registry "GUARDED-BY" .guardedBy .warn := by
  intro registry
  have hreports : registry.Reports "GUARDED-BY" := CheckRegistry.knowsRule_iff.1 (by decide +kernel)
  obtain ⟨hdefault, r, hr, hsets⟩ :=
    setsLevel_iff_of_reports [{ audit with rules := ["GUARDED-BY"] }] hreports
  have hfind : Rule.find? "GUARDED-BY" = some .guardedBy := by decide +kernel
  cases hfind.symm.trans hr
  exact ⟨hreports, hdefault, (hsets .default hdefault).1.2 (by decide +kernel) .warn⟩

namespace Counter

/-- A check that lists a rule as written. -/
def listing (written : String) : Registration := { audit with rules := [written] }

/-- The checks of the library and the one that lists the rule. -/
def withListing (written : String) : CheckRegistry :=
  ⟨CheckRegistry.builtin.entries.insert audit.id (listing written)⟩

theorem register_listing {written : String} {r : Rule} (h : Rule.find? written = some r) :
    CheckRegistry.builtin.register (listing written) = .ok (withListing written) := by
  have haccepted : (listing written).Accepted :=
    ⟨nofun, fun rule hrule => by rw [List.mem_singleton.1 hrule, h]; rfl⟩
  have hnew : CheckRegistry.builtin.contains "audit" = false := by decide +kernel
  exact CheckRegistry.register_eq_ok_iff.2 ⟨hnew, haccepted, rfl⟩

/-- A check lists a rule by its code. A level set for the code is refused, or, if the code is listed
in small letters, taken without effect: the rule is still reported at the level of its category. -/
theorem not_setsLevel_code :
    (Rule.find? "GUARD002" = some .staticGuardMismatch ∧
      CheckRegistry.builtin.register (listing "GUARD002") = .ok (withListing "GUARD002") ∧
      ScannerConfig.ofLintConfig (withListing "GUARD002")
        (LintConfig.default.setRuleLevel "GUARD002" .warn) =
          .error (.levelsOfUnknownRules ["guard002"])) ∧
    Rule.find? "guard002" = some .staticGuardMismatch ∧
      CheckRegistry.builtin.register (listing "guard002") = .ok (withListing "guard002") ∧
      ∃ c, ScannerConfig.ofLintConfig (withListing "guard002")
          (LintConfig.default.setRuleLevel "guard002" .warn) = .ok c ∧
        ((LintContext.mk default c.levels).emit? .staticGuardMismatch {} "" none [] []).map
          (·.level) = some .error := by
  have hfind : Rule.find? "GUARD002" = some .staticGuardMismatch := by decide +kernel
  have hsmall : Rule.find? "guard002" = some .staticGuardMismatch := by
    -- Compared with the text itself, each code is spelled out only once.
    have hname : canonicalName "guard002" = "guard002" := by decide +kernel
    have hlower : Text.lower "guard002" = "guard002" := by decide +kernel
    have hother : Text.lower "GUARD001" ≠ "guard002" := by decide +kernel
    have hcode : Text.lower "GUARD002" = "guard002" := by decide +kernel
    simp [Rule.find?, Rule.all, Rule.hasCode, Rule.guardedBy, Rule.staticGuardMismatch, hname,
      hlower, hother, hcode]
  refine ⟨⟨hfind, register_listing hfind, by decide +kernel⟩, hsmall, register_listing hsmall,
    ⟨LintConfig.default.setRuleLevel "guard002" .warn, ∅, ∅⟩, ?_, ?_⟩
  · decide +kernel
  · decide +kernel

end Counter

end LockDiscipline
