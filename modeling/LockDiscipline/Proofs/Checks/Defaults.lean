import LockDiscipline.Proofs.Checks.Choice

/-! The default choice. It sets the level of one rule, and so it fits the registries in which some
check reports under that rule, but no others. -/

namespace LockDiscipline

namespace ScannerConfig

variable {c : ScannerConfig} {registry : CheckRegistry}

theorem exists_validated_iff :
    (∃ c', validated registry c = .ok c') ↔ c.validate registry = .ok () := by
  simp only [validated_eq_ok_iff, exists_and_left, exists_eq', and_true]

/-- The default levels name one rule. -/
theorem configuredRules_default :
    LintConfig.default.configuredRules = [Rule.unresolvableGuard.name] := by decide +kernel

theorem validate_default_with_flags (flags : Flags) :
    validate registry { default with flags } = .ok () ↔
      (∀ key ∈ flags.keys, registry.contains (Text.firstPiece '.' key) = true) ∧
        registry.Reports Rule.unresolvableGuard.name := by
  have hdisabled : default.disabled.toList = [] := rfl
  have hlevels : default.levels = .default := rfl
  rw [validate_eq_ok_iff]
  simp only [hdisabled, hlevels, configuredRules_default, List.not_mem_nil, List.mem_singleton,
    forall_eq, false_implies, implies_true, true_and, CheckRegistry.knowsRule_iff]

theorem validate_default :
    default.validate registry = .ok () ↔ registry.Reports Rule.unresolvableGuard.name := by
  have hkeys : ∀ key ∈ (∅ : Flags).keys, registry.contains (Text.firstPiece '.' key) = true := nofun
  exact (validate_default_with_flags ∅).trans (and_iff_right hkeys)

theorem exists_withFlag_default (key value : String) :
    (∃ c, default.withFlag registry key value = .ok c) ↔
      registry.contains (Text.firstPiece '.' key) = true ∧
        registry.Reports Rule.unresolvableGuard.name := by
  have hkeys : (default.flags.insert key value).keys = [key] := rfl
  refine exists_validated_iff.trans ((validate_default_with_flags _).trans ?_)
  rw [hkeys, List.forall_mem_singleton]

/-- The default choice fits a registry if and only if some check there was registered with the rule
whose level it sets. Then its scanner has every check, by ascending id; so it is with the choice of
the default settings, and with a flag on the default choice, provided that a check is registered
under what stands before the first dot of the flag. -/
theorem default_fits_iff (calls : List Registration) :
    let registry := CheckRegistry.empty.afterCalls calls
    (default.validate registry = .ok () ↔ registry.Reports Rule.unresolvableGuard.name) ∧
      ((∃ s, Scanner.ofConfig registry default = .ok s) ↔
        registry.Reports Rule.unresolvableGuard.name) ∧
      (∀ s, Scanner.ofConfig registry default = .ok s →
        registry.ids.Forall₂ (registry.Instantiates ∅) s.checks) ∧
      registry.ids.Pairwise (· < ·) ∧
      ((∃ c, ofLintConfig registry .default = .ok c) ↔
        registry.Reports Rule.unresolvableGuard.name) ∧
      (∀ key value, (∃ c, default.withFlag registry key value = .ok c) ↔
        registry.contains (Text.firstPiece '.' key) = true ∧
          registry.Reports Rule.unresolvableGuard.name) ∧
      ∀ id option value, registry.contains id = true → '.' ∉ id.toList →
        ((∃ c, default.withFlag registry (id ++ "." ++ option) value = .ok c) ↔
          registry.Reports Rule.unresolvableGuard.name) := by
  intro registry
  have haccepted : registry.AllAccepted :=
    CheckRegistry.allAccepted_afterCalls CheckRegistry.allAccepted_empty calls
  have hnone : registry.ids.filter (· ∉ default.disabled) = registry.ids :=
    List.filter_eq_self.2 fun id _ => decide_eq_true OrderedSet.not_mem_empty
  have hscanner (hvalid : default.validate registry = .ok ()) : ∃ s,
      Scanner.ofConfig registry default = .ok s ∧
        registry.ids.Forall₂ (registry.Instantiates ∅) s.checks := by
    obtain ⟨s, hs, -, hchecks⟩ := Scanner.exists_ofConfig haccepted hvalid
    exact ⟨s, hs, hnone ▸ hchecks⟩
  refine ⟨validate_default, ⟨?_, ?_⟩, fun s hs => ?_, registry.ids_ascending,
    exists_validated_iff.trans validate_default, exists_withFlag_default, ?_⟩
  · rintro ⟨s, hs⟩
    exact validate_default.1 (Scanner.validate_of_ofConfig hs)
  · intro hreports
    obtain ⟨s, hs, -⟩ := hscanner (validate_default.2 hreports)
    exact ⟨s, hs⟩
  · obtain ⟨s', hs', hchecks⟩ := hscanner (Scanner.validate_of_ofConfig hs)
    cases hs.symm.trans hs'
    exact hchecks
  · intro id option value hid hdot
    have hfirst : Text.firstPiece '.' (id ++ "." ++ option) = id := Text.firstPiece_append hdot option
    rw [exists_withFlag_default, hfirst, and_iff_right hid]

end ScannerConfig

open Sample

/-- With a check under the rule, every check is made, and a flag of a registered check is taken. -/
theorem ScannerConfig.default_fits_iff_census :
    let registry := CheckRegistry.empty.afterCalls [census, audit]
    default.validate registry = .ok () ∧ (∃ s, Scanner.ofConfig registry default = .ok s ∧
        ["audit", "census"].Forall₂ (registry.Instantiates ∅) s.checks) ∧
      (∃ c, default.withFlag registry ("audit" ++ "." ++ "name") "ledger" = .ok c) ∧
      ∃ c, ofLintConfig registry .default = .ok c := by
  intro registry
  have hreports : registry.Reports Rule.unresolvableGuard.name :=
    CheckRegistry.knowsRule_iff.1 (by decide +kernel)
  have hids : registry.ids = ["audit", "census"] := by decide +kernel
  obtain ⟨hvalid, hscanner, hchecks, -, hsettings, -, hflag⟩ := default_fits_iff [census, audit]
  obtain ⟨s, hs⟩ := hscanner.2 hreports
  exact ⟨hvalid.2 hreports, ⟨s, hs, hids ▸ hchecks s hs⟩,
    (hflag "audit" "name" "ledger" (by decide +kernel) (by decide)).2 hreports,
    hsettings.2 hreports⟩

namespace Counter

/-- A registry with one check, which does not report under the rule of the default level. -/
def auditOnly : CheckRegistry := ⟨OrderedMap.insert ∅ audit.id audit⟩

/-- A check whose id has a dot. -/
def dotted : Registration := { census with id := "audit.census" }

/-- A registry with a check whose id has a dot. -/
def dottedOnly : CheckRegistry := ⟨OrderedMap.insert ∅ dotted.id dotted⟩

/-- Calls of registration succeed, but the default choice does not fit: no check reports under the
rule whose level it sets, or the flag is that of a check whose id has a dot. -/
theorem default_unfit :
    (CheckRegistry.empty.register audit = .ok auditOnly ∧
      ScannerConfig.default.validate auditOnly =
        .error (.levelsOfUnknownRules ["unresolvable_guard"]) ∧
      (∀ s, Scanner.ofConfig auditOnly .default ≠ .ok s) ∧
      ScannerConfig.default.withFlag auditOnly "audit.name" "ledger" =
        .error (.levelsOfUnknownRules ["unresolvable_guard"]) ∧
      ScannerConfig.ofLintConfig auditOnly .default =
        .error (.levelsOfUnknownRules ["unresolvable_guard"])) ∧
    CheckRegistry.empty.register dotted = .ok dottedOnly ∧
      ScannerConfig.default.withFlag dottedOnly "audit.census.name" "ledger" =
        .error (.flagOfUnknownCheck "audit.census.name") := by
  have hvalid : ScannerConfig.default.validate auditOnly =
      .error (.levelsOfUnknownRules ["unresolvable_guard"]) := by decide +kernel
  refine ⟨⟨?_, hvalid, fun s hs => ?_, by decide +kernel, by decide +kernel⟩, ?_,
    by decide +kernel⟩
  · exact CheckRegistry.register_eq_ok_iff.2 ⟨rfl, ⟨nofun, by decide +kernel⟩, rfl⟩
  · rw [Scanner.validate_of_ofConfig hs] at hvalid
    cases hvalid
  · exact CheckRegistry.register_eq_ok_iff.2 ⟨rfl, ⟨nofun, by decide +kernel⟩, rfl⟩

end Counter

end LockDiscipline
