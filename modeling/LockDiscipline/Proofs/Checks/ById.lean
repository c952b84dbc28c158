import LockDiscipline.Proofs.Checks.Defaults
import LockDiscipline.Proofs.Related
import LockDiscipline.Proofs.Rules.CanonicalName

/-! Checks switched off and configured by their ids. Registration takes any id, a check is switched
off under the canonical name of its id, and a flag belongs to the check whose id stands before the
first dot. So an id serves as it was registered exactly if it is its own canonical name and if what
stands before its first dot is an id, too. -/

namespace LockDiscipline

namespace ScannerConfig

variable {c c' : ScannerConfig} {registry : CheckRegistry} {id key option value : String}

theorem withDisabled_eq_ok_iff (hc : c.validate registry = .ok ()) :
    c.withDisabled registry id = .ok c' ↔ registry.contains (canonicalName id) = true ∧
      c' = { c with disabled := c.disabled.insert (canonicalName id) } := by
  obtain ⟨hdisabled, hflags, hlevels⟩ := validate_eq_ok_iff.1 hc
  rw [withDisabled, validated_eq_ok_iff, validate_eq_ok_iff]
  constructor
  · rintro ⟨⟨hall, -⟩, rfl⟩
    exact ⟨hall _ (OrderedSet.mem_insert.2 (.inl rfl)), rfl⟩
  · rintro ⟨hid, rfl⟩
    refine ⟨⟨fun other hother => ?_, hflags, hlevels⟩, rfl⟩
    rcases OrderedSet.mem_insert.1 hother with rfl | hother
    · exact hid
    · exact hdisabled other hother

theorem withFlag_eq_ok_iff (hc : c.validate registry = .ok ()) :
    c.withFlag registry key value = .ok c' ↔
      registry.contains (Text.firstPiece '.' key) = true ∧
        c' = { c with flags := c.flags.insert key value } := by
  obtain ⟨hdisabled, hflags, hlevels⟩ := validate_eq_ok_iff.1 hc
  rw [withFlag, validated_eq_ok_iff, validate_eq_ok_iff]
  constructor
  · rintro ⟨⟨-, hall, -⟩, rfl⟩
    exact ⟨hall _ (OrderedMap.mem_keys_insert.2 (.inl rfl)), rfl⟩
  · rintro ⟨hkey, rfl⟩
    refine ⟨⟨hdisabled, fun other hother => ?_, hlevels⟩, rfl⟩
    rcases OrderedMap.mem_keys_insert.1 hother with rfl | hother
    · exact hkey
    · exact hflags other hother

/-- Whether the check `id` can be switched off by its id: the changed choice is accepted, does not
have the check, and its scanner has the other checks that were on, made as before. -/
def SwitchesOff (registry : CheckRegistry) (c : ScannerConfig) (id : String) : Prop :=
  ∃ c', c.withDisabled registry id = .ok c' ∧ c'.isEnabled id = false ∧
    ∃ s, Scanner.ofConfig registry c' = .ok s ∧
      (registry.ids.filter fun other => c.isEnabled other ∧ other ≠ id).Forall₂
        (registry.Instantiates c.flags) s.checks

/-- Whether an option of the check `id` can be set by its id: the changed choice is accepted, has the
new flag among those of before, and the check, if it is on, is made from these flags wherever there
is a way to. -/
def TakesFlag (registry : CheckRegistry) (c : ScannerConfig) (id option value : String) : Prop :=
  ∃ c', c.withFlag registry (id ++ "." ++ option) value = .ok c' ∧
    (∀ key, c'.flags.get? key =
      if key = id ++ "." ++ option then some value else c.flags.get? key) ∧
    ∃ s, Scanner.ofConfig registry c' = .ok s ∧
      (registry.ids.filter fun other => c.isEnabled other).Forall₂
        (registry.Instantiates c'.flags) s.checks ∧
      (c.isEnabled id = true → ∀ r build, registry.entries.get? id = some r →
        r.fromFlags? = some build → build c'.flags ∈ s.checks)

theorem switchesOff_of_canonicalName (haccepted : registry.AllAccepted)
    (hc : c.validate registry = .ok ()) (hid : registry.contains id = true)
    (hname : canonicalName id = id) : c.SwitchesOff registry id := by
  let c' : ScannerConfig := { c with disabled := c.disabled.insert id }
  have hok : c.withDisabled registry id = .ok c' :=
    (withDisabled_eq_ok_iff hc).2 ⟨hname.symm ▸ hid, by rw [hname]⟩
  obtain ⟨s, hs, -, hchecks⟩ :=
    Scanner.exists_ofConfig haccepted (ReturnedBy.withDisabled hok).validate
  have hfilter : registry.ids.filter (· ∉ c'.disabled) =
      registry.ids.filter fun other => c.isEnabled other ∧ other ≠ id := by
    refine List.filter_congr fun other _ => ?_
    simp [c', isEnabled, and_comm]
  exact ⟨c', hok, by simp [c', isEnabled], s, hs, hfilter ▸ hchecks⟩

theorem canonicalName_of_switchesOff (hc : c.validate registry = .ok ())
    (hon : c.isEnabled id = true) (h : c.SwitchesOff registry id) : canonicalName id = id := by
  obtain ⟨c', hok, hoff, -⟩ := h
  obtain ⟨-, rfl⟩ := (withDisabled_eq_ok_iff hc).1 hok
  simp only [isEnabled, decide_eq_false_iff_not, decide_eq_true_eq, not_not,
    OrderedSet.mem_insert] at hoff hon
  exact (hoff.resolve_right hon).symm

/-- A flag is taken by what stands before the first dot of its key. -/
theorem takesFlag_iff (haccepted : registry.AllAccepted) (hc : c.validate registry = .ok ())
    (hid : registry.contains id = true) :
    c.TakesFlag registry id option value ↔ registry.contains (Text.firstPiece '.' id) = true := by
  have hkey : Text.firstPiece '.' (id ++ "." ++ option) = Text.firstPiece '.' id :=
    Text.firstPiece_append_sep '.' id option
  constructor
  · rintro ⟨c', hok, -⟩
    exact hkey ▸ ((withFlag_eq_ok_iff hc).1 hok).1
  · intro hfirst
    let c' : ScannerConfig := { c with flags := c.flags.insert (id ++ "." ++ option) value }
    have hok : c.withFlag registry (id ++ "." ++ option) value = .ok c' :=
      (withFlag_eq_ok_iff hc).2 ⟨hkey.symm ▸ hfirst, rfl⟩
    obtain ⟨s, hs, -, hchecks⟩ :=
      Scanner.exists_ofConfig haccepted (ReturnedBy.withFlag hok).validate
    refine ⟨c', hok, fun key => OrderedMap.get?_insert .., s, hs, hchecks, ?_⟩
    intro hon r build hr hbuild
    have hmem : id ∈ registry.ids.filter (· ∉ c'.disabled) :=
      List.mem_filter.2 ⟨CheckRegistry.mem_ids_iff.2 hid, hon⟩
    obtain ⟨check, hcheck, r', hr', hmakes⟩ := exists_mem_right_of_forall₂ hchecks hmem
    cases hr.symm.trans hr'
    exact hmakes.eq_of_fromFlags? hbuild ▸ hcheck

/-- The choice of all checks that sets no levels; it fits every registry. -/
def levelless : ScannerConfig := { default with levels := { LintConfig.default with rules := ∅ } }

theorem validate_levelless : levelless.validate registry = .ok () :=
  validate_eq_ok_iff.2 ⟨nofun, nofun, nofun⟩

/-- A registered id switches its check off, whatever the choice, exactly if it is its own canonical
name: it has neither capitals nor hyphens, and no quote or white space at its ends. Any other id is
refused, or switches off the check that is registered under its canonical name. All options of the
check can be set exactly if a check is registered under what stands before the first dot of the id,
which an id without a dot is itself. -/
theorem chosenById_iff (calls : List Registration) {id : String}
    (hid : (CheckRegistry.empty.afterCalls calls).contains id = true) :
    let registry := CheckRegistry.empty.afterCalls calls
    ((∀ c : ScannerConfig, c.validate registry = .ok () → c.SwitchesOff registry id) ↔
      (∀ ch ∈ id.toList, ch ≠ '-' ∧ ch.isUpper = false) ∧ Text.Bare Text.isWrapping id.toList) ∧
    (∀ c c' : ScannerConfig, c.validate registry = .ok () →
      (c.withDisabled registry id = .ok c' ↔ registry.contains (canonicalName id) = true ∧
        c' = { c with disabled := c.disabled.insert (canonicalName id) })) ∧
    (∀ c : ScannerConfig, c.validate registry = .ok () → ∀ option value,
      (c.TakesFlag registry id option value ↔
        registry.contains (Text.firstPiece '.' id) = true)) ∧
    ('.' ∉ id.toList → registry.contains (Text.firstPiece '.' id) = true) := by
  intro registry
  have haccepted : registry.AllAccepted :=
    CheckRegistry.allAccepted_afterCalls CheckRegistry.allAccepted_empty calls
  refine ⟨?_, fun c c' hc => withDisabled_eq_ok_iff hc,
    fun c hc option value => takesFlag_iff haccepted hc hid, fun hdot => ?_⟩
  · rw [← canonicalName_eq_self_iff]
    constructor
    · intro h
      have hon : levelless.isEnabled id = true := decide_eq_true OrderedSet.not_mem_empty
      exact canonicalName_of_switchesOff validate_levelless hon (h levelless validate_levelless)
    · intro hname c hc
      exact switchesOff_of_canonicalName haccepted hc hid hname
  · rwa [Text.firstPiece_of_not_mem hdot]

end ScannerConfig

open Sample

/-- By its id the check is switched off, and its option is set. -/
theorem ScannerConfig.chosenById_iff_audit :
    let registry := CheckRegistry.empty.afterCalls [census, audit]
    registry.contains "audit" = true ∧ default.validate registry = .ok () ∧
      default.SwitchesOff registry "audit" ∧ default.TakesFlag registry "audit" "name" "ledger" := by
  intro registry
  have hid : registry.contains "audit" = true := by decide +kernel
  have hvalid : default.validate registry = .ok () := by decide +kernel
  obtain ⟨hoff, -, hflag, hplain⟩ := chosenById_iff [census, audit] hid
  exact ⟨hid, hvalid, hoff.2 (canonicalName_eq_self_iff.1 (by decide +kernel)) default hvalid,
    (hflag default hvalid "name" "ledger").2 (hplain (by decide))⟩

namespace Counter

/-- A check whose id is written with a capital. -/
def capital : Registration := { audit with id := "Audit" }

/-- Calls of registration succeed and the default choice fits, but the ids do not serve. One with a
capital is refused, or another check is switched off in its place; a flag is refused whose id has a
dot. -/
theorem not_chosenById :
    (∃ registry, registry = CheckRegistry.empty.afterCalls [census, capital] ∧
      registry.contains "Audit" = true ∧ ScannerConfig.default.validate registry = .ok () ∧
      ScannerConfig.default.withDisabled registry "Audit" =
        .error (.disablesUnknownCheck "audit")) ∧
    (∃ registry, registry = CheckRegistry.empty.afterCalls [census, capital, audit] ∧
      registry.contains "Audit" = true ∧ ScannerConfig.default.validate registry = .ok () ∧
      ∃ c, ScannerConfig.default.withDisabled registry "Audit" = .ok c ∧
        c.isEnabled "Audit" = true ∧ c.isEnabled "audit" = false) ∧
    ∃ registry, registry = CheckRegistry.empty.afterCalls [dotted] ∧
      registry.contains "audit.census" = true ∧ ScannerConfig.default.validate registry = .ok () ∧
      ScannerConfig.default.withFlag registry "audit.census.name" "ledger" =
        .error (.flagOfUnknownCheck "audit.census.name") := by
  refine ⟨⟨_, rfl, by decide +kernel⟩, ⟨_, rfl, by decide +kernel, by decide +kernel, ?_⟩,
    _, rfl, by decide +kernel⟩
  refine ⟨{ ScannerConfig.default with disabled := OrderedSet.insert ∅ "audit" }, ?_⟩
  decide +kernel

end Counter

end LockDiscipline
