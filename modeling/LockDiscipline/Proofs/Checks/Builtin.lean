import LockDiscipline.Lint.GuardedBy
import LockDiscipline.Proofs.Checks.Defaults

/-! The registry of the checks of this library. It accepts the default settings, and the scanner of a
choice has the one check, made from the flags of the choice. -/

namespace LockDiscipline

namespace CheckRegistry

theorem eq_of_get?_builtin {id : String} {r : Registration} (h : builtin.entries.get? id = some r) :
    id = GuardedBy.id ∧ r = GuardedBy.registration := by
  have hmem : (id, r) ∈ [(GuardedBy.id, GuardedBy.registration)] := OrderedMap.get?_eq_some_iff.1 h
  exact Prod.mk.inj (List.mem_singleton.1 hmem)

theorem allAccepted_builtin : builtin.AllAccepted := by
  intro id r hr
  obtain ⟨rfl, rfl⟩ := eq_of_get?_builtin hr
  exact ⟨rfl, ⟨nofun, by decide +kernel⟩⟩

/-- The check of this library lists every rule by its name. -/
theorem reports_builtin {r : Rule} (hr : r ∈ Rule.all) : builtin.Reports r.name := by
  refine knowsRule_iff.1 ?_
  revert r
  decide +kernel

end CheckRegistry

/-- The scanner has the check, made from the flags, unless it is switched off. -/
theorem Scanner.exists_ofConfig_builtin {c : ScannerConfig} (hc : c.validate .builtin = .ok ())
    (hon : c.isEnabled GuardedBy.id = true) :
    ∃ s, ofConfig .builtin c = .ok s ∧ s.checks = [GuardedBy.check (GuardedBy.lockApi c.flags)] := by
  obtain ⟨s, hs, -, hchecks⟩ := exists_ofConfig CheckRegistry.allAccepted_builtin hc
  have hids : CheckRegistry.builtin.ids.filter (· ∉ c.disabled) = [GuardedBy.id] := by
    have hall : CheckRegistry.builtin.ids = [GuardedBy.id] := rfl
    have hkept : decide (GuardedBy.id ∉ c.disabled) = true := hon
    rw [hall, List.filter_singleton, hkept, cond_true]
  rw [hids] at hchecks
  obtain ⟨check, _, ⟨r, hr, hmakes⟩, hrest, hlist⟩ := List.forall₂_cons_left_iff.1 hchecks
  obtain ⟨-, rfl⟩ := CheckRegistry.eq_of_get?_builtin hr
  refine ⟨s, hs, ?_⟩
  rw [hlist, List.forall₂_nil_left_iff.1 hrest, hmakes.eq_of_fromFlags? rfl]

end LockDiscipline
