import LockDiscipline.Lint.Registry
import LockDiscipline.Proofs.Except

/-! Registries that calls of registration build. A call either adds its check under a new id or
leaves the registry as it was; so a registry only grows, and every check in it was accepted. -/

namespace LockDiscipline

/-- What registration asks: the check can be made, and reports under known rules. -/
structure Registration.Accepted (r : Registration) : Prop where
  factories : r.factories ≠ []
  rules : ∀ rule ∈ r.rules, (Rule.find? rule).isSome

namespace CheckRegistry

variable {registry next : CheckRegistry} {r : Registration} {calls : List Registration}
  {id rule : String}

/-- Why a registration is refused, if it is. -/
def refusal? (registry : CheckRegistry) (r : Registration) : Option RegistryError :=
  if registry.contains r.id then some (.registeredTwice r.id)
  else if r.factories.isEmpty then some (.noConstructor r.id)
  else (r.rules.find? fun rule => (Rule.find? rule).isNone).map (.reportsUnknownRule r.id)

theorem refusal?_eq_none_iff :
    registry.refusal? r = none ↔ registry.contains r.id = false ∧ r.Accepted := by
  rw [refusal?]
  cases registry.contains r.id with
  | true => simp
  | false =>
    have haccepted : r.Accepted ↔ r.factories ≠ [] ∧ ∀ rule ∈ r.rules, (Rule.find? rule).isSome :=
      ⟨fun h => ⟨h.factories, h.rules⟩, fun h => ⟨h.1, h.2⟩⟩
    cases hfactories : r.factories <;> simp [haccepted, hfactories, Option.isSome_iff_ne_none]

theorem register_eq (registry : CheckRegistry) (r : Registration) : registry.register r =
    match registry.refusal? r with
    | some e => .error e
    | none => .ok ⟨registry.entries.insert r.id r⟩ := by
  rw [register, refusal?, contains]
  cases registry.entries.contains r.id with
  | true => rfl
  | false =>
    cases r.factories.isEmpty with
    | true => rfl
    | false => cases r.rules.find? fun rule => (Rule.find? rule).isNone <;> rfl

theorem register_eq_ok_iff : registry.register r = .ok next ↔
    registry.contains r.id = false ∧ r.Accepted ∧ next = ⟨registry.entries.insert r.id r⟩ := by
  rw [register_eq, ← and_assoc, ← refusal?_eq_none_iff]
  cases registry.refusal? r <;> simp [eq_comm]

/-- A call of registration on a registry that is changed in place. -/
def registerInPlace (r : Registration) : EStateM RegistryError CheckRegistry Unit := do
  if (← get).contains r.id then throw (.registeredTwice r.id)
  if r.factories.isEmpty then throw (.noConstructor r.id)
  if let some rule := r.rules.find? fun rule => (Rule.find? rule).isNone then
    throw (.reportsUnknownRule r.id rule)
  modify fun registry => ⟨registry.entries.insert r.id r⟩

/-- The call in place does what registration does; one that is refused changes nothing. -/
theorem run_registerInPlace (registry : CheckRegistry) (r : Registration) :
    (registerInPlace r).run registry =
      match registry.register r with
      | .ok next => .ok () next
      | .error e => .error e registry := by
  rw [register_eq, refusal?, registerInPlace]
  simp only [EStateM.run_bind, EStateM.run_get]
  cases registry.contains r.id with
  | true => simp
  | false =>
    cases r.factories.isEmpty with
    | true => simp
    | false => cases r.rules.find? fun rule => (Rule.find? rule).isNone <;> simp

theorem unchanged_of_refused {e : RegistryError}
    (h : (registerInPlace r).run registry = .error e next) :
    registry.register r = .error e ∧ next = registry := by
  rw [run_registerInPlace] at h
  cases hregister : registry.register r with
  | ok _ =>
    rw [hregister] at h
    cases h
  | error _ =>
    rw [hregister] at h
    cases h
    exact ⟨rfl, rfl⟩

/-- The registry after a call, whether it was refused or not. -/
def afterCall (registry : CheckRegistry) (r : Registration) : CheckRegistry :=
  match (registerInPlace r).run registry with
  | .ok _ next => next
  | .error _ next => next

/-- The registry after calls one after another. -/
def afterCalls (registry : CheckRegistry) (calls : List Registration) : CheckRegistry :=
  calls.foldl afterCall registry

theorem afterCall_eq (registry : CheckRegistry) (r : Registration) :
    registry.register r = .ok (registry.afterCall r) ∨ registry.afterCall r = registry := by
  rw [afterCall, run_registerInPlace]
  cases registry.register r with
  | ok next => exact .inl rfl
  | error e => exact .inr rfl

/-- What holds at first and is kept by every accepted call holds after any calls. -/
theorem afterCalls_induction {P : CheckRegistry → Prop} (hfirst : P registry)
    (hcall : ∀ {registry r next}, P registry → registry.register r = .ok next → P next) :
    P (registry.afterCalls calls) := by
  induction calls generalizing registry with
  | nil => exact hfirst
  | cons r calls ih =>
    -- A refused call leaves nothing to show.
    rcases registry.afterCall_eq r with hr | hr
    · exact ih (hcall hfirst hr)
    · refine ih ?_
      rwa [hr]

/-- `registry.Extends next`: what is registered in `registry` is so in `next`. -/
def Extends (registry next : CheckRegistry) : Prop :=
  ∀ id r, registry.entries.get? id = some r → next.entries.get? id = some r

theorem contains_iff : registry.contains id = true ↔ ∃ r, registry.entries.get? id = some r :=
  Option.isSome_iff_exists

theorem extends_of_register (h : registry.register r = .ok next) : registry.Extends next := by
  obtain ⟨hnew, -, rfl⟩ := register_eq_ok_iff.1 h
  intro id r' hr'
  have hne : id ≠ r.id := by
    rintro rfl
    rw [contains_iff.2 ⟨r', hr'⟩] at hnew
    cases hnew
  rw [OrderedMap.get?_insert, if_neg hne, hr']

theorem extends_afterCalls (registry : CheckRegistry) (calls : List Registration) :
    registry.Extends (registry.afterCalls calls) :=
  afterCalls_induction (P := registry.Extends) (fun _ _ hr => hr)
    fun h hcall id r hr => extends_of_register hcall id r (h id r hr)

/-- Every check of the registry is registered under its own id and was accepted. -/
def AllAccepted (registry : CheckRegistry) : Prop :=
  ∀ id r, registry.entries.get? id = some r → r.id = id ∧ r.Accepted

theorem allAccepted_afterCalls (h : registry.AllAccepted) (calls : List Registration) :
    (registry.afterCalls calls).AllAccepted := by
  refine afterCalls_induction h fun {registry r next} h hcall id r' hr' => ?_
  obtain ⟨-, haccepted, rfl⟩ := register_eq_ok_iff.1 hcall
  rw [OrderedMap.get?_insert] at hr'
  split at hr'
  · next hid =>
    cases hr'
    exact ⟨hid.symm, haccepted⟩
  · exact h id r' hr'

theorem allAccepted_empty : empty.AllAccepted := fun _ _ h => by cases h

/-- Some check of the registry was registered with the rule, spelled exactly so. -/
def Reports (registry : CheckRegistry) (rule : String) : Prop :=
  ∃ id r, registry.entries.get? id = some r ∧ rule ∈ r.rules

theorem knowsRule_iff : registry.knowsRule rule = true ↔ registry.Reports rule := by
  simp only [knowsRule, Reports, List.any_eq_true, List.contains_iff_mem, Prod.exists,
    OrderedMap.get?_eq_some_iff]

/-- The ids are listed in ascending order. -/
theorem ids_ascending (registry : CheckRegistry) : registry.ids.Pairwise (· < ·) := by
  refine List.pairwise_map.2 (registry.entries.ascending.imp fun h => ?_)
  exact compareOfLessAndEq_eq_lt.1 h

theorem mem_ids_iff : id ∈ registry.ids ↔ registry.contains id = true :=
  OrderedMap.mem_keys_iff

end CheckRegistry

end LockDiscipline
