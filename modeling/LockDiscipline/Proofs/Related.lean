import Mathlib.Data.List.Forall2

/-! Lists whose items are related one by one. -/

namespace LockDiscipline

variable {α β γ : Type} {R S : α → β → Prop} {l : List α} {l' : List β}

theorem exists_mem_left_of_forall₂ (h : l.Forall₂ R l') {b : β} (hb : b ∈ l') :
    ∃ a ∈ l, R a b := by
  induction h with
  | nil => cases hb
  | @cons a b' _ _ hr _ ih =>
    rcases List.mem_cons.1 hb with rfl | hb
    · exact ⟨a, List.mem_cons_self .., hr⟩
    · obtain ⟨a', ha, hr⟩ := ih hb
      exact ⟨a', List.mem_cons_of_mem a ha, hr⟩

theorem exists_mem_right_of_forall₂ (h : l.Forall₂ R l') {a : α} (ha : a ∈ l) :
    ∃ b ∈ l', R a b :=
  exists_mem_left_of_forall₂ h.flip ha

theorem forall₂_imp_of_mem (h : l.Forall₂ R l') (hRS : ∀ a ∈ l, ∀ b, R a b → S a b) :
    l.Forall₂ S l' := by
  have hmem := (List.forall₂_and_left l l').2 ⟨fun a (ha : a ∈ l) => ha, h⟩
  exact hmem.imp fun a b hab => hRS a hab.1 b hab.2

theorem map_eq_of_forall₂ {f : α → γ} {g : β → γ} (h : l.Forall₂ R l')
    (hfg : ∀ a b, R a b → g b = f a) : l'.map g = l.map f := by
  induction h with
  | nil => rfl
  | cons hr _ ih => rw [List.map_cons, List.map_cons, ih, hfg _ _ hr]

theorem rel_find?_of_forall₂ {p : α → Bool} {q : β → Bool} (h : l.Forall₂ R l')
    (hpq : ∀ a b, R a b → q b = p a) : Option.Rel R (l.find? p) (l'.find? q) := by
  induction h with
  | nil => exact .none
  | @cons a b l l' hr _ ih =>
    rw [List.find?_cons, List.find?_cons, hpq a b hr]
    cases p a with
    | true => exact .some hr
    | false => exact ih

end LockDiscipline
