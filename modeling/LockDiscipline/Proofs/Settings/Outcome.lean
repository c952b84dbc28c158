import LockDiscipline.Proofs.Settings.Override
import Mathlib.Data.List.Perm.Subperm

/-! How the reading of a chain ends. Each document is read once, so there are no more steps than
files: the chain ends, or it comes back to a place that it passed, or it comes to a path at which no
document can be read, and the result says which. -/

namespace LockDiscipline

namespace World

/-- `w.Refused p e`: no document can be read at `p`, and `e` says why. -/
inductive Refused (w : World) (p : FilePath) : DiscoveryError → Prop
  | unreadable {cause} : w.read p = .error cause → Refused w p (.unreadable p cause)
  | illFormed {text e} : w.read p = .ok text → w.document p text = .error e → Refused w p e

variable {w : World} {p q : FilePath} {visited places passed : List FilePlace} {l : FilePlace}
  {e : DiscoveryError} {found : Option LintDocument} {docs : List LintDocument} {r : ReadLayers}

/-- The reason names the path. -/
theorem Refused.path (h : w.Refused p e) : (∃ cause, e = .unreadable p cause) ∨
    (∃ cause, e = .malformed p cause) ∨ ∃ cause, e = .unfit p cause := by
  cases h with
  | unreadable => exact .inl ⟨_, rfl⟩
  | @illFormed text _ _ hdoc =>
    rcases w.document_cases p text with ⟨found, h⟩ | ⟨cause, h⟩ | ⟨cause, h⟩
    · cases hdoc.symm.trans (h p)
    · exact .inr (.inl ⟨cause, Except.error.inj (hdoc.symm.trans h)⟩)
    · exact .inr (.inr ⟨cause, Except.error.inj (hdoc.symm.trans h)⟩)

/-- A document was read at each place that was passed. -/
theorem Follows.exists_reads (h : w.Follows p passed q) (hl : l ∈ passed) :
    ∃ p' doc, w.Reads p' l (some doc) := by
  induction h with
  | here => cases hl
  | next hreads _ _ ih =>
    rcases List.mem_cons.1 hl with rfl | hl
    · exact ⟨_, _, hreads⟩
    · exact ih hl

theorem Chain.exists_reads (h : w.Chain p places docs) (hl : l ∈ places) :
    ∃ p' found, w.Reads p' l found := by
  induction h with
  | blank hreads => exact ⟨_, _, List.mem_singleton.1 hl ▸ hreads⟩
  | last hreads => exact ⟨_, _, List.mem_singleton.1 hl ▸ hreads⟩
  | next hreads _ _ ih =>
    rcases List.mem_cons.1 hl with rfl | hl
    · exact ⟨_, _, hreads⟩
    · exact ih hl

end World

end LockDiscipline
