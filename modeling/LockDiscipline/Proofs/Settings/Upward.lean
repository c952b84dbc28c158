import LockDiscipline.Proofs.Except
import LockDiscipline.Proofs.Settings.Chain

/-! Settings found from a directory upwards, asked for, and named by the environment. The documents
found are read one after another with one list of visited places; each of the others starts with an
empty one. -/

namespace LockDiscipline

namespace World

/-- `w.Chains paths places chains`: the documents at the paths have these chains, which together
lead over `places`. -/
inductive Chains (w : World) : List FilePath → List FilePlace → List (List LintDocument) → Prop
  | nil : Chains w [] [] []
  | cons {p paths places places' docs chains} :
      w.Chain p places docs → Chains w paths places' chains →
        Chains w (p :: paths) (places ++ places') (docs :: chains)

/-- Reads the chain of one more document. -/
def readNext (w : World) (read : ReadLayers) (p : FilePath) : Except DiscoveryError ReadLayers :=
  (fun chain => { chain with layers := read.layers ++ chain.layers }) <$>
    w.readChain read.visited p

/-- The layers of a document that is read apart from those found in directories. -/
def layersOf (w : World) : Option FilePath → Except DiscoveryError (List LintLayer)
  | some p => (·.layers) <$> w.readChain [] p
  | none => .ok []

/-- `w.Apart path docs`: the chain of a document that is read apart; without a path there is
none. -/
def Apart (w : World) (path : Option FilePath) (docs : List LintDocument) : Prop :=
  match path with
  | some p => ∃ places, w.Chain p places docs ∧ places.Nodup
  | none => docs = []

variable {w : World} {p q directory : FilePath} {paths inputs : List FilePath}
  {explicit environment path : Option FilePath} {read r : ReadLayers} {layers : List LintLayer}
  {config : LintConfig}

theorem layersAbove_eq : w.layersAbove directory =
    (·.layers.reverse) <$> (w.documentsAbove directory).foldlM w.readNext ⟨[], []⟩ := by
  rfl

theorem readNext_eq_ok_iff : w.readNext read p = .ok r ↔
    ∃ places docs, w.Chain p places docs ∧ New read.visited places ∧
      r = ⟨read.layers ++ (docs.map (·.layer)).reverse, places.reverse ++ read.visited⟩ := by
  rw [readNext, map_eq_ok_iff]
  constructor
  · rintro ⟨chain, hchain, rfl⟩
    obtain ⟨places, docs, hdocs, hnew, rfl⟩ := readChain_eq_ok_iff.1 hchain
    exact ⟨places, docs, hdocs, hnew, rfl⟩
  · rintro ⟨places, docs, hdocs, hnew, rfl⟩
    exact ⟨_, readChain_eq_ok_iff.2 ⟨places, docs, hdocs, hnew, rfl⟩, rfl⟩

/-- Documents are read one after another if all their chains have ends, and the chains lead over
different places. -/
theorem foldlM_readNext_eq_ok_iff : paths.foldlM w.readNext read = .ok r ↔
    ∃ places chains, w.Chains paths places chains ∧ New read.visited places ∧
      r = ⟨read.layers ++ (chains.map fun docs => (docs.map (·.layer)).reverse).flatten,
        places.reverse ++ read.visited⟩ := by
  induction paths generalizing read with
  | nil =>
    rw [List.foldlM_nil]
    constructor
    · rintro ⟨⟩
      exact ⟨[], [], .nil, new_nil, by simp⟩
    · rintro ⟨places, chains, hchains, -, rfl⟩
      cases hchains
      simp [pure, Except.pure]
  | cons p paths ih =>
    rw [List.foldlM_cons, bind_eq_ok_iff]
    constructor
    · rintro ⟨read', hread, hrest⟩
      obtain ⟨places, docs, hchain, hnew, rfl⟩ := readNext_eq_ok_iff.1 hread
      obtain ⟨places', chains, hchains, hnew', rfl⟩ := ih.1 hrest
      exact ⟨places ++ places', docs :: chains, .cons hchain hchains,
        new_append.2 ⟨hnew, hnew'⟩, by simp⟩
    · rintro ⟨_, _, hchains, hnew, rfl⟩
      cases hchains with
      | cons hchain hchains =>
        obtain ⟨hnew, hnew'⟩ := new_append.1 hnew
        exact ⟨_, readNext_eq_ok_iff.2 ⟨_, _, hchain, hnew, rfl⟩,
          ih.2 ⟨_, _, hchains, hnew', by simp⟩⟩

/-- Of several documents the first is refused whose chain comes back, to a place of its own or to
one of the chains before. -/
theorem foldlM_readNext_eq_cyclic_iff : paths.foldlM w.readNext read = .error (.cyclic q) ↔
    ∃ before p after places chains, paths = before ++ p :: after ∧ w.Chains before places chains ∧
      New read.visited places ∧ w.ComesBack (places.reverse ++ read.visited) p q := by
  induction paths generalizing read with
  | nil =>
    constructor
    · exact nofun
    · rintro ⟨before, p, after, places, chains, hpaths, -⟩
      simp at hpaths
  | cons p paths ih =>
    rw [List.foldlM_cons, bind_eq_error_iff]
    constructor
    · rintro (hread | ⟨read', hread, hrest⟩)
      · exact ⟨[], p, paths, [], [], rfl, .nil, new_nil,
          readChain_eq_cyclic_iff.1 (map_eq_error_iff.1 hread)⟩
      · obtain ⟨places, docs, hchain, hnew, rfl⟩ := readNext_eq_ok_iff.1 hread
        obtain ⟨before, p', after, places', chains, rfl, hchains, hnew', hback⟩ := ih.1 hrest
        exact ⟨p :: before, p', after, places ++ places', docs :: chains, rfl,
          .cons hchain hchains, new_append.2 ⟨hnew, hnew'⟩, by simpa using hback⟩
    · rintro ⟨before, p', after, _, _, hpaths, hchains, hnew, hback⟩
      cases hchains with
      | nil =>
        obtain ⟨rfl, rfl⟩ := List.cons.inj hpaths
        exact .inl (map_eq_error_iff.2 (readChain_eq_cyclic_iff.2 hback))
      | cons hchain hchains =>
        obtain ⟨rfl, rfl⟩ := List.cons.inj hpaths
        obtain ⟨hnew, hnew'⟩ := new_append.1 hnew
        exact .inr ⟨_, readNext_eq_ok_iff.2 ⟨_, _, hchain, hnew, rfl⟩,
          ih.2 ⟨_, p', after, _, _, rfl, hchains, hnew', by simpa using hback⟩⟩

theorem layersAbove_eq_ok_iff : w.layersAbove directory = .ok layers ↔
    ∃ places chains, w.Chains (w.documentsAbove directory) places chains ∧ places.Nodup ∧
      layers = chains.reverse.flatten.map (·.layer) := by
  have hlayers (chains : List (List LintDocument)) :
      (chains.map fun docs => (docs.map (·.layer)).reverse).flatten.reverse =
        chains.reverse.flatten.map (·.layer) := by
    rw [List.reverse_flatten, List.map_map, List.map_flatten, List.map_reverse]
    congr 2
    exact List.map_congr_left fun docs _ => List.reverse_reverse _
  rw [layersAbove_eq, map_eq_ok_iff]
  constructor
  · rintro ⟨read, hread, rfl⟩
    obtain ⟨places, chains, hchains, hnew, rfl⟩ := foldlM_readNext_eq_ok_iff.1 hread
    exact ⟨places, chains, hchains, hnew.1, hlayers chains⟩
  · rintro ⟨places, chains, hchains, hnodup, rfl⟩
    exact ⟨_, foldlM_readNext_eq_ok_iff.2 ⟨places, chains, hchains, ⟨hnodup, by simp⟩, rfl⟩,
      hlayers chains⟩

theorem layersAbove_eq_cyclic_iff : w.layersAbove directory = .error (.cyclic q) ↔
    ∃ before p after places chains, w.documentsAbove directory = before ++ p :: after ∧
      w.Chains before places chains ∧ places.Nodup ∧ w.ComesBack places p q := by
  rw [layersAbove_eq, map_eq_error_iff, foldlM_readNext_eq_cyclic_iff]
  simp only [New, List.not_mem_nil, not_false_eq_true, implies_true, and_true, List.append_nil,
    ComesBack, List.mem_reverse]

theorem layersOf_eq_ok_iff : w.layersOf path = .ok layers ↔
    ∃ docs, w.Apart path docs ∧ layers = (docs.map (·.layer)).reverse := by
  cases path with
  | none => simp [layersOf, Apart, eq_comm]
  | some p =>
    rw [layersOf, map_eq_ok_iff]
    constructor
    · rintro ⟨read, hread, rfl⟩
      obtain ⟨places, docs, hchain, hnew, rfl⟩ := readChain_eq_ok_iff.1 hread
      exact ⟨docs, ⟨places, hchain, hnew.1⟩, rfl⟩
    · rintro ⟨docs, ⟨places, hchain, hnodup⟩, rfl⟩
      exact ⟨_, readChain_eq_ok_iff.2 ⟨places, docs, hchain, ⟨hnodup, by simp⟩, rfl⟩, rfl⟩

theorem layersOf_eq_cyclic_iff : w.layersOf path = .error (.cyclic q) ↔
    ∃ p, path = some p ∧ w.ComesBack [] p q := by
  cases path with
  | none => simp [layersOf]
  | some p => simp [layersOf, map_eq_error_iff, readChain_eq_cyclic_iff]

theorem discover_eq : w.discover inputs explicit environment = (do
    let directory ← w.startDirectory inputs
    let found ← w.layersAbove directory
    let asked ← w.layersOf explicit
    let named ← w.layersOf (environment.filter w.exists?)
    return (found ++ asked ++ named).foldl .applyLayer .default) := by
  rw [discover]
  cases explicit <;> cases environment.filter w.exists? <;>
    simp only [layersOf, pure_bind, bind_map_left] <;> rfl

/-- Settings are found if all documents are read. Of the documents found in directories, those of
the topmost directory lie at the bottom, and each document lies under those that it extends; of the
others, each lies over those that it extends. -/
theorem discover_eq_ok_iff : w.discover inputs explicit environment = .ok config ↔
    ∃ directory places found asked named, w.startDirectory inputs = .ok directory ∧
      w.Chains (w.documentsAbove directory) places found ∧ places.Nodup ∧
      w.Apart explicit asked ∧ w.Apart (environment.filter w.exists?) named ∧
      config = ((found.reverse.flatten ++ asked.reverse ++ named.reverse).map (·.layer)).foldl
        .applyLayer .default := by
  simp only [discover_eq, bind_eq_ok_iff, layersAbove_eq_ok_iff, layersOf_eq_ok_iff]
  constructor
  · rintro ⟨directory, hdir, _, ⟨places, found, hfound, hnodup, rfl⟩, _, ⟨asked, hasked, rfl⟩, _,
      ⟨named, hnamed, rfl⟩, hconfig⟩
    cases hconfig
    exact ⟨directory, places, found, asked, named, hdir, hfound, hnodup, hasked, hnamed, by simp⟩
  · rintro ⟨directory, places, found, asked, named, hdir, hfound, hnodup, hasked, hnamed, rfl⟩
    exact ⟨directory, hdir, _, ⟨places, found, hfound, hnodup, rfl⟩, _, ⟨asked, hasked, rfl⟩, _,
      ⟨named, hnamed, rfl⟩, by simp [pure, Except.pure]⟩

theorem startDirectory_ne_cyclic : w.startDirectory inputs ≠ .error (.cyclic q) := by
  unfold startDirectory
  split
  · cases w.workingPath <;> exact nofun
  · split
    · exact nofun
    · split <;> exact nofun

end World

end LockDiscipline
