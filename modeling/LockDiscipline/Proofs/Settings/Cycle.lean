import LockDiscipline.Files.Disk
import LockDiscipline.Proofs.Settings.Upward

/-! Which documents are refused as cyclic. A chain that returns to a place of its own is; and so is
a chain of a document found in a directory that comes to a place which the chains of the documents
found before have passed, though no document of them extends itself. -/

namespace LockDiscipline

namespace World

/-- `w.ReadAfter inputs explicit environment p visited`: the chain of the document at `p` is read
with `visited` for the places that it may not come to: those on the chains of the documents found
before it, or none if it is not itself found in a directory. -/
inductive ReadAfter (w : World) (inputs : List FilePath) (explicit environment : Option FilePath) :
    FilePath → List FilePlace → Prop
  | found {directory before p after places chains} :
      w.startDirectory inputs = .ok directory →
      w.documentsAbove directory = before ++ p :: after → w.Chains before places chains →
      places.Nodup → ReadAfter w inputs explicit environment p places
  | asked {directory layers p} :
      w.startDirectory inputs = .ok directory → w.layersAbove directory = .ok layers →
      explicit = some p → ReadAfter w inputs explicit environment p []
  | named {directory layers layers' p} :
      w.startDirectory inputs = .ok directory → w.layersAbove directory = .ok layers →
      w.layersOf explicit = .ok layers' → environment.filter w.exists? = some p →
      ReadAfter w inputs explicit environment p []

/-- `w.Cyclic p`: the chain of the document at `p` returns to a place that it passed. -/
def Cyclic (w : World) (p : FilePath) : Prop :=
  ∃ passed q, w.Follows p passed q ∧ w.place q ∈ passed

variable {w : World} {p q : FilePath} {l : FilePlace} {paths inputs : List FilePath}
  {explicit environment path : Option FilePath} {passed places places' : List FilePlace}
  {docs docs' : List LintDocument} {chains chains' : List (List LintDocument)}

theorem Reads.det {l' : FilePlace} {found found' : Option LintDocument} (h : w.Reads p l found)
    (h' : w.Reads p l' found') : l = l' ∧ found = found' := by
  obtain ⟨rfl, text, hread, hdoc⟩ := h
  obtain ⟨rfl, text', hread', hdoc'⟩ := h'
  obtain rfl := Except.ok.inj (hread.symm.trans hread')
  exact ⟨rfl, Except.ok.inj (hdoc.symm.trans hdoc')⟩

theorem Chain.det (h : w.Chain p places docs) (h' : w.Chain p places' docs') :
    places = places' ∧ docs = docs' := by
  induction h generalizing places' docs' with
  | blank hreads =>
    cases h' with
    | blank hreads' => exact ⟨by rw [(hreads.det hreads').1], rfl⟩
    | last hreads' => cases (hreads.det hreads').2
    | next hreads' => cases (hreads.det hreads').2
  | last hreads hbase =>
    cases h' with
    | blank hreads' => cases (hreads.det hreads').2
    | last hreads' =>
      obtain ⟨rfl, heq⟩ := hreads.det hreads'
      cases heq
      exact ⟨rfl, rfl⟩
    | next hreads' hbase' =>
      cases (hreads.det hreads').2
      cases hbase.symm.trans hbase'
  | next hreads hbase _ ih =>
    cases h' with
    | blank hreads' => cases (hreads.det hreads').2
    | last hreads' hbase' =>
      cases (hreads.det hreads').2
      cases hbase.symm.trans hbase'
    | next hreads' hbase' hchain' =>
      obtain ⟨rfl, heq⟩ := hreads.det hreads'
      cases heq
      cases hbase.symm.trans hbase'
      obtain ⟨rfl, rfl⟩ := ih hchain'
      exact ⟨rfl, rfl⟩

theorem Chains.det (h : w.Chains paths places chains) (h' : w.Chains paths places' chains') :
    places = places' ∧ chains = chains' := by
  induction h generalizing places' chains' with
  | nil =>
    cases h'
    exact ⟨rfl, rfl⟩
  | cons hchain _ ih =>
    cases h' with
    | cons hchain' hrest' =>
      obtain ⟨rfl, rfl⟩ := hchain.det hchain'
      obtain ⟨rfl, rfl⟩ := ih hrest'
      exact ⟨rfl, rfl⟩

theorem Apart.det (h : w.Apart path docs) (h' : w.Apart path docs') : docs = docs' := by
  cases path with
  | none => exact Eq.trans h (Eq.symm h')
  | some p =>
    obtain ⟨_, hchain, -⟩ := h
    obtain ⟨_, hchain', -⟩ := h'
    exact (hchain.det hchain').2

theorem Follows.trans {p' : FilePath} {passed' : List FilePlace} (h : w.Follows p passed p')
    (h' : w.Follows p' passed' q) : w.Follows p (passed ++ passed') q := by
  induction h with
  | here => exact h'
  | next hreads hbase _ ih => exact .next hreads hbase (ih h')

/-- What extends a cyclic document is cyclic. -/
theorem Cyclic.of_follows {p' : FilePath} (h : w.Follows p passed p') (hcyclic : w.Cyclic p') :
    w.Cyclic p := by
  obtain ⟨passed', q, hfollows, hmem⟩ := hcyclic
  exact ⟨passed ++ passed', q, h.trans hfollows, List.mem_append_right _ hmem⟩

/-- The document at the start of a chain is read, and its place is the first. -/
theorem Chain.exists_reads_first (h : w.Chain p places docs) :
    ∃ found places', w.Reads p (w.place p) found ∧ places = w.place p :: places' := by
  cases h with
  | blank hreads | last hreads | next hreads =>
    obtain ⟨rfl, hread⟩ := hreads
    exact ⟨_, _, ⟨rfl, hread⟩, rfl⟩

/-- Each of several documents is read, and their chains pass its place. -/
theorem Chains.exists_reads (h : w.Chains paths places chains) (hp : p ∈ paths) :
    ∃ found, w.Reads p (w.place p) found ∧ w.place p ∈ places := by
  induction h with
  | nil => cases hp
  | cons hchain _ ih =>
    rcases List.mem_cons.1 hp with rfl | hp
    · obtain ⟨found, places', hreads, rfl⟩ := hchain.exists_reads_first
      exact ⟨found, hreads, by simp⟩
    · obtain ⟨found, hreads, hmem⟩ := ih hp
      exact ⟨found, hreads, List.mem_append_right _ hmem⟩

/-- A chain goes where following it leads. -/
theorem Chain.exists_of_follows (h : w.Chain p places docs) (hfollows : w.Follows p passed q) :
    ∃ places' docs', places = passed ++ places' ∧ w.Chain q places' docs' := by
  induction hfollows generalizing places docs with
  | here => exact ⟨places, docs, rfl, h⟩
  | next hreads hbase _ ih =>
    cases h with
    | blank hreads' => cases (hreads.det hreads').2
    | last hreads' hnone =>
      cases (hreads.det hreads').2
      cases hbase.symm.trans hnone
    | next hreads' hbase' hchain =>
      obtain ⟨rfl, heq⟩ := hreads.det hreads'
      cases heq
      cases hbase.symm.trans hbase'
      obtain ⟨places', docs', rfl, hchain'⟩ := ih hchain
      exact ⟨places', docs', rfl, hchain'⟩

/-- A chain with an end that comes to no place twice does not return. -/
theorem Chain.not_cyclic (h : w.Chain p places docs) (hnodup : places.Nodup) : ¬ w.Cyclic p := by
  rintro ⟨passed, q, hfollows, hmem⟩
  obtain ⟨_, _, rfl, hchain⟩ := h.exists_of_follows hfollows
  obtain ⟨_, _, -, rfl⟩ := hchain.exists_reads_first
  exact (List.nodup_append.1 hnodup).2.2 _ hmem _ (List.mem_cons_self ..) rfl

/-- Settings are refused as cyclic exactly where a chain comes back: to a place that it passed
itself, which makes its document cyclic, or to a place on the chain of a document found before. -/
theorem discover_eq_cyclic_iff : w.discover inputs explicit environment = .error (.cyclic q) ↔
    ∃ p visited passed, w.ReadAfter inputs explicit environment p visited ∧
      w.Follows p passed q ∧ New visited passed ∧
      (w.place q ∈ passed ∨ w.place q ∈ visited) := by
  simp only [discover_eq, bind_eq_error_iff, startDirectory_ne_cyclic, layersAbove_eq_cyclic_iff,
    layersOf_eq_cyclic_iff, false_or]
  constructor
  · rintro ⟨directory, hdir, ⟨before, p, after, places, chains, hpaths, hchains, hnodup, hback⟩ |
      ⟨layers, hfound, ⟨p, hp, hback⟩ | ⟨layers', hasked, ⟨p, hp, hback⟩ | ⟨_, _, hconfig⟩⟩⟩⟩
    · obtain ⟨passed, hback⟩ := hback
      exact ⟨p, places, passed, .found hdir hpaths hchains hnodup, hback⟩
    · obtain ⟨passed, hback⟩ := hback
      exact ⟨p, [], passed, .asked hdir hfound hp, hback⟩
    · obtain ⟨passed, hback⟩ := hback
      exact ⟨p, [], passed, .named hdir hfound hasked hp, hback⟩
    · cases hconfig
  · rintro ⟨p, visited, passed, hread, hback⟩
    cases hread with
    | found hdir hpaths hchains hnodup =>
      exact ⟨_, hdir, .inl ⟨_, p, _, _, _, hpaths, hchains, hnodup, passed, hback⟩⟩
    | asked hdir hfound hp => exact ⟨_, hdir, .inr ⟨_, hfound, .inl ⟨p, hp, passed, hback⟩⟩⟩
    | named hdir hfound hasked hp =>
      exact ⟨_, hdir, .inr ⟨_, hfound, .inr ⟨_, hasked, .inl ⟨p, hp, passed, hback⟩⟩⟩⟩

/-- Whether no document that is read, on its own or because another extends it, is cyclic. -/
def NoneCyclic (w : World) (inputs : List FilePath) (explicit environment : Option FilePath) :
    Prop :=
  ∀ p visited passed p', w.ReadAfter inputs explicit environment p visited →
    w.Follows p passed p' → ¬ w.Cyclic p'

private theorem noneCyclic_of_found {directory : FilePath}
    (hdir : w.startDirectory inputs = .ok directory)
    (h : ∀ p ∈ w.documentsAbove directory, (w.readChain [] p).toOption.isSome) :
    w.NoneCyclic inputs none none := by
  intro p visited passed p' hread hfollows hcyclic
  cases hread with
  | found hdir' hpaths =>
    obtain rfl := Except.ok.inj (hdir.symm.trans hdir')
    have hsome := h p (hpaths ▸ List.mem_append_right _ (List.mem_cons_self ..))
    cases hchain : w.readChain [] p with
    | error e => simp [hchain, Except.toOption] at hsome
    | ok r =>
      obtain ⟨places, docs, hdocs, hnew, -⟩ := readChain_eq_ok_iff.1 hchain
      exact hdocs.not_cyclic hnew.1 (hcyclic.of_follows hfollows)
  | asked _ _ hp => cases hp
  | named _ _ _ hp => cases hp

/-- Files on a disk without links, each with its text and the value that the text stands for. -/
def ofFiles (workingDirectory : Location) (files : List (Location × String × Yaml.Value)) :
    World where
  toFileSystem := Disk.fileSystem
    { entries := files.map fun file => (file.1, .file file.2.1.toUTF8.data.toList)
      workingDirectory }
  yaml :=
    { read := fun text =>
        ((files.find? fun file => file.2.1 = text).map (·.2.2)).elim (.error "") .ok
      misfit := fun _ => "" }

end World

/-- A mapping whose keys are texts. -/
def Yaml.Value.fields (entries : List (String × Yaml.Value)) : Yaml.Value :=
  .mapping (entries.map fun entry => (.string entry.1, entry.2))

namespace Counter

/-- Two documents in one directory that extend a third one there. -/
def sharedBase : World :=
  .ofFiles [] [(["lint.yaml"], "extends: base.yaml", .fields [("extends", .string "base.yaml")]),
    (["lockguard.yaml"], "extends: base.yaml", .fields [("extends", .string "base.yaml")]),
    (["base.yaml"], "rules:", .fields [("rules", .null)])]

/-- A document that extends the one in the directory above. -/
def nestedDocument : World :=
  .ofFiles ["sub"] [(["lint.yaml"], "rules:", .fields [("rules", .null)]),
    (["sub", "lint.yaml"], "extends: ../lint.yaml",
      .fields [("extends", .string "../lint.yaml")])]

/-- A document that two others extend, and one that is extended and found itself, are refused as
cyclic, though no document is. -/
theorem cyclic_without_cycle :
    sharedBase.discover [] none none = .error (.cyclic ⟨"/base.yaml"⟩) ∧
      sharedBase.NoneCyclic [] none none ∧
      nestedDocument.discover [] none none = .error (.cyclic ⟨"/lint.yaml"⟩) ∧
      nestedDocument.NoneCyclic [] none none := by
  have hshared : sharedBase.startDirectory [] = .ok ⟨"/"⟩ := by decide +kernel
  have hnested : nestedDocument.startDirectory [] = .ok ⟨"/sub"⟩ := by decide +kernel
  exact ⟨by decide +kernel, World.noneCyclic_of_found hshared (by decide +kernel),
    by decide +kernel, World.noneCyclic_of_found hnested (by decide +kernel)⟩

end Counter

end LockDiscipline
