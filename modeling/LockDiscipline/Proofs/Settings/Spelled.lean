import LockDiscipline.Proofs.Files.Places
import LockDiscipline.Proofs.Settings.EntryOrder

/-! Settings for an input that is written from the working directory, and for the same input written
out from the root. The search goes up through the text of the path, so in the first case it ends at
the working directory, which it may come to twice, and in the second case it goes on to the root. -/

namespace LockDiscipline

namespace LintConfig

/-- `Redundant docs below`: the documents below change nothing. A key that only they set gets the
value that it has without them, and the checks that they switch off are off. -/
structure Redundant (docs below : List LintDocument) : Prop where
  settings : ∀ key v, firstSetting docs key = none → firstSetting below key = some v →
    default.get? key = some v
  disabled : ∀ doc ∈ below, ∀ id ∈ doc.disabled.map canonicalName,
    ∃ doc' ∈ docs, id ∈ doc'.disabled.map canonicalName

theorem ofDocuments_append_eq_iff {docs below : List LintDocument} :
    ofDocuments (docs ++ below) = ofDocuments docs ↔ Redundant docs below := by
  constructor
  · intro h
    refine ⟨fun key v hdocs hbelow => ?_, fun doc hdoc id hid => ?_⟩
    · have hget := congrArg (·.get? key) h
      simp only [get?_ofDocuments, firstSetting_append, hdocs, hbelow] at hget
      exact hget.symm
    · have hmem : id ∈ (ofDocuments (docs ++ below)).disabled :=
        mem_disabled_ofDocuments.2 ⟨_, List.mem_map_of_mem (List.mem_append_right _ hdoc), hid⟩
      rw [h, mem_disabled_ofDocuments] at hmem
      simpa using hmem
  · intro h
    refine ext_get? (fun key => ?_) fun id => ?_
    · rw [get?_ofDocuments, get?_ofDocuments, firstSetting_append]
      cases hdocs : firstSetting docs key with
      | some v => rfl
      | none =>
        cases hbelow : firstSetting below key with
        | none => rfl
        | some v => exact (h.settings key v hdocs hbelow).symm
    · simp only [mem_disabled_ofDocuments, List.map_append, List.mem_append, or_and_right,
        exists_or, or_iff_left_iff_imp, List.mem_map, exists_exists_and_eq_and]
      rintro ⟨doc, hdoc, hid⟩
      simpa using h.disabled doc hdoc id (by simpa using hid)

end LintConfig

namespace World

open FilePath (Alike WrittenOut directoriesOver text_ne_empty_of_isAbsolute)

variable {w : World} {cwd p q directory directory' : FilePath} {l : FilePlace}
  {paths paths' directories directories' : List FilePath} {places places' : List FilePlace}
  {found : Option LintDocument} {docs docs' : List LintDocument}
  {chains : List (List LintDocument)} {explicit environment : Option FilePath}

theorem document_of_document {text : String} (h : w.document p text = .ok found) :
    w.document q text = .ok found := by
  rcases w.document_cases p text with ⟨found', h'⟩ | ⟨cause, h'⟩ | ⟨cause, h'⟩
  · rw [h' q, ← h' p, h]
  · cases h.symm.trans h'
  · cases h.symm.trans h'

theorem Reads.endsIdle (hw : w.ResolvesFrom cwd) (h : w.Reads p l found) : p.endsIdle = false := by
  obtain ⟨-, text, hread, -⟩ := h
  refine Bool.eq_false_iff.2 fun hends => ?_
  have hnone := hw.read_endsIdle hends
  rw [hread] at hnone
  cases hnone

/-- A file is read however the path to it is spelled. -/
theorem Reads.of_alike (hw : w.ResolvesFrom cwd) (h : w.Reads p l found) (halike : cwd.Alike p q) :
    w.Reads q l found := by
  obtain ⟨rfl, text, hread, hdoc⟩ := h
  obtain ⟨path, hp, hq⟩ := hw.canonical halike hread
  have hread' : (w.read q).toOption = some text := by
    rw [← hw.read_eq halike, hread]
    rfl
  refine ⟨?_, text, toOption_eq_some_iff.1 hread', document_of_document hdoc⟩
  rw [FileSystem.place, FileSystem.place, hp, hq]
  rfl

/-- A chain goes over the places of files, however the path to its first document is spelled. -/
theorem Chain.of_alike (hw : w.ResolvesFrom cwd) (h : w.Chain p places docs)
    (halike : cwd.Alike p q) : w.Chain q places docs := by
  induction h generalizing q with
  | blank hreads => exact .blank (hreads.of_alike hw halike)
  | last hreads hbase => exact .last (hreads.of_alike hw halike) hbase
  | next hreads hbase hchain ih =>
    obtain ⟨_, _, hnext, -⟩ := hchain.exists_reads_first
    exact .next (hreads.of_alike hw halike) hbase (ih (halike.sibling (hnext.endsIdle hw)))

theorem Chains.of_alike (hw : w.ResolvesFrom cwd) (h : w.Chains paths places chains)
    (halike : paths.Forall₂ cwd.Alike paths') : w.Chains paths' places chains := by
  induction h generalizing paths' with
  | nil =>
    cases halike
    exact .nil
  | cons hchain _ ih =>
    cases halike with
    | cons hp hrest => exact .cons (hchain.of_alike hw hp) (ih hrest)

theorem chains_iff_of_alike (hw : w.ResolvesFrom cwd) (h : paths.Forall₂ cwd.Alike paths') :
    w.Chains paths places chains ↔ w.Chains paths' places chains :=
  ⟨fun hchains => hchains.of_alike hw h,
    fun hchains => hchains.of_alike hw (h.flip.imp fun _ _ hp => hp.symm)⟩

theorem mem_documentsIn_iff : p ∈ w.documentsIn directories ↔
    ∃ directory ∈ directories, ∃ name ∈ documentNames, directory.join ⟨name⟩ = p ∧
      w.exists? p = true ∧ w.isFile p = true := by
  simp only [documentsIn, List.mem_filter, List.mem_flatMap, List.mem_map, Bool.and_eq_true,
    exists_and_right, ← and_assoc]

theorem documentsIn_append : w.documentsIn (directories ++ directories') =
    w.documentsIn directories ++ w.documentsIn directories' := by
  rw [documentsIn, List.flatMap_append, List.filter_append]
  rfl

/-- Directories with one route have the same documents. -/
theorem alike_join {name : String} (hroute : cwd.route directory = cwd.route directory')
    (hname : name ∈ documentNames) :
    cwd.Alike (directory.join ⟨name⟩) (directory'.join ⟨name⟩) := by
  have hplain : ∀ name ∈ documentNames,
      (⟨name⟩ : FilePath).isAbsolute = false ∧ (⟨name⟩ : FilePath).endsIdle = false := by
    decide +kernel
  exact .join hroute (hplain name hname).1 (hplain name hname).2

theorem alike_documentsIn (hw : w.ResolvesFrom cwd)
    (hroutes : directories.map cwd.route = directories'.map cwd.route) :
    (w.documentsIn directories).Forall₂ cwd.Alike (w.documentsIn directories') := by
  induction directories generalizing directories' with
  | nil =>
    obtain rfl := List.map_eq_nil_iff.1 hroutes.symm
    exact .nil
  | cons directory directories ih =>
    match directories', hroutes with
    | directory' :: directories', hroutes =>
      obtain ⟨hroute, hroutes⟩ := List.cons.inj hroutes
      have hdocuments : (documentNames.map fun name => directory.join ⟨name⟩).Forall₂ cwd.Alike
          (documentNames.map fun name => directory'.join ⟨name⟩) := by
        exact List.forall₂_map_left_iff.2 (List.forall₂_map_right_iff.2
          (List.forall₂_same.2 fun name hname => alike_join hroute hname))
      have hfile (p q : FilePath) (h : cwd.Alike p q) :
          w.exists? p && w.isFile p ↔ w.exists? q && w.isFile q := by
        rw [hw.exists_eq h, hw.isFile_eq h]
      rw [documentsIn, documentsIn, List.flatMap_cons, List.flatMap_cons, List.filter_append,
        List.filter_append]
      exact List.rel_append (List.rel_filter (fun _ _ h => hfile _ _ h) hdocuments) (ih hroutes)

theorem startDirectory_of_isDirectory (h : w.isDirectory p) : w.startDirectory [p] = .ok p := by
  simp [startDirectory, h]

theorem startDirectory_of_parent? (h : w.isDirectory p = false) (hparent : p.parent? = some q) :
    w.startDirectory [p] = .ok q := by
  simp [startDirectory, h, hparent]

/-- The search starts from the same directory, written in one way or the other. -/
theorem exists_startDirectory (hw : w.ResolvesFrom cwd) (hp : p.isAbsolute = false)
    (hne : p.text ≠ "") : ∃ directory directory', w.startDirectory [p] = .ok directory ∧
      w.startDirectory [cwd.join p] = .ok directory' ∧ cwd.WrittenOut directory directory' ∧
      directory.isDotted = p.isDotted := by
  have hwritten := FilePath.writtenOut_join hw.absolute hp
  have hsame : w.isDirectory (cwd.join p) = w.isDirectory p :=
    hw.isDirectory_eq (text_ne_empty_of_isAbsolute hwritten.absolute) hne hwritten.route_eq
  cases hdir : w.isDirectory p with
  | true =>
    exact ⟨p, cwd.join p, startDirectory_of_isDirectory hdir,
      startDirectory_of_isDirectory (hsame.trans hdir), hwritten, rfl⟩
  | false =>
    -- a path without steps leads to the working directory
    have hsteps : p.steps ≠ [] := by
      intro hnil
      have hroute : cwd.route p = cwd.route cwd := by
        rw [FilePath.route, FilePath.route, hp, hw.absolute, hnil, List.append_nil]
        rfl
      rw [hw.isDirectory_eq hne (text_ne_empty_of_isAbsolute hw.absolute) hroute,
        hw.directory] at hdir
      cases hdir
    obtain ⟨directory, directory', hparent, hparent', hwritten', hdotted⟩ :=
      hwritten.exists_parent? hsteps
    exact ⟨directory, directory', startDirectory_of_parent? hdir hparent,
      startDirectory_of_parent? (hsame.trans hdir) hparent', hwritten', hdotted⟩

/-- The search from a relative path comes to no directory, or comes twice to the working directory,
where there are documents. -/
def Stumbles (w : World) (p : FilePath) : Prop :=
  p.text = "" ∨ p.isDotted ∧ w.documentsIn [⟨""⟩] ≠ []

theorem startDirectory_empty (hw : w.ResolvesFrom cwd) :
    w.startDirectory [⟨""⟩] = .error .noDirectory := by
  have hparent : (⟨""⟩ : FilePath).parent? = none := by decide +kernel
  simp [startDirectory, hw.empty, hparent]

theorem Stumbles.not_stack (hw : w.ResolvesFrom cwd) (hp : p.isAbsolute = false)
    (h : w.Stumbles p) : ¬ w.Stack [p] explicit environment places docs := by
  rintro ⟨directory, found, asked, named, hstart, hfound, hnodup, -⟩
  by_cases hne : p.text = ""
  · obtain rfl : p = ⟨""⟩ := by
      cases p
      exact congrArg FilePath.mk hne
    cases hstart.symm.trans (startDirectory_empty hw)
  · obtain ⟨hdotted, hdocuments⟩ := h.resolve_left hne
    obtain ⟨directory₁, directory', hstart₁, -, hwritten, hdot⟩ := exists_startDirectory hw hp hne
    obtain rfl := Except.ok.inj (hstart₁.symm.trans hstart)
    obtain ⟨up, -, -, hup, -, -, -, above, habove, hroute⟩ :=
      hwritten.exists_directories hw.absolute
    rw [if_pos (hdot.trans hdotted)] at hup
    rw [documentsAbove, hup, documentsIn_append, chains_append_iff] at hfound
    obtain ⟨places₁, places₂, chains₁, chains₂, hchains₁, hchains₂, rfl, -⟩ := hfound
    -- a document of the working directory is found by the dot, and once more by the empty path
    obtain ⟨q, hq⟩ := List.exists_mem_of_ne_nil _ hdocuments
    obtain ⟨found, hreads, hmem⟩ := hchains₂.exists_reads hq
    obtain ⟨here, hhere, name, hname, rfl, hexists, hfile⟩ := mem_documentsIn_iff.1 hq
    obtain rfl := List.mem_singleton.1 hhere
    have halike : cwd.Alike ((⟨""⟩ : FilePath).join ⟨name⟩) (above.join ⟨name⟩) :=
      alike_join ((List.append_nil _).trans hroute.symm) hname
    have hq' := mem_documentsIn_iff.2 ⟨above, habove, name, hname, rfl,
      (hw.exists_eq halike).symm.trans hexists, (hw.isFile_eq halike).symm.trans hfile⟩
    obtain ⟨-, -, hmem'⟩ := hchains₁.exists_reads hq'
    obtain ⟨hplace, -⟩ := hreads.of_alike hw halike
    exact List.disjoint_of_nodup_append hnodup (hplace ▸ hmem') hmem

/-- A path written out from the root finds what the relative one finds, and then the documents in
the directories above the working directory. -/
theorem stack_join_iff (hw : w.ResolvesFrom cwd) (hp : p.isAbsolute = false) (h : ¬ w.Stumbles p) :
    w.Stack [cwd.join p] explicit environment places docs ↔
      ∃ places₁ docs₁ places₂ below, w.Stack [p] explicit environment places₁ docs₁ ∧
        w.Chains (w.documentsIn cwd.directoriesOver) places₂ below ∧
        (places₁ ++ places₂).Nodup ∧ places = places₁ ++ places₂ ∧
        docs = docs₁ ++ (below.map List.reverse).flatten := by
  obtain ⟨hne, hdotted⟩ := not_or.1 h
  obtain ⟨directory, directory', hstart, hstart', hwritten, hdot⟩ :=
    exists_startDirectory hw hp hne
  obtain ⟨up, up', beyond, hup, hup', hroutes, hoverroutes, -⟩ :=
    hwritten.exists_directories hw.absolute
  have hdocuments : w.documentsAbove directory = w.documentsIn up := by
    rw [documentsAbove, hup, documentsIn_append]
    split
    · next hdirectory =>
      have hnone := not_not.1 fun hne => hdotted ⟨hdot ▸ hdirectory, hne⟩
      rw [hnone, List.append_nil]
    · exact List.append_nil _
  have hsplit : w.documentsAbove directory' = w.documentsIn up' ++ w.documentsIn beyond := by
    rw [documentsAbove, hup', documentsIn_append]
  have halike : (w.documentsIn up').Forall₂ cwd.Alike (w.documentsIn up) :=
    alike_documentsIn hw hroutes
  have halikeOver :
      (w.documentsIn beyond).Forall₂ cwd.Alike (w.documentsIn cwd.directoriesOver) :=
    alike_documentsIn hw hoverroutes
  constructor
  · rintro ⟨directory₁, found, asked, named, hdir, hfound, hnodup, hasked, hnamed, rfl⟩
    obtain rfl := Except.ok.inj (hstart'.symm.trans hdir)
    rw [hsplit, chains_append_iff] at hfound
    obtain ⟨places₁, places₂, chains₁, chains₂, h₁, h₂, rfl, rfl⟩ := hfound
    refine ⟨places₁, named ++ asked ++ (chains₁.map List.reverse).flatten, places₂, chains₂,
      ⟨directory, chains₁, asked, named, hstart, ?_, hnodup.of_append_left, hasked, hnamed, rfl⟩,
      h₂.of_alike hw halikeOver, hnodup, rfl, by simp⟩
    rw [hdocuments]
    exact h₁.of_alike hw halike
  · rintro ⟨places₁, _, places₂, below, ⟨directory₁, found, asked, named, hdir, hfound, -, hasked,
      hnamed, rfl⟩, hbelow, hnodup, rfl, rfl⟩
    obtain rfl := Except.ok.inj (hstart.symm.trans hdir)
    rw [hdocuments] at hfound
    refine ⟨directory', found ++ below, asked, named, hstart', ?_, hnodup, hasked, hnamed, by simp⟩
    rw [hsplit]
    exact ((chains_iff_of_alike hw halike).2 hfound).append
      ((chains_iff_of_alike hw halikeOver).2 hbelow)

/-- The documents above the working directory can be read besides those of a run, and change
nothing. -/
def AddsNothing (w : World) (cwd : FilePath) (places : List FilePlace) (docs : List LintDocument) :
    Prop :=
  ∃ places' below, w.Chains (w.documentsIn cwd.directoriesOver) places' below ∧
    (places ++ places').Nodup ∧ LintConfig.Redundant docs (below.map List.reverse).flatten

/-- When the spelling of an input does not matter. A relative path finds the same settings as the
same path written out from the root, or neither finds any, exactly if what the search meets only in
the first case, or only in the second, makes no difference: if the relative path comes to no
directory, or twice to documents of the working directory, the other one has to fail, too; and if
the relative path finds settings, the documents in the directories above the working directory have
to be readable and must not change anything. -/
theorem discover_join_iff (hw : w.ResolvesFrom cwd) (hp : p.isAbsolute = false) :
    (w.discover [p] explicit environment).toOption =
        (w.discover [cwd.join p] explicit environment).toOption ↔
      (w.Stumbles p → (w.discover [cwd.join p] explicit environment).toOption = none) ∧
      ∀ places docs, w.Stack [p] explicit environment places docs →
        w.AddsNothing cwd places docs := by
  have hsettings {inputs : List FilePath} {c : LintConfig} :
      (w.discover inputs explicit environment).toOption = some c ↔
        ∃ places docs, w.Stack inputs explicit environment places docs ∧ c = .ofDocuments docs := by
    rw [← discover_eq_ok_iff_stack, toOption_eq_some_iff]
  have hnone (h : w.Stumbles p) : (w.discover [p] explicit environment).toOption = none := by
    refine Option.eq_none_iff_forall_ne_some.2 fun c hc => ?_
    obtain ⟨places, docs, hstack, -⟩ := hsettings.1 hc
    exact h.not_stack hw hp hstack
  constructor
  · intro heq
    refine ⟨fun h => heq ▸ hnone h, fun places docs hstack => ?_⟩
    have habs := heq ▸ hsettings.2 ⟨places, docs, hstack, rfl⟩
    obtain ⟨places', docs', hstack', hdocs⟩ := hsettings.1 habs
    have hstumbles : ¬ w.Stumbles p := fun h => h.not_stack hw hp hstack
    obtain ⟨places₁, docs₁, places₂, below, hstack₁, hbelow, hnodup, -, rfl⟩ :=
      (stack_join_iff hw hp hstumbles).1 hstack'
    obtain ⟨rfl, rfl⟩ := hstack₁.det hstack
    exact ⟨places₂, below, hbelow, hnodup, LintConfig.ofDocuments_append_eq_iff.1 hdocs.symm⟩
  · rintro ⟨hstumbles, hadds⟩
    by_cases h : w.Stumbles p
    · rw [hnone h, hstumbles h]
    refine Option.ext fun c => ?_
    rw [hsettings, hsettings]
    constructor
    · rintro ⟨places, docs, hstack, rfl⟩
      obtain ⟨places', below, hbelow, hnodup, hredundant⟩ := hadds places docs hstack
      exact ⟨_, _, (stack_join_iff hw hp h).2
        ⟨places, docs, places', below, hstack, hbelow, hnodup, rfl, rfl⟩,
        (LintConfig.ofDocuments_append_eq_iff.2 hredundant).symm⟩
    · rintro ⟨_, _, hstack', rfl⟩
      obtain ⟨places, docs, places', below, hstack, hbelow, -, -, rfl⟩ :=
        (stack_join_iff hw hp h).1 hstack'
      obtain ⟨places₁, below₁, hbelow₁, -, hredundant⟩ := hadds places docs hstack
      obtain ⟨-, rfl⟩ := hbelow₁.det hbelow
      exact ⟨places, docs, hstack, LintConfig.ofDocuments_append_eq_iff.2 hredundant⟩

/-- Two directories whose documents say the same. -/
def sameSettings : World :=
  .ofFiles ["app"] [(["lint.yaml"], "disabled: [guarded_by]",
      .fields [("disabled", .sequence [.string "guarded_by"])]),
    (["app", "lint.yaml"], "disabled: [guarded_by]",
      .fields [("disabled", .sequence [.string "guarded_by"])])]

private theorem resolvesFrom_sameSettings : sameSettings.ResolvesFrom ⟨"/app"⟩ :=
  Disk.Sound.resolvesFrom ⟨by decide +kernel, by decide +kernel, by decide +kernel, rfl⟩

/-- The path written from the lower directory finds its document only, and the path written out from
the root both, which is no difference. -/
theorem discover_join_iff_sameSettings : sameSettings.ResolvesFrom ⟨"/app"⟩ ∧
    (⟨"A.java"⟩ : FilePath).isAbsolute = false ∧
    (sameSettings.discover [⟨"A.java"⟩] none none).toOption =
      (sameSettings.discover [⟨"/app/A.java"⟩] none none).toOption ∧
    (∃ places docs, sameSettings.Stack [⟨"A.java"⟩] none none places docs) ∧
    ∀ places docs, sameSettings.Stack [⟨"A.java"⟩] none none places docs →
      sameSettings.AddsNothing ⟨"/app"⟩ places docs := by
  have hjoin : (⟨"/app"⟩ : FilePath).join ⟨"A.java"⟩ = ⟨"/app/A.java"⟩ := by decide +kernel
  have heq : (sameSettings.discover [⟨"A.java"⟩] none none).toOption =
      (sameSettings.discover [⟨"/app/A.java"⟩] none none).toOption := by
    decide +kernel
  have hsettings : (sameSettings.discover [⟨"A.java"⟩] none none).toOption.map
      (·.disabled.toList) = some ["guarded_by"] := by
    decide +kernel
  obtain ⟨c, hc, -⟩ := exists_ok_of_map_toOption hsettings
  obtain ⟨places, docs, hstack, -⟩ := discover_eq_ok_iff_stack.1 hc
  exact ⟨resolvesFrom_sameSettings, rfl, heq, ⟨places, docs, hstack⟩,
    ((discover_join_iff resolvesFrom_sameSettings rfl).1 (hjoin.symm ▸ heq)).2⟩

end World

namespace Counter

/-- Settings in the directory above the working directory. -/
def settingsAbove : World :=
  .ofFiles ["sub"] [(["lint.yaml"], "disabled: [guarded_by]",
      .fields [("disabled", .sequence [.string "guarded_by"])]),
    (["sub", "A.java"], "", .null)]

/-- Settings in the working directory. -/
def settingsHere : World :=
  .ofFiles [] [(["lint.yaml"], "disabled: [guarded_by]",
    .fields [("disabled", .sequence [.string "guarded_by"])])]

/-- Settings above the working directory are not found for a relative path, and those in it are
refused as cyclic if the path starts with a dot; for the same paths written out from the root they
are found. If the path starts with two dots, they are refused where it is written out. -/
theorem discover_by_spelling :
    (settingsAbove.ResolvesFrom ⟨"/sub"⟩ ∧ settingsHere.ResolvesFrom ⟨"/"⟩) ∧
    ((∃ c, settingsAbove.discover [⟨"A.java"⟩] none none = .ok c ∧ c.disabled.toList = []) ∧
      ∃ c, settingsAbove.discover [(⟨"/sub"⟩ : FilePath).join ⟨"A.java"⟩] none none = .ok c ∧
        c.disabled.toList = ["guarded_by"]) ∧
    (settingsHere.discover [⟨"."⟩] none none = .error (.cyclic ⟨"lint.yaml"⟩) ∧
      ∃ c, settingsHere.discover [(⟨"/"⟩ : FilePath).join ⟨"."⟩] none none = .ok c ∧
        c.disabled.toList = ["guarded_by"]) ∧
    (∃ c, settingsAbove.discover [⟨"../B.java"⟩] none none = .ok c ∧
        c.disabled.toList = ["guarded_by"]) ∧
      settingsAbove.discover [(⟨"/sub"⟩ : FilePath).join ⟨"../B.java"⟩] none none =
        .error (.cyclic ⟨"/lint.yaml"⟩) := by
  have habove : settingsAbove.ResolvesFrom ⟨"/sub"⟩ :=
    Disk.Sound.resolvesFrom ⟨by decide +kernel, by decide +kernel, by decide +kernel, rfl⟩
  have hhere : settingsHere.ResolvesFrom ⟨"/"⟩ :=
    Disk.Sound.resolvesFrom ⟨by decide +kernel, by decide +kernel, by decide +kernel, rfl⟩
  refine ⟨⟨habove, hhere⟩, ⟨exists_ok_of_map_toOption ?_, exists_ok_of_map_toOption ?_⟩,
    ⟨?_, exists_ok_of_map_toOption ?_⟩, exists_ok_of_map_toOption ?_, ?_⟩ <;> decide +kernel

end Counter

end LockDiscipline
