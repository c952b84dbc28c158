import LockDiscipline.Files.FileSystem
import LockDiscipline.Lint.Document
import LockDiscipline.Report.Failure

/-!
Where settings come from: documents in the directory of the input and in those above it, a document
that is asked for, and one that the environment names. A document may extend another one. The file
system and the reader of YAML are whatever they are.
-/

namespace LockDiscipline

/-- Why settings cannot be found. -/
inductive DiscoveryError where
  /-- There is no input, and no working directory either. -/
  | noWorkingDirectory (cause : String)
  /-- The input is in no directory. -/
  | noDirectory
  /-- A document was read before. -/
  | cyclic (path : FilePath)
  | unreadable (path : FilePath) (cause : String)
  /-- A document is not YAML. -/
  | malformed (path : FilePath) (cause : String)
  /-- The settings in a document are not of the kinds they have to be. -/
  | unfit (path : FilePath) (cause : String)
  deriving DecidableEq, Repr

namespace DiscoveryError

/-- The error in words. -/
def message : DiscoveryError → String
  | .noWorkingDirectory cause => cause
  | .noDirectory => "input had no parent directory"
  | .cyclic path => "cyclic lint configuration detected involving " ++ path.text
  | .unreadable path cause => s!"failed to read lint config `{path.text}`: {cause}"
  | .malformed path cause => s!"failed to parse lint config `{path.text}`: {cause}"
  | .unfit path cause => s!"failed to parse lint settings in `{path.text}`: {cause}"

/-- The error as a failure. -/
def toFailure : DiscoveryError → Failure
  | .noWorkingDirectory cause => .io cause
  | e => .config e.message

end DiscoveryError

/-- What the search for settings rests on: a file system, and a reader of YAML. -/
structure World extends FileSystem where
  yaml : Yaml.Reader

/-- Layers of settings, from the bottom up, and the places of the documents read so far. -/
structure ReadLayers where
  layers : List LintLayer
  visited : List FilePlace
  deriving DecidableEq

namespace World

/-- The document in the text of the file at `path`; none if there are no settings in it. -/
def document (w : World) (path : FilePath) (text : String) :
    Except DiscoveryError (Option LintDocument) :=
  match w.yaml.read (LintDocument.withoutMarker text) with
  | .error cause => .error (.malformed path cause)
  | .ok value =>
    match LintDocument.section? value with
    | none => .ok none
    | some settings =>
      match LintDocument.ofValue? settings with
      | none => .error (.unfit path (w.yaml.misfit settings))
      | some document => .ok (some document)

/-- The layers of the document that a path leads to and of those it extends, the last of them at the
bottom. Refused if a document was visited before. -/
def readChain (w : World) (visited : List FilePlace) (path : FilePath) :
    Except DiscoveryError ReadLayers :=
  if _hv : w.place path ∈ visited then .error (.cyclic path)
  else
    match _hr : w.read path with
    | .error cause => .error (.unreadable path cause)
    | .ok text =>
      match w.document path text with
      | .error e => .error e
      | .ok none => .ok ⟨[], w.place path :: visited⟩
      | .ok (some document) =>
        match document.base with
        | none => .ok ⟨[document.layer], w.place path :: visited⟩
        | some base => do
          let below ← readChain w (w.place path :: visited) (path.sibling ⟨base⟩)
          return { below with layers := below.layers ++ [document.layer] }
termination_by w.unvisited visited
decreasing_by exact FileSystem.unvisited_cons_lt _hr _hv

/-- The names of documents that are found in directories, in the order in which they are read. -/
def documentNames : List String := ["lint.yaml", "lockguard.yaml", "lint.yml"]

/-- The documents in some directories. -/
def documentsIn (w : World) (directories : List FilePath) : List FilePath :=
  (directories.flatMap fun directory => documentNames.map fun name => directory.join ⟨name⟩).filter
    fun path => w.exists? path && w.isFile path

/-- The documents in a directory and in those above it. -/
def documentsAbove (w : World) (directory : FilePath) : List FilePath :=
  w.documentsIn directory.ancestors

/-- The layers of the documents in a directory and in those above it, the topmost at the bottom. No
document may be read twice. The list of all layers is turned around as a whole, and so are the
layers of each document that extends another. -/
def layersAbove (w : World) (directory : FilePath) : Except DiscoveryError (List LintLayer) := do
  let read ← (w.documentsAbove directory).foldlM
    (fun (read : ReadLayers) path => do
      let chain ← w.readChain read.visited path
      return { chain with layers := read.layers ++ chain.layers })
    ⟨[], []⟩
  return read.layers.reverse

/-- The directory that settings are looked for from: the first input if it is a directory, or else
the one it is in; the working directory if there is no input. -/
def startDirectory (w : World) : List FilePath → Except DiscoveryError FilePath
  | [] => w.workingPath.mapError .noWorkingDirectory
  | input :: _ =>
    if w.isDirectory input then .ok input
    else match input.parent? with
      | some directory => .ok directory
      | none => .error .noDirectory

/-- The settings for some inputs: the default ones, under those found in directories, under those of
a document that is asked for, under those of the document that the environment names, if there is
one at its path. -/
def discover (w : World) (inputs : List FilePath) (explicit environment : Option FilePath) :
    Except DiscoveryError LintConfig := do
  let directory ← w.startDirectory inputs
  let found ← w.layersAbove directory
  let asked ← match explicit with
    | some path => do pure (← w.readChain [] path).layers
    | none => pure []
  let named ← match environment.filter w.exists? with
    | some path => do pure (← w.readChain [] path).layers
    | none => pure []
  return (found ++ asked ++ named).foldl .applyLayer .default

end World

end LockDiscipline
