import LockDiscipline.Yaml.Node
import LockDiscipline.Yaml.Value

/-!
One reader of YAML, so that the search for settings can be run. It gives no reasons for what it
refuses. Nothing that is proved of the search depends on it.
-/

namespace LockDiscipline.Yaml

/-- Whether a word means the missing value. -/
def isNull (text : String) : Bool := text ∈ ["null", "Null", "NULL", "~"]

/-- The truth value that a word means. -/
def bool? (text : String) : Option Bool :=
  if text ∈ ["true", "True", "TRUE"] then some true
  else if text ∈ ["false", "False", "FALSE"] then some false
  else none

/-- The integer that a text stands for as a value, if it stands for one that is recognised; refused
if it is recognised, but not kept. -/
def intValue? (text : String) : Option (Option Value) :=
  match (integer? text.toList).filter isRecognised with
  | some n => if isKept n then some (some (.number (.integer n))) else none
  | none => some none

/-- The value of a plain scalar: what its text looks like. -/
def plainValue? (text : String) : Option Value := do
  if text = "" ∨ isNull text then return .null
  if let some b := bool? text then return .bool b
  match ← intValue? text with
  | some value => return value
  | none =>
    if hasLeadingZero text.toList then return .string text
    else match real? text.toList with
      | some number => return .number number
      | none => return .string text

/-- The tag of the standard name. -/
def standardTag (name : String) : List UInt8 := bytesOf ("tag:yaml.org,2002:" ++ name).toList

/-- The value of a scalar with a tag that does not start with an exclamation mark. The standard tags
of truth values, numbers and the missing value ask for a text of that kind, any other tag for
text. -/
def taggedScalar? (tag : List UInt8) (text : String) : Option Value :=
  if tag = standardTag "bool" then (bool? text).map .bool
  else if tag = standardTag "int" then (intValue? text).join
  else if tag = standardTag "float" then (real? text.toList).map .number
  else if tag = standardTag "null" then (if isNull text then some .null else none)
  else some (.string text)

/-- A tag without the exclamation mark at its start, unless that is all of it. -/
def withoutMark : List UInt8 → List UInt8
  | 0x21 :: byte :: rest => byte :: rest
  | tag => tag

/-- The name of a tag that starts with an exclamation mark. A second mark behind the first does not
tell tags apart. -/
def localName? (tag : List UInt8) : Option String :=
  if tag.head? = some 0x21 then String.fromUTF8? ⟨(withoutMark (withoutMark tag)).toArray⟩
  else none

/-- What aliases in a document refer to, and how often they may be followed. -/
structure Aliases where
  targets : List (Nat × Node)
  limit : Nat

/-- The aliases of a document: of the anchors of one number the last one counts, and all aliases
together may be followed a hundred times for each step of the document. -/
def Aliases.ofRoot (root : Node) : Aliases :=
  { targets := (root.all.filterMap fun node => node.anchor?.map (·, node)).reverse
    limit := 100 * root.all.foldl (fun n node => n + node.steps) 0 }

/-- Reading of values, which counts the aliases that were followed. -/
abbrev Reading := StateT Nat Option

/-- The node itself, or the one that it refers to. -/
def Aliases.follow (aliases : Aliases) : Node → Reading Node
  | .reference number => do
    let followed ← get
    if aliases.limit ≤ followed then failure
    set (followed + 1)
    match aliases.targets.lookup number with
    | some node => return node
    | none => failure
  | node => return node

/-- The value with its tag, if that starts with an exclamation mark. -/
def wrapTag (tag : Option (List UInt8)) (value : Value) : Value :=
  match tag.bind localName? with
  | none => value
  | some name => .tagged name value

/-- The value of a scalar. -/
def scalarValue? (p : Properties) (text : String) (isPlain : Bool) : Option Value :=
  match p.tag with
  | some tag =>
    if tag.head? = some 0x21 then
      (if isPlain then plainValue? text else some (.string text)).map (wrapTag p.tag)
    else taggedScalar? tag text
  | none => if isPlain then plainValue? text else some (.string text)

/-- The entries of a mapping one after another; refused if a key is repeated. -/
def entries? (read : Node → Reading Value) (seen : List (Value × Value)) :
    List (Node × Node) → Reading (List (Value × Value))
  | [] => return seen.reverse
  | (key, value) :: rest => do
    let key ← read key
    if seen.any fun entry => entry.1.same key then failure
    let value ← read value
    entries? read ((key, value) :: seen) rest

/-- The value of a node. Collections are at most `depth` deep inside each other. -/
def Node.value (aliases : Aliases) (depth : Nat) (node : Node) : Reading Value := do
  match ← aliases.follow node with
  | .reference _ => failure
  | .scalar p text isPlain => StateT.lift (scalarValue? p text isPlain)
  | .sequence p items =>
    match depth with
    | 0 => failure
    | depth + 1 =>
      let items ← items.mapM (Node.value aliases depth)
      return wrapTag p.tag (.sequence items)
  | .mapping p entries =>
    match depth with
    | 0 => failure
    | depth + 1 =>
      let entries ← entries? (Node.value aliases depth) [] entries
      return wrapTag p.tag (.mapping entries)

/-- The value that a text stands for; none if it is no YAML document, or one that repeats a key,
holds an integer of more than 64 bits, nests too deep or follows aliases too often. -/
def value? (text : String) : Option Value := do
  let ts ← tokens? text
  match ← document? ts with
  | none => return .null
  | some root => return (← (root.value (Aliases.ofRoot root) maxDepth).run 0).1

/-- The reader as one among others. -/
def reader : Reader where
  read text := (value? text).elim (.error "") .ok
  misfit _ := ""

end LockDiscipline.Yaml
