import LockDiscipline.Yaml.Cursor

/-!
Tags as they are written: a handle, and a suffix that the handle completes to the tag. Tags are
bytes, because they may hold any bytes behind percent signs.
-/

namespace LockDiscipline.Yaml

/-- The bytes of a text. -/
def bytesOf (cs : List Char) : List UInt8 := (String.ofList cs).toUTF8.toList

/-- Whether the character may stand for itself in a tag. -/
def isTagChar (c : Char) : Bool := isNameChar c || ";/?:@&=+$.!~*'()".toList.contains c

/-- How many bytes a character takes of which this is the first; none if it is not a first byte. -/
def bytesOfCharacter? (first : Nat) : Option Nat :=
  if first < 0x80 then some 1
  else if 0xC0 ≤ first ∧ first < 0xE0 then some 2
  else if 0xE0 ≤ first ∧ first < 0xF0 then some 3
  else if 0xF0 ≤ first ∧ first < 0xF8 then some 4
  else none

/-- The bytes of the tag that stands at the start of a text, some of which may be written behind
percent signs, and how many characters it is written with. Brackets and commas may be among them if
`verbatim`; `missing` is how many bytes of a character are still to come. -/
def tagText? (verbatim : Bool) (missing : Nat) : List Char → Option (List UInt8 × Nat)
  | '%' :: a :: b :: rest => do
    let byte := 16 * (← hexDigit? a) + (← hexDigit? b)
    let missing ←
      if missing = 0 then (bytesOfCharacter? byte).map (· - 1)
      else if 0x80 ≤ byte ∧ byte < 0xC0 then some (missing - 1)
      else none
    let (bytes, n) ← tagText? verbatim missing rest
    return (.ofNat byte :: bytes, n + 3)
  | c :: rest =>
    if c = '%' ∨ missing ≠ 0 then none
    else if isTagChar c ∨ (verbatim ∧ ",[]".toList.contains c) then do
      let (bytes, n) ← tagText? verbatim 0 rest
      return (.ofNat c.toNat :: bytes, n + 1)
    else some ([], 0)
  | [] => if missing = 0 then some ([], 0) else none

/-- What was read of a tag: its bytes up to the first byte 0, the number of its characters, and the
cursor after them. -/
structure TagText where
  bytes : List UInt8
  length : Nat
  cursor : Cursor

/-- Reads the tag that stands at the cursor. -/
def Cursor.tagText? (c : Cursor) (verbatim : Bool) : Option TagText :=
  (Yaml.tagText? verbatim 0 c.rest).map fun (bytes, n) =>
    ⟨bytes.takeWhile (· ≠ 0), n, c.skip n⟩

/-- A tag as it is written. The empty handle stands for nothing. -/
structure TagName where
  handle : List Char
  suffix : List UInt8
  deriving DecidableEq, Repr

/-- Reads a tag of the form that starts with an exclamation mark. -/
def tagName? (c : Cursor) : Option (TagName × Cursor) :=
  match (c.skip 1).rest with
  | '<' :: _ => do
    let t ← (c.skip 2).tagText? true
    if t.cursor.rest.head? ≠ some '>' ∨ t.length = 0 then none
    else return (⟨[], t.bytes⟩, t.cursor.skip 1)
  | _ => do
    let name := (c.skip 1).takeWhile isNameChar
    let behind := c.skip (name.length + 1)
    if behind.rest.head? = some '!' then
      let t ← (behind.skip 1).tagText? false
      if t.length = 0 then none
      else return (⟨'!' :: (name ++ ['!']), t.bytes⟩, t.cursor)
    else
      let t ← behind.tagText? false
      let suffix := bytesOf name ++ t.bytes
      if suffix.isEmpty then return (⟨[], bytesOf ['!']⟩, t.cursor)
      else return (⟨['!'], suffix⟩, t.cursor)

/-- What a handle stands for. -/
structure TagDirective where
  handle : List Char
  expansion : List UInt8
  deriving DecidableEq, Repr

/-- The directives that hold without being written. -/
def TagDirective.standard : List TagDirective :=
  [⟨['!'], bytesOf ['!']⟩, ⟨['!', '!'], bytesOf "tag:yaml.org,2002:".toList⟩]

/-- Reads the handle and the expansion of a tag directive. -/
def tagDirective? (c : Cursor) : Option (TagDirective × Cursor) := do
  let c := c.skipWhile isBlank
  if c.rest.head? ≠ some '!' then none
  else
    let name := (c.skip 1).takeWhile isNameChar
    let behind := c.skip (name.length + 1)
    let (handle, c) ←
      if behind.rest.head? = some '!' then some ('!' :: (name ++ ['!']), behind.skip 1)
      else if name.isEmpty then some (['!'], behind)
      else none
    if !c.rest.head?.any isBlank then none
    else
      let t ← (c.skipWhile isBlank).tagText? true
      if t.length = 0 ∨ !atWordEnd t.cursor.rest then none
      else return (⟨handle, t.bytes⟩, t.cursor)

/-- Reads the number of a version, which has nine digits at most. -/
def versionNumber? (c : Cursor) : Option (Nat × Cursor) :=
  let digits := c.takeWhile Char.isDigit
  if digits.isEmpty ∨ 9 < digits.length then none
  else some (digits.foldl (fun v d => 10 * v + (d.toNat - '0'.toNat)) 0, c.skip digits.length)

/-- Reads the two numbers of a version directive. -/
def version? (c : Cursor) : Option ((Nat × Nat) × Cursor) := do
  let (major, c) ← versionNumber? (c.skipWhile isBlank)
  if c.rest.head? ≠ some '.' then none
  else
    let (minor, c) ← versionNumber? (c.skip 1)
    return ((major, minor), c)

/-- The tag that a written tag stands for; none if its handle is unknown. -/
def TagName.resolve? (t : TagName) (directives : List TagDirective) : Option (List UInt8) :=
  if t.handle.isEmpty then some t.suffix
  else (directives.find? (·.handle = t.handle)).map (·.expansion ++ t.suffix)

end LockDiscipline.Yaml
