import LockDiscipline.Yaml.Scalar
import LockDiscipline.Yaml.Tag

/-!
The tokens of a YAML text. Indentation becomes tokens for the start and the end of blocks, what a
colon turns out to make a key gets a token in front of it, and the names of anchors become numbers.
-/

namespace LockDiscipline.Yaml

/-- A token. -/
inductive Token where
  | version (major minor : Nat)
  | tagDirective (directive : TagDirective)
  | documentStart
  | documentEnd
  | blockSequenceStart
  | blockMappingStart
  | blockEnd
  | flowSequenceStart
  | flowSequenceEnd
  | flowMappingStart
  | flowMappingEnd
  | blockEntry
  | flowEntry
  | key
  | value
  | reference (number : Nat)
  | anchor (number : Nat)
  | tag (name : TagName)
  | scalar (text : String) (isPlain : Bool)
  deriving DecidableEq, Repr

/-- The numbers of the anchors read so far. -/
structure Anchors where
  /-- Names with their numbers, the last ones first. -/
  numbers : List (String × Nat) := []
  /-- How many different names there are. -/
  size : Nat := 0

namespace Anchors

/-- The number that an alias of this name stands for. -/
def find? (a : Anchors) (name : String) : Option Nat := a.numbers.lookup name

/-- Gives the next number to an anchor. A name that was given before gets another number, but does
not count again: the next new name shares that number with it. -/
def add (a : Anchors) (name : String) : Anchors :=
  { numbers := (name, a.size) :: a.numbers
    size := if (a.find? name).isSome then a.size else a.size + 1 }

end Anchors

/-- A place where a key may turn out to have started. -/
structure KeyStart where
  /-- The number of the token that starts there. -/
  token : Nat
  place : Place
  /-- Whether nothing but a key can start there. -/
  required : Bool
  deriving DecidableEq, Repr

/-- How deep collections may be inside each other. -/
def maxDepth : Nat := 128

/-- The state in which tokens are read. -/
structure Lexer where
  cursor : Cursor
  /-- The tokens read so far, the last ones first. -/
  tokens : List Token := []
  /-- How many tokens there are. -/
  count : Nat := 0
  anchors : Anchors := {}
  /-- The least column that lies inside the innermost block; 0 outside of all blocks. -/
  margin : Nat := 0
  /-- The margins of the blocks around the innermost one. -/
  margins : List Nat := []
  /-- Whether a key may start at the next token. -/
  keyAllowed : Bool := true
  /-- The last place at which a key of the innermost pair of brackets may have started. -/
  keyStart : Option KeyStart := none
  /-- Such places for the pairs of brackets around it, and for the text outside of them. -/
  outerKeyStarts : List (Option KeyStart) := []

namespace Lexer

/-- Whether the cursor is within brackets. -/
def inFlow (s : Lexer) : Bool := !s.outerKeyStarts.isEmpty

/-- Adds a token. -/
def push (s : Lexer) (t : Token) : Lexer :=
  { s with tokens := t :: s.tokens, count := s.count + 1 }

/-- Adds a token in front of the token with the given number. -/
def insert (s : Lexer) (number : Nat) (t : Token) : Lexer :=
  let behind := s.count - number
  { s with tokens := s.tokens.take behind ++ t :: s.tokens.drop behind, count := s.count + 1 }

/-- Adds a token of one character, and goes past it. -/
def pushMark (s : Lexer) (t : Token) : Lexer :=
  { s.push t with cursor := s.cursor.skip 1 }

/-- Starts a block at a column, unless the innermost block starts there or behind it. The block
starts in front of the token with the given number. -/
def openBlock (s : Lexer) (column number : Nat) (t : Token) : Lexer :=
  if s.inFlow ∨ column < s.margin then s
  else { s.insert number t with margin := column + 1, margins := s.margin :: s.margins }

/-- Ends the blocks that have a margin greater than `margin`. -/
def closeBlocks (s : Lexer) (margin : Nat) : Lexer :=
  if s.inFlow then s
  else go s s.margins
where
  /-- Ends blocks, the innermost first; `outer` are the margins of the blocks around it. -/
  go (s : Lexer) : List Nat → Lexer
    | [] => s
    | outer :: rest =>
      if margin < s.margin then
        go { s.push .blockEnd with margin := outer, margins := rest } rest
      else s

/-- Whether a place where a key may have started is too far away by now: on an earlier line, or
more than 1024 bytes back. -/
def isStale (s : Lexer) (k : KeyStart) : Bool :=
  k.place.line < s.cursor.place.line || k.place.index + 1024 < s.cursor.place.index

/-- Forgets the places that are too far away; refused if a key had to start at one of them. -/
def dropStaleKeys (s : Lexer) : Option Lexer := do
  let fresh (k : Option KeyStart) : Option (Option KeyStart) :=
    match k with
    | some k => if s.isStale k then (if k.required then none else some none) else some (some k)
    | none => some none
  let keyStart ← fresh s.keyStart
  let outerKeyStarts ← s.outerKeyStarts.mapM fresh
  return { s with keyStart, outerKeyStarts }

/-- Forgets the last place at which a key may have started; refused if one had to. -/
def dropKey (s : Lexer) : Option Lexer :=
  if s.keyStart.any (·.required) then none else some { s with keyStart := none }

/-- Notes that a key may start at the next token. -/
def noteKey (s : Lexer) : Option Lexer :=
  if s.keyAllowed then do
    let s ← s.dropKey
    let place := s.cursor.place
    let required := !s.inFlow && s.margin == place.column + 1
    return { s with keyStart := some ⟨s.count, place, required⟩ }
  else some s

/-- Goes past blanks, comments and line breaks to the next token. A tab counts as a blank where no
key may start, a mark of the byte order at the start of a line. -/
def skipToToken (flow : Bool) (keyAllowed inComment : Bool) (c : Cursor) : Bool × Cursor :=
  match _hb : c.lineBreak? with
  | some (_, d) => skipToToken flow (keyAllowed || !flow) false d
  | none =>
    match _hr : c.rest with
    | [] => (keyAllowed, c)
    | x :: _ =>
      if inComment ∨ x = ' ' ∨ (x = '\t' ∧ (flow ∨ !keyAllowed)) ∨
          (x = '\ufeff' ∧ c.place.column = 0) then
        skipToToken flow keyAllowed inComment (c.skip 1)
      else if x = '#' then skipToToken flow keyAllowed true (c.skip 1)
      else (keyAllowed, c)
termination_by c.rest.length
decreasing_by
  · exact Cursor.lineBreak?_length _hb
  · simp [Cursor.skip, _hr]
  · simp [Cursor.skip, _hr]

/-- Reads a directive, which takes up a line. -/
def directive (s : Lexer) : Option Lexer := do
  let s ← (s.closeBlocks 0).dropKey
  let name := (s.cursor.skip 1).takeWhile isNameChar
  let c := s.cursor.skip (name.length + 1)
  let (t, c) ←
    if !atWordEnd c.rest then none
    else if name = "YAML".toList then
      (version? c).map fun (v, c) => (Token.version v.1 v.2, c)
    else if name = "TAG".toList then
      (tagDirective? c).map fun (d, c) => (Token.tagDirective d, c)
    else none
  let c ← c.endOfLine?
  return { s.push t with cursor := c, keyAllowed := false }

/-- Reads a mark between documents. -/
def documentMark (s : Lexer) (t : Token) : Option Lexer := do
  let s ← (s.closeBlocks 0).dropKey
  return { s.push t with cursor := s.cursor.skip 3, keyAllowed := false }

/-- Reads an opening bracket. -/
def openFlow (s : Lexer) (t : Token) : Option Lexer := do
  let s ← s.noteKey
  return { s.pushMark t with
    keyAllowed := true, keyStart := none, outerKeyStarts := s.keyStart :: s.outerKeyStarts }

/-- Reads a closing bracket. -/
def closeFlow (s : Lexer) (t : Token) : Option Lexer := do
  let s ← s.dropKey
  let s := { s.pushMark t with keyAllowed := false }
  match s.outerKeyStarts with
  | [] => return s
  | k :: rest => return { s with keyStart := k, outerKeyStarts := rest }

/-- Reads a comma between brackets. -/
def flowEntry (s : Lexer) : Option Lexer := do
  let s ← s.dropKey
  return { s.pushMark .flowEntry with keyAllowed := true }

/-- Reads the dash before an item. -/
def blockEntry (s : Lexer) : Option Lexer := do
  let s ←
    if s.inFlow then some s
    else if !s.keyAllowed then none
    else some (s.openBlock s.cursor.place.column s.count .blockSequenceStart)
  let s ← s.dropKey
  return { s.pushMark .blockEntry with keyAllowed := true }

/-- Reads the question mark before a key. -/
def explicitKey (s : Lexer) : Option Lexer := do
  let s ←
    if s.inFlow then some s
    else if !s.keyAllowed then none
    else some (s.openBlock s.cursor.place.column s.count .blockMappingStart)
  let s ← s.dropKey
  return { s.pushMark .key with keyAllowed := !s.inFlow }

/-- Reads the colon before a value. If a key may have started before it, then it did. -/
def value (s : Lexer) : Option Lexer :=
  match s.keyStart with
  | some k =>
    let s := s.insert k.token .key
    let s := s.openBlock k.place.column k.token .blockMappingStart
    some { s.pushMark .value with keyStart := none, keyAllowed := false }
  | none => do
    let s ←
      if s.inFlow then some s
      else if !s.keyAllowed then none
      else some (s.openBlock s.cursor.place.column s.count .blockMappingStart)
    return { s.pushMark .value with keyAllowed := !s.inFlow }

/-- Whether the name of an anchor may end before these characters. -/
def endsName : List Char → Bool
  | [] => true
  | c :: rest =>
    atWordEnd (c :: rest) || c = '?' || c = ':' || c = ',' || c = ']' || c = '}' || c = '%' ||
      c = '@' || c = '\x60'

/-- The name of an anchor behind its mark, and the cursor after it. -/
def anchorName? (c : Cursor) : Option (String × Cursor) :=
  let name := (c.skip 1).takeWhile isNameChar
  let c := c.skip (name.length + 1)
  if !name.isEmpty ∧ endsName c.rest then some (String.ofList name, c) else none

/-- Reads an anchor. -/
def anchor (s : Lexer) : Option Lexer := do
  let s ← s.noteKey
  let (name, c) ← anchorName? s.cursor
  return { s.push (.anchor s.anchors.size) with
    cursor := c, keyAllowed := false, anchors := s.anchors.add name }

/-- Reads an alias; refused if there is no anchor of its name before it. -/
def reference (s : Lexer) : Option Lexer := do
  let s ← s.noteKey
  let (name, c) ← anchorName? s.cursor
  let number ← s.anchors.find? name
  return { s.push (.reference number) with cursor := c, keyAllowed := false }

/-- Reads a tag. -/
def tag (s : Lexer) : Option Lexer := do
  let s ← s.noteKey
  let (t, c) ← tagName? s.cursor
  if atWordEnd c.rest ∨ (s.inFlow ∧ c.rest.head? = some ',') then
    return { s.push (.tag t) with cursor := c, keyAllowed := false }
  else none

/-- Reads a block of lines. -/
def blockScalar (s : Lexer) (folded : Bool) : Option Lexer := do
  let s ← s.dropKey
  let (text, c) ← block folded s.margin (s.cursor.skip 1)
  return { s.push (.scalar (String.ofList text) false) with cursor := c, keyAllowed := true }

/-- Reads a quoted scalar. -/
def quotedScalar (s : Lexer) (mark : Char) : Option Lexer := do
  let s ← s.noteKey
  let (text, c) ← quoted mark [] ∅ (s.cursor.skip 1)
  return { s.push (.scalar (String.ofList text) false) with cursor := c, keyAllowed := false }

/-- Reads a plain scalar. -/
def plainScalar (s : Lexer) : Option Lexer := do
  let s ← s.noteKey
  let p ← plain s.inFlow s.margin [] ∅ s.cursor
  return { s.push (.scalar (String.ofList p.text) true) with
    cursor := p.cursor, keyAllowed := p.brokeLine }

/-- Reads the token that starts with `x`, before `rest`. -/
def token (s : Lexer) (x : Char) (rest : List Char) : Option Lexer :=
  if s.cursor.place.column = 0 ∧ x = '%' then s.directive
  else if s.cursor.atDocumentMark then
    s.documentMark (if x = '-' then .documentStart else .documentEnd)
  else if x = '[' then s.openFlow .flowSequenceStart
  else if x = '{' then s.openFlow .flowMappingStart
  else if x = ']' then s.closeFlow .flowSequenceEnd
  else if x = '}' then s.closeFlow .flowMappingEnd
  else if x = ',' then s.flowEntry
  else if x = '-' ∧ atWordEnd rest then s.blockEntry
  else if x = '?' ∧ (s.inFlow ∨ atWordEnd rest) then s.explicitKey
  else if x = ':' ∧ (s.inFlow ∨ atWordEnd rest) then s.value
  else if x = '*' then s.reference
  else if x = '&' then s.anchor
  else if x = '!' then s.tag
  else if x = '|' ∧ !s.inFlow then s.blockScalar false
  else if x = '>' ∧ !s.inFlow then s.blockScalar true
  else if x = '\'' ∨ x = '"' then s.quotedScalar x
  else if isBlank x ∨ ['#', '|', '>', '%', '@', '\x60'].contains x then none
  else s.plainScalar

/-- The tokens, once the text has come to its end. -/
def finish (s : Lexer) : Option (List Token) := do
  let s ← (s.closeBlocks 0).dropKey
  return s.tokens.reverse

/-- How many blocks and pairs of brackets are open. -/
def depth (s : Lexer) : Nat := s.margins.length + s.outerKeyStarts.length

/-- Reads all tokens of a text of `size` bytes. A token takes up at least one of them. -/
def run (size : Nat) (s : Lexer) : Option (List Token) :=
  let (keyAllowed, cursor) := skipToToken s.inFlow s.keyAllowed false s.cursor
  let reached : Lexer := { s with keyAllowed, cursor }
  match reached.dropStaleKeys with
  | none => none
  | some t =>
    let t := t.closeBlocks (t.cursor.place.column + 1)
    match t.cursor.rest with
    | [] => t.finish
    | x :: rest =>
      match t.token x rest with
      | none => none
      | some next =>
        if maxDepth < next.depth then none
        else if _h : s.cursor.place.index < next.cursor.place.index ∧
            next.cursor.place.index ≤ size then run size next
        else none
termination_by size - s.cursor.place.index

end Lexer

/-- The tokens of a text; refused if it holds a character that is not allowed, or if collections are
too deep inside each other. -/
def tokens? (text : String) : Option (List Token) :=
  if text.toList.all isAllowed then
    Lexer.run text.utf8ByteSize { cursor := { rest := text.toList } }
  else none

end LockDiscipline.Yaml
