/-!
Where reading stands in a YAML text, the classes of its characters, and the gaps between words,
in which line breaks are folded.
-/

namespace LockDiscipline.Yaml

/-- Whether a text may hold the character at all. -/
def isAllowed (c : Char) : Bool :=
  let n := c.toNat
  n = 0x09 || n = 0x0A || n = 0x0D || (0x20 ≤ n && n ≤ 0x7E) || n = 0x85 ||
    (0xA0 ≤ n && n ≤ 0xFFFD) || 0x10000 ≤ n

/-- Whether the character ends a line. -/
def isBreak (c : Char) : Bool :=
  c = '\n' || c = '\r' || c = '\x85' || c = '\u2028' || c = '\u2029'

/-- Whether the character separates words within a line. -/
def isBlank (c : Char) : Bool := c = ' ' || c = '\t'

/-- Whether the character may stand in names of anchors and of tag handles. -/
def isNameChar (c : Char) : Bool := c.isAlphanum || c = '_' || c = '-'

/-- Whether the character is a bracket, or the comma between what stands in brackets. -/
def isFlowMark (c : Char) : Bool :=
  c = ',' || c = '[' || c = ']' || c = '{' || c = '}'

/-- The value of a hexadecimal digit. -/
def hexDigit? (c : Char) : Option Nat :=
  if '0' ≤ c ∧ c ≤ '9' then some (c.toNat - '0'.toNat)
  else if 'a' ≤ c ∧ c ≤ 'f' then some (c.toNat - 'a'.toNat + 10)
  else if 'A' ≤ c ∧ c ≤ 'F' then some (c.toNat - 'A'.toNat + 10)
  else none

/-- Whether a word ends here: at a blank, at the end of a line or at the end of the text. -/
def atWordEnd : List Char → Bool
  | [] => true
  | c :: _ => isBlank c || isBreak c

/-- The place of a character in a text. -/
structure Place where
  /-- How many bytes of UTF-8 stand before the character. -/
  index : Nat := 0
  line : Nat := 0
  /-- How many characters stand before it on its line. -/
  column : Nat := 0
  deriving DecidableEq, Repr

namespace Place

/-- The place behind characters on the same line. -/
def advance (p : Place) : List Char → Place
  | [] => p
  | c :: rest => advance ⟨p.index + c.utf8Size, p.line, p.column + 1⟩ rest

/-- The start of the next line, after a line break of `n` bytes. -/
def nextLine (p : Place) (n : Nat) : Place :=
  ⟨p.index + n, p.line + 1, 0⟩

end Place

/-- What is left of a text, and the place of its first character. -/
structure Cursor where
  place : Place := {}
  rest : List Char
  deriving DecidableEq, Repr

namespace Cursor

/-- The cursor `n` characters further on the same line. -/
def skip (c : Cursor) (n : Nat) : Cursor := ⟨c.place.advance (c.rest.take n), c.rest.drop n⟩

/-- The characters of a class that stand next. -/
def takeWhile (c : Cursor) (p : Char → Bool) : List Char := c.rest.takeWhile p

/-- The cursor after the characters of a class that stand next, none of which is a line break. -/
def skipWhile (c : Cursor) (p : Char → Bool) : Cursor := c.skip (c.takeWhile p).length

/-- Whether a mark of three equal characters that separates documents stands here. -/
def atDocumentMark (c : Cursor) : Bool :=
  c.place.column = 0 &&
    match c.rest with
    | '-' :: '-' :: '-' :: rest => atWordEnd rest
    | '.' :: '.' :: '.' :: rest => atWordEnd rest
    | _ => false

/-- The line break that stands here, as it counts in a scalar, and the cursor after it. -/
def lineBreak? (c : Cursor) : Option (Char × Cursor) :=
  match c.rest with
  | '\r' :: '\n' :: rest => some ('\n', ⟨c.place.nextLine 2, rest⟩)
  | b :: rest =>
    if isBreak b then
      some (if b = '\u2028' ∨ b = '\u2029' then b else '\n', ⟨c.place.nextLine b.utf8Size, rest⟩)
    else none
  | [] => none

theorem lineBreak?_length {c d : Cursor} {b : Char} (h : c.lineBreak? = some (b, d)) :
    d.rest.length < c.rest.length := by
  unfold lineBreak? at h
  split at h
  · next rest hr =>
    cases h
    simp only [hr, List.length_cons]
    omega
  · next b' rest hr =>
    split at h
    · cases h
      simp [hr]
    · cases h
  · cases h

/-- The cursor at the end of a line, after blanks and a comment; none if other characters stand on
the line. -/
def endOfLine? (c : Cursor) : Option Cursor :=
  let c := c.skipWhile isBlank
  let c := if c.rest.head? = some '#' then c.skipWhile (!isBreak ·) else c
  match c.rest with
  | [] => some c
  | _ => c.lineBreak?.map (·.2)

end Cursor

/-- What stands between two words of a scalar: blanks, or line breaks with blanks around them. The
first break is missing if it was escaped. The blanks, and the breaks after the first, are held
backwards. -/
inductive Gap where
  | blanks (cs : List Char)
  | breaks (first : Option Char) (others : List Char)
  deriving DecidableEq, Repr

namespace Gap

/-- Nothing between the words. -/
def empty : Gap := .blanks []

instance : EmptyCollection Gap := ⟨empty⟩

/-- Whether there is a line break. -/
def isBroken : Gap → Bool
  | .blanks _ => false
  | .breaks _ _ => true

/-- The gap with a blank after it; blanks around line breaks do not count. -/
def addBlank (c : Char) : Gap → Gap
  | .blanks cs => .blanks (c :: cs)
  | .breaks first others => .breaks first others

/-- The gap with a line break after it. -/
def addBreak (b : Char) : Gap → Gap
  | .blanks _ => .breaks (some b) []
  | .breaks first others => .breaks first (b :: others)

/-- A text, held backwards, with the gap at its end: blanks as they are; a single line feed as a
space; of several breaks the first, if it is a line feed, as nothing. -/
def addTo (text : List Char) : Gap → List Char
  | .blanks cs => cs ++ text
  | .breaks (some '\n') [] => ' ' :: text
  | .breaks (some '\n') others => others ++ text
  | .breaks first others => others ++ (first.toList ++ text)

end Gap

end LockDiscipline.Yaml
