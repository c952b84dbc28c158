import LockDiscipline.Text.CodeRange

/-!
White space of any script, and its removal from both ends of a text.
-/

namespace LockDiscipline.Text

/-- The code points with the property White_Space, in ascending order. -/
def blankRanges : List CodeRange :=
  [⟨0x9, 0xD⟩, ⟨0x20, 0x20⟩, ⟨0x85, 0x85⟩, ⟨0xA0, 0xA0⟩, ⟨0x1680, 0x1680⟩, ⟨0x2000, 0x200A⟩,
   ⟨0x2028, 0x2029⟩, ⟨0x202F, 0x202F⟩, ⟨0x205F, 0x205F⟩, ⟨0x3000, 0x3000⟩]

/-- A white space character: a space of any width, a tab, or a line or page break. -/
def isBlank (c : Char) : Bool :=
  inTable blankRanges c

/-- The list without the members satisfying `p` at either end. -/
def stripEnds (p : Char → Bool) (cs : List Char) : List Char :=
  ((cs.dropWhile p).reverse.dropWhile p).reverse

/-- The text without the characters satisfying `p` at either end. -/
def strip (p : Char → Bool) (s : String) : String :=
  String.ofList (stripEnds p s.toList)

/-- The text without white space at either end. -/
def trim (s : String) : String :=
  strip isBlank s

end LockDiscipline.Text
