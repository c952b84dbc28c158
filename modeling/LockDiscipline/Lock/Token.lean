import LockDiscipline.Text.Blank
import LockDiscipline.Text.Letter

/-!
The tokens of a lock expression. White space separates tokens and is dropped; an identifier is
taken as far as it goes.
-/

namespace LockDiscipline

/-- Why a text is no lock expression. -/
inductive LockSyntaxError where
  | unexpectedCharacter (c : Char) (offset : Nat)
  | nothing
  | noHead
  | thisInvoked
  | missingDot
  | thisAsMember
  | missingMember
  | arguments
  | unclosedParenthesis
  deriving DecidableEq, Repr

/-- The error in words; the offset of a character counts the bytes before it. -/
def LockSyntaxError.message : LockSyntaxError → String
  | .unexpectedCharacter c offset => s!"unexpected character `{c}` at offset {offset}"
  | .nothing => "empty lock expression"
  | .noHead => "expected an identifier or `this`"
  | .thisInvoked => "`this` cannot be invoked"
  | .missingDot => "expected `.` between chain elements"
  | .thisAsMember => "`this` is not a member name"
  | .missingMember => "expected a member name after `.`"
  | .arguments => "lock methods take no arguments"
  | .unclosedParenthesis => "unbalanced parentheses"

/-- A token of a lock expression. -/
inductive LockToken where
  | this
  | ident (id : String)
  | dot
  | openParen
  | closeParen
  deriving DecidableEq, Repr

namespace LockToken

/-- Characters that may begin an identifier. -/
def isIdentStart (c : Char) : Bool :=
  Text.isAlphabetic c || c = '_' || c = '$'

/-- Characters that may continue an identifier. -/
def isIdentRest (c : Char) : Bool :=
  Text.isAlphanumeric c || c = '_' || c = '$'

/-- The token of a word: the word `this` is not an identifier. -/
def ofWord (word : String) : LockToken :=
  if word = "this" then .this else .ident word

/-- The number of bytes of the characters in UTF-8. -/
def width : List Char → Nat
  | [] => 0
  | c :: cs => c.utf8Size + width cs

/-- The tokens of `cs`, before which `offset` bytes were read. -/
def scan (offset : Nat) : List Char → Except LockSyntaxError (List LockToken)
  | [] => .ok []
  | c :: rest =>
    if Text.isBlank c then scan (offset + c.utf8Size) rest
    else if c = '.' then (.dot :: ·) <$> scan (offset + c.utf8Size) rest
    else if c = '(' then (.openParen :: ·) <$> scan (offset + c.utf8Size) rest
    else if c = ')' then (.closeParen :: ·) <$> scan (offset + c.utf8Size) rest
    else if isIdentStart c then
      let word := c :: rest.takeWhile isIdentRest
      have := (List.dropWhile_sublist isIdentRest (l := rest)).length_le
      (ofWord (String.ofList word) :: ·) <$>
        scan (offset + width word) (rest.dropWhile isIdentRest)
    else .error (.unexpectedCharacter c offset)
termination_by cs => cs.length

end LockToken

end LockDiscipline
