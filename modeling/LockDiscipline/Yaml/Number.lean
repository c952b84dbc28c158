import LockDiscipline.Decimal.Shortest

/-!
Numbers as they are written in YAML: integers in four bases, and numbers with a point or an
exponent.
-/

namespace LockDiscipline.Yaml

/-- A number. -/
inductive Number where
  | integer (value : Int)
  | finite (value : Binary64)
  | infinite (negative : Bool)
  | notANumber
  deriving DecidableEq, Repr

namespace Number

/-- The number as text. -/
def render : Number → String
  | .integer value => toString value
  | .finite value => value.render
  | .infinite negative => if negative then "-.inf" else ".inf"
  | .notANumber => ".nan"

/-- Whether two numbers count as the same key: zeros of both signs do, and so do two values that are
not a number; an integer is never the same as a number with a point. -/
def same : Number → Number → Bool
  | .finite x, .finite y => x = y || (x.significand = 0 && y.significand = 0)
  | a, b => a = b

end Number

/-- The value of a digit in a base up to 16. -/
def digit? (base : Nat) (c : Char) : Option Nat :=
  let value :=
    if '0' ≤ c ∧ c ≤ '9' then some (c.toNat - '0'.toNat)
    else if 'a' ≤ c ∧ c ≤ 'f' then some (c.toNat - 'a'.toNat + 10)
    else if 'A' ≤ c ∧ c ≤ 'F' then some (c.toNat - 'A'.toNat + 10)
    else none
  value.filter (· < base)

/-- The value of a text that consists of digits, at least one of them. -/
def digits? (base : Nat) (cs : List Char) : Option Nat := do
  if cs.isEmpty then none
  else
    let digits ← cs.mapM (digit? base)
    return digits.foldl (fun v d => base * v + d) 0

/-- The sign of a number, and what follows it. -/
def splitSign : List Char → Bool × List Char
  | '+' :: rest => (false, rest)
  | '-' :: rest => (true, rest)
  | cs => (false, cs)

/-- Whether a text consists of digits, of which the first is a zero and not the only one. Such a
text is no number. -/
def hasLeadingZero (cs : List Char) : Bool :=
  match (splitSign cs).2 with
  | '0' :: rest => !rest.isEmpty && rest.all Char.isDigit
  | _ => false

/-- The integer that a text stands for: digits after `0x`, `0o` or `0b` are those of base 16, 8
or 2. -/
def integer? (cs : List Char) : Option Int :=
  let (negative, rest) := splitSign cs
  let size := match rest with
    | '0' :: 'x' :: digits => digits? 16 digits
    | '0' :: 'o' :: digits => digits? 8 digits
    | '0' :: 'b' :: digits => digits? 2 digits
    | digits => if hasLeadingZero cs then none else digits? 10 digits
  size.map fun n => if negative then -(n : Int) else n

/-- Integers that are kept. -/
def isKept (n : Int) : Bool := -(1 <<< 63 : Nat) ≤ n && n < (1 <<< 64 : Nat)

/-- Integers that are recognised. Those of them that are not kept are refused; larger ones are read
as numbers with a point. -/
def isRecognised (n : Int) : Bool := -(1 <<< 127 : Nat) ≤ n && n < (1 <<< 128 : Nat)

/-- The finite number that a text of digits, at most one point among them, and perhaps an exponent
stands for. -/
def finite? (cs : List Char) : Option Binary64 := do
  let (negative, rest) := splitSign cs
  let whole := rest.takeWhile Char.isDigit
  let rest := rest.drop whole.length
  let (fraction, rest) := match rest with
    | '.' :: rest => (rest.takeWhile Char.isDigit, rest.dropWhile Char.isDigit)
    | _ => ([], rest)
  let exponent : Int ← match rest with
    | [] => some 0
    | e :: rest =>
      if e = 'e' ∨ e = 'E' then
        let (negative, digits) := splitSign rest
        (digits? 10 digits).map fun n => if negative then -(n : Int) else n
      else none
  let digits ← digits? 10 (whole ++ fraction)
  Binary64.ofDecimal negative digits (exponent - fraction.length)

/-- The number with a point that a text stands for: a finite one, an infinity or `.nan`. -/
def real? (cs : List Char) : Option Number :=
  let word := String.ofList (splitSign cs).2
  if word ∈ [".inf", ".Inf", ".INF"] then some (.infinite (splitSign cs).1)
  else if String.ofList cs ∈ [".nan", ".NaN", ".NAN"] then some .notANumber
  else (finite? cs).map .finite

end LockDiscipline.Yaml
