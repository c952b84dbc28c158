import LockDiscipline.Decimal.Binary64

/-!
Numbers with a binary point as decimal texts: the fewest digits that read back to the number, and
of several such decimals the nearest.
-/

namespace LockDiscipline

/-- The decimal `digits * 10 ^ exponent`. -/
structure Decimal where
  digits : Nat
  exponent : Int
  deriving DecidableEq, Repr

namespace Decimal

/-- Compares `digits * 10 ^ exponent` with `n * 2 ^ q`. -/
def compareScaled (d : Decimal) (n : Nat) (q : Int) : Ordering :=
  compare ((d.digits * Nat.pow 10 d.exponent.toNat) <<< (-q).toNat)
    ((n * Nat.pow 10 (-d.exponent).toNat) <<< q.toNat)

/-- Whether the decimal rounds to the number: it lies between the middles to the two neighbours, the
middles included if the significand is even. The neighbour below is half as far away if the
significand is the least of its exponent. -/
def readsBack (d : Decimal) (x : Binary64) : Bool :=
  let narrow := x.significand = 1 <<< 52 ∧ Binary64.minExponent < x.exponent
  let low := if narrow then 4 * x.significand - 1 else 4 * x.significand - 2
  let high := 4 * x.significand + 2
  let closed := x.significand % 2 = 0
  let below := d.compareScaled low (x.exponent - 2)
  let above := d.compareScaled high (x.exponent - 2)
  (below = .gt ∨ (closed ∧ below = .eq)) ∧ (above = .lt ∨ (closed ∧ above = .eq))

/-- The number of decimal digits. -/
def width (n : Nat) : Nat := (Nat.toDigits 10 n).length

/-- The least `k` with `num / den < 10 ^ k`, for a fraction that is not 0. -/
def scale (num den : Nat) : Int :=
  if den ≤ num then width (num / den)
  else
    let w := width (den / num)
    if num * Nat.pow 10 (w - 1) = den then 2 - w else 1 - w

/-- The nearer of the two decimals with `n` digits around the number that read back to it, if one of
them does; of two equally near ones, the one with the even last digit. -/
def withDigits? (x : Binary64) (n : Nat) : Option Decimal :=
  let (num, den) := x.fraction
  let e := scale num den - n
  let num := num * Nat.pow 10 (-e).toNat
  let den := den * Nat.pow 10 e.toNat
  let low : Decimal := ⟨num / den, e⟩
  let high : Decimal := ⟨num / den + 1, e⟩
  match low.readsBack x, high.readsBack x with
  | true, true => some ⟨Binary64.roundDiv num den, e⟩
  | true, false => some low
  | false, true => some high
  | false, false => none

/-- Moves zeros at the end of the digits into the exponent. -/
def stripZeros (d : Decimal) : Decimal :=
  if h : d.digits ≠ 0 ∧ d.digits % 10 = 0 then stripZeros ⟨d.digits / 10, d.exponent + 1⟩ else d
termination_by d.digits
decreasing_by exact Nat.div_lt_self (by omega) (by decide)

/-- The shortest decimal that reads back to a number which is not 0; seventeen digits always do. -/
def ofBinary64 (x : Binary64) : Decimal :=
  match (List.range 17).findSome? fun n => withDigits? x (n + 1) with
  | some d => d.stripZeros
  | none => ⟨(x.significand <<< x.exponent.toNat) * Nat.pow 5 (-x.exponent).toNat, min x.exponent 0⟩

end Decimal

namespace Binary64

/-- The number as text. Numbers from `10 ^ -5` up to, not including, `10 ^ 16` are written with a
point and at least one digit on each side of it, all others as one digit, a point with the other
digits if there are any, and an exponent. -/
def render (x : Binary64) : String :=
  let sign := if x.negative then "-" else ""
  if x.significand = 0 then sign ++ "0.0"
  else
    let d := Decimal.ofBinary64 x
    let digits := toString d.digits
    let point : Int := digits.length + d.exponent
    let zeros (n : Int) : String := String.ofList (List.replicate n.toNat '0')
    let text :=
      if 0 ≤ d.exponent ∧ point ≤ 16 then digits ++ zeros d.exponent ++ ".0"
      else if 0 < point ∧ point ≤ 16 then
        String.ofList (digits.toList.take point.toNat) ++ "." ++
          String.ofList (digits.toList.drop point.toNat)
      else if -5 < point ∧ point ≤ 0 then "0." ++ zeros (-point) ++ digits
      else
        let fraction := String.ofList (digits.toList.drop 1)
        String.ofList (digits.toList.take 1) ++ (if fraction = "" then "" else "." ++ fraction) ++
          "e" ++ toString (point - 1)
    sign ++ text

end Binary64

end LockDiscipline
