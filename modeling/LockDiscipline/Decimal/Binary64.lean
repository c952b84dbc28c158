/-!
Numbers of 64 bits with a binary point, as exact integers: reading a fraction rounds it to the
nearest such number.
-/

namespace LockDiscipline

/-- The finite number `significand * 2 ^ exponent`, with its sign; zero has a sign, too. -/
structure Binary64 where
  negative : Bool
  significand : Nat
  exponent : Int
  deriving DecidableEq, Repr

namespace Binary64

/-- The least exponent: below it there are no bits. -/
def minExponent : Int := -1074

/-- The largest exponent of a significand of 53 bits. -/
def maxExponent : Int := 971

/-- The integer nearest to `num / den`; of two equally near ones, the even one. -/
def roundDiv (num den : Nat) : Nat :=
  let q := num / den
  match compare (2 * (num % den)) den with
  | .lt => q
  | .gt => q + 1
  | .eq => if q % 2 = 0 then q else q + 1

/-- The exponent at which `num / den`, which is not 0, has a significand of 53 bits, or the least
exponent if that is larger. -/
def exponentOf (num den : Nat) : Int :=
  let e : Int := num.log2 - den.log2
  let atLeast := den <<< e.toNat ≤ num <<< (-e).toNat
  max minExponent (if atLeast then e - 52 else e - 53)

/-- The number nearest to `num / den`; of two equally near ones, the one with an even significand.
There is none if the fraction is too large. -/
def round (negative : Bool) (num den : Nat) : Option Binary64 :=
  if num = 0 then some ⟨negative, 0, minExponent⟩
  else
    let q := exponentOf num den
    let m := roundDiv (num <<< (-q).toNat) (den <<< q.toNat)
    let (m, q) := if m = 1 <<< 53 then (1 <<< 52, q + 1) else (m, q)
    if q ≤ maxExponent then some ⟨negative, m, q⟩ else none

/-- The number nearest to `digits * 10 ^ exponent`. Exponents far outside the range of the numbers
are not raised to a power: the result is known to be too large, or 0. -/
def ofDecimal (negative : Bool) (digits : Nat) (exponent : Int) : Option Binary64 :=
  let magnitude : Int := exponent + (Nat.toDigits 10 digits).length
  if digits = 0 ∨ magnitude < -400 then some ⟨negative, 0, minExponent⟩
  else if 400 < magnitude then none
  else round negative (digits * Nat.pow 10 exponent.toNat) (Nat.pow 10 (-exponent).toNat)

/-- The size of the number as a fraction. -/
def fraction (x : Binary64) : Nat × Nat :=
  (x.significand <<< x.exponent.toNat, 1 <<< (-x.exponent).toNat)

end Binary64

end LockDiscipline
