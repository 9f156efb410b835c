import LoxLang.Decimal.Double

/-!
# The shortest decimal that reads back

Reading a decimal rounds it to the nearest double, so every double is what a whole
interval of reals is read as: the reals between the midpoints to its two
neighbours, the midpoints included when its mantissa is even.  A double is written
with the fewest decimal digits that stay in its interval, and of several such
decimals the nearest to it.

A decimal with few digits is a multiple of a large power of ten.  So the powers of
ten are tried from a large one down, and the first one with a multiple in the
interval decides.  If any multiple of a power lies in the interval then so does
one of the two next to the double itself, hence only those two are looked at.  All
comparisons are between natural numbers.

## Main definitions

* `Decimal` — `digits * 10 ^ exponent`.
* `RoundingInterval` — what is read as one double.
* `RoundingInterval.multiple?` — the multiple of a power of ten to write.
* `shortest` — the decimal for `mantissa * 2 ^ power`.

## References

The digits that the reference's `stringify` writes for a number.
-/

namespace LoxLang

/-- The decimal `digits * 10 ^ exponent`. -/
structure Decimal where
  /-- The digits, as one number. -/
  digits : Nat
  /-- The power of ten that they are multiplied by. -/
  exponent : Int
  deriving DecidableEq, Repr

/-- The reals that are read as one positive double, in units of `2 ^ power`. -/
structure RoundingInterval where
  /-- The double itself. -/
  value : Nat
  /-- The midpoint to the next smaller double. -/
  low : Nat
  /-- The midpoint to the next greater double. -/
  high : Nat
  /-- The power of two that is the unit. -/
  power : Int
  /-- Whether the two midpoints belong to the interval. -/
  closed : Bool
  deriving DecidableEq, Repr

namespace RoundingInterval

/-- The interval of `mantissa * 2 ^ power`; `narrow` halves the gap below. -/
def ofParts (mantissa : Nat) (power : Int) (narrow : Bool) : RoundingInterval where
  value := 4 * mantissa
  low := 4 * mantissa - (if narrow then 1 else 2)
  high := 4 * mantissa + 2
  power := power - 2
  closed := mantissa % 2 = 0

/-- What a multiple of `10 ^ e` is scaled by to compare it with the interval. -/
def decimalScale (i : RoundingInterval) (e : Int) : Nat :=
  Nat.pow 10 e.toNat * Nat.pow 2 (-i.power).toNat

/-- What the interval is scaled by to compare it with a multiple of `10 ^ e`. -/
def binaryScale (i : RoundingInterval) (e : Int) : Nat :=
  Nat.pow 2 i.power.toNat * Nat.pow 10 (-e).toNat

/-- Whether `d * 10 ^ e` is read as the double. -/
def has (i : RoundingInterval) (e : Int) (d : Nat) : Bool :=
  let x := d * i.decimalScale e
  let lo := i.low * i.binaryScale e
  let hi := i.high * i.binaryScale e
  if i.closed then lo ≤ x && x ≤ hi else lo < x && x < hi

/-- The multiple of `10 ^ e` that is read as the double and is nearest to it; of two
equally near ones the even one. -/
def multiple? (i : RoundingInterval) (e : Int) : Option Nat :=
  let unit := i.decimalScale e
  let v := i.value * i.binaryScale e
  let d := v / unit
  match i.has e d, i.has e (d + 1) with
  | false, false => none
  | true, false => some d
  | false, true => some (d + 1)
  | true, true =>
      let below := v - d * unit
      let above := (d + 1) * unit - v
      if below < above || (below = above && d % 2 = 0) then some d else some (d + 1)

/-- Tries the powers of ten from `10 ^ e` down, `tries` of them. -/
def search (i : RoundingInterval) : (tries : Nat) → (e : Int) → Option Decimal
  | 0, _ => none
  | n + 1, e =>
      match i.multiple? e with
      | some d => some ⟨d, e⟩
      | none => i.search n (e - 1)

end RoundingInterval

/-- A power of ten that is greater than `mantissa * 2 ^ power`. -/
def decimalBound (mantissa : Nat) (power : Int) : Int :=
  (mantissa.log2 + 1 + power) * 30103 / 100000 + 1

/-- The decimal with the fewest digits that is read as `mantissa * 2 ^ power`.
Seventeen digits always suffice, so twenty-five tries from a power above the number
find one. -/
def shortest (mantissa : Nat) (power : Int) (narrow : Bool) : Decimal :=
  ((RoundingInterval.ofParts mantissa power narrow).search 25 (decimalBound mantissa power)).getD
    ⟨0, 0⟩

end LoxLang
