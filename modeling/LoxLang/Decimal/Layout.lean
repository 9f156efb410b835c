import LoxLang.Decimal.Shortest

/-!
# Writing numbers

Two texts are written for a number.  What a program prints shows whole numbers in
full and without a point, so that `1.0` and `1` look alike, and names the values
that are not numbers `NaN`, `Infinity` and `-Infinity`.  The exact form, used
where a listing has to tell numbers apart, always has a point or an exponent.  In
both, other numbers have the fewest digits that read back; they are written with
an exponent when the point would stand more than three places before the first
digit or more than sixteen places behind it.

## Main definitions

* `Decimal.layout` — a decimal with a point, or with an exponent.
* `exactText` — the exact form of a number.
* `numberText` — what a program prints for a number.

## References

The reference's `stringify`, for numbers.
-/

namespace LoxLang

/-- The decimal digits of a natural number. -/
def digitChars (n : Nat) : List Char := Nat.toDigits 10 n

/-- An exponent has a sign and at least two digits. -/
def exponentChars (e : Int) : List Char :=
  let ds := digitChars e.natAbs
  (if e < 0 then '-' else '+') :: (if ds.length < 2 then '0' :: ds else ds)

/-- The text of a decimal whose digits are `ds`, with the point `place` digits from
their left end. -/
def layoutDigits (ds : List Char) (place : Int) : List Char :=
  if -4 < place && place ≤ 16 then
    if place ≤ 0 then '0' :: '.' :: (List.replicate (-place).toNat '0' ++ ds)
    else if ds.length ≤ place.toNat then
      ds ++ List.replicate (place.toNat - ds.length) '0' ++ ['.', '0']
    else ds.take place.toNat ++ '.' :: ds.drop place.toNat
  else
    match ds with
    | [] => []
    | [d] => d :: 'e' :: exponentChars (place - 1)
    | d :: rest => d :: '.' :: rest ++ 'e' :: exponentChars (place - 1)

/-- The text of a decimal. -/
def Decimal.layout (d : Decimal) : List Char :=
  let ds := digitChars d.digits
  layoutDigits ds (ds.length + d.exponent)

/-- A minus sign for what is negative. -/
def signChars (negative : Bool) : List Char := if negative then ['-'] else []

/-- The text of a finite number that is written with a point or an exponent. -/
def pointText (negative : Bool) (mantissa : Nat) (power : Int) (narrow : Bool) : String :=
  String.ofList <| signChars negative ++
    if mantissa = 0 then ['0', '.', '0'] else (shortest mantissa power narrow).layout

/-- The exact form of a double. -/
def Double.exactText : Double → String
  | .nan => "nan"
  | .infinite negative => String.ofList (signChars negative) ++ "inf"
  | .finite negative m q narrow => pointText negative m q narrow

/-- What a program prints for a double. -/
def Double.text : Double → String
  | .nan => "NaN"
  | .infinite negative => String.ofList (signChars negative) ++ "Infinity"
  | .finite negative m q narrow =>
      match (Double.finite negative m q narrow).whole? with
      | some n => String.ofList (signChars (negative && n != 0) ++ digitChars n)
      | none => pointText negative m q narrow

/-- The exact form of a number. -/
def exactText (x : Float) : String := (Double.ofFloat x).exactText

/-- What a program prints for a number. -/
def numberText (x : Float) : String := (Double.ofFloat x).text

/-- The number that a run of digits with `places` of them behind the point denotes,
correctly rounded. -/
def numberOfDigits (digits : List Char) (places : Nat) : Float :=
  Float.ofScientific (digits.foldl (fun n c => n * 10 + (c.toNat - '0'.toNat)) 0) true places

end LoxLang
