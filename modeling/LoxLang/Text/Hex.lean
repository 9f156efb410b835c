/-!
# Hexadecimal numerals

Code points, bytes and bit patterns are shown in lower-case hexadecimal, padded
with zeros to a fixed number of digits.

## Main definitions

* `hexDigit` — the digit for a number below sixteen.
* `hexPadded` — the last digits of a number.
-/

namespace LoxLang

/-- The hexadecimal digit for `n` modulo sixteen. -/
def hexDigit (n : Nat) : Char := Nat.digitChar (n % 16)

/-- The last `width` hexadecimal digits of `n`. -/
def hexPadded : (width : Nat) → (n : Nat) → List Char
  | 0, _ => []
  | w + 1, n => hexPadded w (n / 16) ++ [hexDigit n]

end LoxLang
