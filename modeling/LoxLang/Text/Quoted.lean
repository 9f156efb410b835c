import LoxLang.Text.Hex
import LoxLang.Text.Printable

/-!
# Quoted text

A text is shown between quotes so that its ends can be seen.  The quotes are
single, unless the text itself has a single quote and no double one.  The quote in
use and the backslash are escaped, and so is every character that is not
printable: tabulator, line feed and carriage return by a letter, the others by
their code point in two, four or eight hexadecimal digits.

## Main definitions

* `quoteFor` — the quote a text is shown with.
* `escaped` — one character as it is shown between quotes.
* `quoted` — the text between its quotes.

## References

The texts that the reference's `Environment` shows when it is listed.
-/

namespace LoxLang

/-- The quote a text is shown with. -/
def quoteFor (cs : List Char) : Char :=
  if cs.contains '\'' && !cs.contains '"' then '"' else '\''

/-- A code point as an escape of the least sufficient width. -/
def codeEscape (n : Nat) : List Char :=
  if n < 0x100 then '\\' :: 'x' :: hexPadded 2 n
  else if n < 0x10000 then '\\' :: 'u' :: hexPadded 4 n
  else '\\' :: 'U' :: hexPadded 8 n

/-- One character as it is shown between quotes `q`. -/
def escaped (q c : Char) : List Char :=
  if c == q || c == '\\' then ['\\', c]
  else if c == '\t' then ['\\', 't']
  else if c == '\n' then ['\\', 'n']
  else if c == '\r' then ['\\', 'r']
  else if isPrintable c then [c]
  else codeEscape c.toNat

/-- The text between its quotes. -/
def quoted (text : String) : String :=
  let cs := text.toList
  let q := quoteFor cs
  String.ofList (q :: cs.flatMap (escaped q) ++ [q])

end LoxLang
