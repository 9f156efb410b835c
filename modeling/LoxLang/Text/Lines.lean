/-!
# Lines of a text

Two ways to see the lines of a text.  For display, a text is split at every
character that ends a line in the Unicode sense; a carriage return followed by a
line feed ends one line, and a line end at the very end of the text does not
begin another line.  For reading, a carriage return, alone or before a line feed,
is turned into a line feed.

## Main definitions

* `isLineEnd`, `splitLines` — the lines of a text for display.
* `unifyNewlines` — a text whose only line ends by carriage return or line feed
  are line feeds.
* `occurrence?` — where a word first occurs in a line.

## References

The lines of the reference's `ErrorHandler.register_file`, and the search of its
`diagnose`.
-/

namespace LoxLang

/-- The characters that end a line of a displayed text. -/
def isLineEnd (c : Char) : Bool :=
  c == '\n' || c == '\r' || c == '\x0b' || c == '\x0c' || c == '\x1c' || c == '\x1d' ||
    c == '\x1e' || c == '\u0085' || c == '\u2028' || c == '\u2029'

/-- The lines of a text whose first line begins with `line` reversed. -/
def linesFrom (line : List Char) : List Char → List (List Char)
  | [] => if line.isEmpty then [] else [line.reverse]
  | '\r' :: '\n' :: cs => line.reverse :: linesFrom [] cs
  | c :: cs => if isLineEnd c then line.reverse :: linesFrom [] cs else linesFrom (c :: line) cs

/-- The lines of a text, without the characters that end them. -/
def splitLines (cs : List Char) : List (List Char) := linesFrom [] cs

/-- The text with every line end by carriage return written as a line feed. -/
def unifyNewlines : List Char → List Char
  | [] => []
  | '\r' :: '\n' :: cs => '\n' :: unifyNewlines cs
  | c :: cs => (if c == '\r' then '\n' else c) :: unifyNewlines cs

/-- How many characters stand before the first occurrence of `word`. -/
def occurrence? (word : List Char) : List Char → Option Nat
  | [] => if word.isEmpty then some 0 else none
  | c :: cs =>
      if word.isPrefixOf (c :: cs) then some 0 else (occurrence? word cs).map (· + 1)

end LoxLang
