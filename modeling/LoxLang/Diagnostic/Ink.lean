/-!
# Ink

Text for a terminal may be coloured and bold.  Without colours the text is left as
it is; with them it is put between escape sequences, also when it is empty.

## Main definitions

* `Ink` — the colours.
* `paint` — a text in a colour.

## References

The colours of the reference's `ErrorHandler`.
-/

namespace LoxLang

/-- The colours of a terminal that are used. -/
inductive Ink where
  /-- For what is wrong. -/
  | red
  /-- For what is only remarked upon. -/
  | magenta
  /-- For accounts of the work. -/
  | grey
  deriving DecidableEq, Repr, Inhabited

/-- The number of a colour in an escape sequence. -/
def Ink.code : Ink → String
  | .red => "31"
  | .magenta => "35"
  | .grey => "90"

/-- The escape sequence with a code. -/
def escapeSequence (code : String) : String := "\x1b[" ++ code ++ "m"

/-- A text in an optional colour, bold or not, if colours are on. -/
def paint (coloured : Bool) (ink : Option Ink) (bold : Bool) (text : String) : String :=
  if coloured then
    (if bold then escapeSequence "1" else "")
      ++ (match ink with
          | some i => escapeSequence i.code
          | none => "")
      ++ text ++ escapeSequence "0"
  else text

/-- Without colours the text is left as it is. -/
@[simp] theorem paint_false (ink : Option Ink) (bold : Bool) (text : String) :
    paint false ink bold text = text := rfl

end LoxLang
