import LoxLang.Text.Blank

/-!
# Entries

What is typed at a terminal goes on with the next line while a brace, a parenthesis or
a text is still open.  A comment up to the end of the line is left out, and so are the
blanks at the end.  What stands within a text counts neither as an opening nor as a
comment.

## Main definitions

* `Balance` — what is open at a place.
* `Entry.ofText` — an entry, and whether it goes on.

## References

The reference's `Session.preprocess_line`.
-/

namespace LoxLang

/-- What is open at a place of an entry. -/
structure Balance where
  /-- How many more braces and parentheses were opened than closed. -/
  depth : Int := 0
  /-- Whether a text is open. -/
  inText : Bool := false
  deriving DecidableEq, Repr, Inhabited

namespace Balance

/-- Whether something is open. -/
def isOpen (b : Balance) : Bool := b.depth > 0 || b.inText

/-- What is open after a character. -/
def after (b : Balance) (c : Char) : Balance :=
  if c = '"' then { b with inText := !b.inText }
  else if b.inText then b
  else if c = '\x7b' || c = '(' then { b with depth := b.depth + 1 }
  else if c = '\x7d' || c = ')' then { b with depth := b.depth - 1 }
  else b

end Balance

/-- What was typed so far, without comments, and whether it goes on. -/
structure Entry where
  /-- The text. -/
  text : List Char
  /-- Whether the next line belongs to it. -/
  continues : Bool
  deriving DecidableEq, Repr, Inhabited

namespace Entry

/-- The characters before a comment, and what is open after them. -/
def beforeComment (b : Balance) : List Char → List Char × Balance
  | [] => ([], b)
  | c :: cs =>
      if !b.inText && ['/', '/'].isPrefixOf (c :: cs) then ([], b)
      else
        let (kept, b') := beforeComment (b.after c) cs
        (c :: kept, b')

/-- An entry from what was typed. -/
def ofText (cs : List Char) : Entry :=
  let (kept, b) := beforeComment {} cs
  { text := trimEnd kept, continues := b.isOpen }

end Entry

end LoxLang
