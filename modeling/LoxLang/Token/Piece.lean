import LoxLang.Text.Blank
import LoxLang.Text.Letter
import LoxLang.Text.Numeral
import LoxLang.Token

/-!
# Pieces of a program text

A program text falls into pieces from left to right: tokens, blank characters,
comments, and what is neither.  Which piece comes next is decided by the first
character, and the piece is the longest one of its class.  A string or a block
comment that is not closed takes the rest of the text.

## Main definitions

* `Piece` — a piece, with its `Piece.text`.
* `Piece.first` — the piece a text begins with.
* `tile` — the pieces of a text.

## Main results

* `Piece.text_first_isPrefixOf` — the first piece is what the text begins with.
* `flatMap_text_tile` — the pieces, put together, are the text.

## References

The reference's `Scanner.scan_token`.
-/

namespace LoxLang

/-- A piece of a program text. -/
inductive Piece where
  /-- A token, with the constant it denotes. -/
  | token (kind : TokenKind) (text : List Char) (literal : Literal)
  /-- A blank character. -/
  | blank (c : Char)
  /-- A comment. -/
  | comment (text : List Char)
  /-- A character that begins nothing. -/
  | stray (c : Char)
  /-- A string that is not closed. -/
  | openString (text : List Char)
  /-- A block comment that is not closed. -/
  | openComment (text : List Char)
  deriving DecidableEq, Repr

namespace Piece

/-- The characters of a piece. -/
def text : Piece → List Char
  | token _ cs _ => cs
  | blank c => [c]
  | comment cs => cs
  | stray c => [c]
  | openString cs => cs
  | openComment cs => cs

/-- The marks of one character that begin no longer one. -/
def mark? : Char → Option TokenKind
  | '(' => some .leftParen
  | ')' => some .rightParen
  | '\x7b' => some .leftBrace
  | '\x7d' => some .rightBrace
  | ',' => some .comma
  | '.' => some .dot
  | '-' => some .minus
  | '+' => some .plus
  | ';' => some .semicolon
  | ':' => some .colon
  | '?' => some .question
  | '*' => some .star
  | _ => none

/-- The operators that may be followed by an equals sign: the kind with it, and the
kind without. -/
def comparison? : Char → Option (TokenKind × TokenKind)
  | '!' => some (.bangEqual, .bang)
  | '=' => some (.equalEqual, .equal)
  | '<' => some (.lessEqual, .less)
  | '>' => some (.greaterEqual, .greater)
  | _ => none

/-- The text up to and including the first end of a block comment. -/
def throughCommentEnd : List Char → Option (List Char)
  | [] => none
  | '*' :: '/' :: _ => some ['*', '/']
  | c :: cs => (throughCommentEnd cs).map (c :: ·)

/-- The piece of a text that begins with a slash. -/
def afterSlash : List Char → Piece
  | '/' :: cs => .comment ('/' :: '/' :: cs.takeWhile (· != '\n'))
  | '*' :: cs =>
      match throughCommentEnd cs with
      | some body => .comment ('/' :: '*' :: body)
      | none => .openComment ('/' :: '*' :: cs)
  | _ => .token .slash ['/'] .nil

/-- The piece of a text that begins with a double quote. -/
def afterQuote (cs : List Char) : Piece :=
  let body := cs.takeWhile (· != '"')
  if body.length = cs.length then .openString ('"' :: cs)
  else .token .string ('"' :: body ++ ['"']) (.text (String.ofList body))

/-- The digits behind the point of a number, if a point and a digit come next. -/
def fraction : List Char → List Char
  | '.' :: cs => cs.takeWhile isDigit
  | _ => []

/-- The piece of a text that begins with a digit. -/
def afterDigit (c : Char) (cs : List Char) : Piece :=
  let whole := c :: cs.takeWhile isDigit
  match fraction (cs.dropWhile isDigit) with
  | [] => .token .number whole (.number (numberOfDigits whole 0))
  | part => .token .number (whole ++ '.' :: part)
      (.number (numberOfDigits (whole ++ part) part.length))

/-- What a name may begin with. -/
def beginsName (c : Char) : Bool := isLetter c || c == '_'

/-- What a name may go on with. -/
def continuesName (c : Char) : Bool := isLetter c || isNumeral c || c == '_'

/-- The piece of a text that begins with what a name may begin with. -/
def afterNameStart (c : Char) (cs : List Char) : Piece :=
  let word := c :: cs.takeWhile continuesName
  .token ((keyword? (String.ofList word)).getD .identifier) word .nil

/-- The piece of a text that begins with an operator which an equals sign may
follow. -/
def afterComparison (c : Char) (withEqual alone : TokenKind) : List Char → Piece
  | '=' :: _ => .token withEqual [c, '='] .nil
  | _ => .token alone [c] .nil

/-- The piece with which the text `c :: cs` begins. -/
def first (c : Char) (cs : List Char) : Piece :=
  match mark? c with
  | some kind => .token kind [c] .nil
  | none =>
    match comparison? c with
    | some (withEqual, alone) => afterComparison c withEqual alone cs
    | none =>
      if c == '/' then afterSlash cs
      else if isBlank c then .blank c
      else if c == '"' then afterQuote cs
      else if isDigit c then afterDigit c cs
      else if beginsName c then afterNameStart c cs
      else .stray c

end Piece

/-- The pieces of a text whose first `skip` characters belong to a piece that has
been taken. -/
def tileFrom : (skip : Nat) → List Char → List Piece
  | _, [] => []
  | skip + 1, _ :: cs => tileFrom skip cs
  | 0, c :: cs => Piece.first c cs :: tileFrom ((Piece.first c cs).text.length - 1) cs

/-- The pieces of a text, from left to right. -/
def tile (cs : List Char) : List Piece := tileFrom 0 cs

/-! ### The pieces put together -/

theorem tileFrom_eq_tile_drop (skip : Nat) (cs : List Char) :
    tileFrom skip cs = tile (cs.drop skip) := by
  induction cs generalizing skip with
  | nil => cases skip <;> rfl
  | cons c cs ih =>
    cases skip with
    | zero => rfl
    | succ n => exact ih n

namespace Piece

theorem throughCommentEnd_isPrefixOf {cs body : List Char} (h : throughCommentEnd cs = some body) :
    body <+: cs := by
  fun_induction throughCommentEnd cs generalizing body with
  | case1 => simp at h
  | case2 cs =>
    simp only [Option.some.injEq] at h
    subst h
    exact ⟨cs, rfl⟩
  | case3 c cs _ ih =>
    obtain ⟨b, hb, rfl⟩ := Option.map_eq_some_iff.1 h
    exact List.prefix_cons_inj c |>.mpr (ih hb)

theorem afterDigit_text_isPrefixOf (c : Char) (cs : List Char) :
    (afterDigit c cs).text <+: c :: cs := by
  have hsplit : c :: cs.takeWhile isDigit ++ cs.dropWhile isDigit = c :: cs := by
    simp [List.takeWhile_append_dropWhile]
  unfold afterDigit
  simp only
  split
  · exact ⟨_, hsplit⟩
  · -- the fraction is what stands behind a point
    next part hpart =>
    rw [text, ← hsplit]
    refine (List.prefix_append_right_inj _).mpr ?_
    cases hd : cs.dropWhile isDigit with
    | nil => simp [fraction, hd] at hpart
    | cons d ds =>
      by_cases hdot : d = '.'
      · subst hdot
        exact List.prefix_cons_inj '.' |>.mpr (List.takeWhile_prefix _)
      · simp [fraction, hd, hdot] at hpart

theorem afterSlash_text_isPrefixOf (cs : List Char) : (afterSlash cs).text <+: '/' :: cs := by
  unfold afterSlash
  split
  · next cs =>
    exact List.prefix_cons_inj '/' |>.mpr
      (List.prefix_cons_inj '/' |>.mpr (List.takeWhile_prefix _))
  · next cs =>
    split
    · next body hbody =>
      exact List.prefix_cons_inj '/' |>.mpr
        (List.prefix_cons_inj '*' |>.mpr (throughCommentEnd_isPrefixOf hbody))
    · exact List.prefix_rfl
  · exact ⟨cs, rfl⟩

theorem afterQuote_text_isPrefixOf (cs : List Char) : (afterQuote cs).text <+: '"' :: cs := by
  unfold afterQuote
  simp only
  split
  · exact List.prefix_rfl
  · next hlen =>
    rw [text, List.cons_append]
    refine List.prefix_cons_inj '"' |>.mpr ?_
    -- the body stops at a quote, since it is not the whole rest
    have hsplit := List.takeWhile_append_dropWhile (p := (· != '"')) (l := cs)
    cases hd : cs.dropWhile (· != '"') with
    | nil => rw [hd, List.append_nil] at hsplit; exact absurd (congrArg List.length hsplit) hlen
    | cons d ds =>
      have hq : d = '"' := by
        have := List.head?_dropWhile_not (· != '"') cs
        simpa [hd] using this
      subst hq
      rw [hd] at hsplit
      exact ⟨ds, by simpa using hsplit⟩

/-- The first piece is what the text begins with. -/
theorem text_first_isPrefixOf (c : Char) (cs : List Char) : (first c cs).text <+: c :: cs := by
  unfold first
  split
  · exact ⟨cs, rfl⟩
  · split
    · unfold afterComparison
      split
      · next ds => exact ⟨ds, rfl⟩
      · exact ⟨cs, rfl⟩
    · split
      · next hc =>
        have hc' : c = '/' := by simpa using hc
        subst hc'
        exact afterSlash_text_isPrefixOf cs
      · split
        · exact ⟨cs, rfl⟩
        · split
          · next hc =>
            have hc' : c = '"' := by simpa using hc
            subst hc'
            exact afterQuote_text_isPrefixOf cs
          · split
            · exact afterDigit_text_isPrefixOf c cs
            · split
              · exact List.prefix_cons_inj c |>.mpr (List.takeWhile_prefix _)
              · exact ⟨cs, rfl⟩

/-- A piece has at least one character. -/
theorem text_first_ne_nil (c : Char) (cs : List Char) : (first c cs).text ≠ [] := by
  unfold first afterComparison afterSlash afterQuote afterDigit afterNameStart
  dsimp only
  repeat' split
  all_goals simp [text]

end Piece

/-- The pieces of a text, put together, are the text. -/
theorem flatMap_text_tile (cs : List Char) : (tile cs).flatMap Piece.text = cs := by
  induction h : cs.length using Nat.strongRecOn generalizing cs with
  | _ n ih =>
    cases cs with
    | nil => rfl
    | cons c cs =>
      obtain ⟨rest, hrest⟩ := Piece.text_first_isPrefixOf c cs
      have hne := Piece.text_first_ne_nil c cs
      have hcons : ∃ ts, (Piece.first c cs).text = c :: ts := by
        cases ht : (Piece.first c cs).text with
        | nil => exact absurd ht hne
        | cons t ts =>
          rw [ht] at hrest
          simp only [List.cons_append, List.cons.injEq] at hrest
          exact ⟨ts, by rw [hrest.1]⟩
      obtain ⟨ts, hts⟩ := hcons
      have hcs : ts ++ rest = cs := by simpa [hts] using hrest
      have hdrop : cs.drop ((Piece.first c cs).text.length - 1) = rest := by
        rw [hts, ← hcs]
        simp
      have hlen : rest.length < n := by
        rw [← h, ← hcs]
        simp only [List.length_cons, List.length_append]
        omega
      show ((Piece.first c cs) :: tileFrom _ cs).flatMap Piece.text = c :: cs
      rw [List.flatMap_cons, tileFrom_eq_tile_drop, hdrop, ih _ hlen rest rfl]
      exact hrest

end LoxLang
