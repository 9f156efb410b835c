import LoxLang.Token.Piece

/-!
# Tokens of a program text

The tokens of a text are its token pieces, numbered by lines and positions.  A
line ends at each line feed and nowhere else, inside strings and comments too.
Pieces that are no proper part of a program are reported and left out, so all of
them are reported at once.

## Main definitions

* `LexCause`, `LexFault` — what is no part of a program, and on which line.
* `Lexed` — the tokens of a text, the token of its end, and the faults.
* `Lexed.ofText` — the tokens of a text.

## References

The reference's `Scanner.scan_tokens`.
-/

namespace LoxLang

/-- Why a piece of a text is no part of a program. -/
inductive LexCause where
  /-- A character that begins nothing. -/
  | stray (c : Char)
  /-- A string without its closing quote. -/
  | openString
  /-- A block comment without its end. -/
  | openComment
  deriving DecidableEq, Repr

/-- The wording of a cause. -/
def LexCause.message : LexCause → String
  | .stray c => "Unexpected character '" ++ String.singleton c ++ "'."
  | .openString => "Unterminated string."
  | .openComment => "Unterminated block comment."

/-- A piece of a text that is no part of a program. -/
structure LexFault where
  /-- What is wrong. -/
  cause : LexCause
  /-- The line on which the piece ends. -/
  line : Int
  deriving DecidableEq, Repr

/-- A text as tokens. -/
structure Lexed where
  /-- The tokens, without the one for the end. -/
  tokens : List Token
  /-- The token for the end of the text. -/
  final : Token
  /-- What is no part of a program. -/
  faults : List LexFault
  deriving DecidableEq, Repr

namespace Lexed

/-- How many lines end within some characters. -/
def lineEnds (cs : List Char) : Nat := cs.count '\n'

/-- Puts a piece that ends on `line` and begins at `position` before a lexed text. -/
def cons (line : Int) (position : Nat) (p : Piece) (rest : Lexed) : Lexed :=
  match p with
  | .token kind text literal =>
      { rest with tokens := ⟨kind, String.ofList text, literal, line, position⟩ :: rest.tokens }
  | .blank _ => rest
  | .comment _ => rest
  | .stray c => { rest with faults := ⟨.stray c, line⟩ :: rest.faults }
  | .openString _ => { rest with faults := ⟨.openString, line⟩ :: rest.faults }
  | .openComment _ => { rest with faults := ⟨.openComment, line⟩ :: rest.faults }

/-- The tokens among the pieces of a text that begins on `line` at `position`. -/
def ofPieces (line : Int) (position : Nat) : List Piece → Lexed
  | [] => ⟨[], .endOfText line position, []⟩
  | p :: ps =>
      let line' := line + lineEnds p.text
      cons line' position p (ofPieces line' (position + p.text.length) ps)

/-- The tokens of a text that begins on `line` at `position`. -/
def ofText (text : String) (line : Int) (position : Nat) : Lexed :=
  ofPieces line position (tile text.toList)

/-- All the tokens, the one for the end included. -/
def allTokens (l : Lexed) : List Token := l.tokens ++ [l.final]

end Lexed

end LoxLang
