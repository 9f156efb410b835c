import LoxLang.Decimal.Layout

/-!
# Tokens

A token is a word of the language: a mark, an operator, a literal, a name or a
keyword, and the end of the text counts as one.  It keeps the text it was written
with, the literal it denotes, the line on which it ends, and its position.
Positions are counted through all the texts that one interpreter is given, so that
a position names one token; this is what tells two occurrences of a name apart.

## Main definitions

* `TokenKind` — the kinds, with their listed `name`.
* `keyword?` — the kind of a word that is reserved.
* `Literal` — the constants that a text can denote.
* `Token` — a token, with its listed form `Token.listing`.

## References

The reference's `TokenType` and `Token`.
-/

namespace LoxLang

/-- The kinds of tokens. -/
inductive TokenKind where
  /-- `(` -/
  | leftParen
  /-- `)` -/
  | rightParen
  /-- An opening brace. -/
  | leftBrace
  /-- A closing brace. -/
  | rightBrace
  /-- `,` -/
  | comma
  /-- `.` -/
  | dot
  /-- `-` -/
  | minus
  /-- `+` -/
  | plus
  /-- `;` -/
  | semicolon
  /-- `:` -/
  | colon
  /-- `?` -/
  | question
  /-- `/` -/
  | slash
  /-- `*` -/
  | star
  /-- `!` -/
  | bang
  /-- `!=` -/
  | bangEqual
  /-- `=` -/
  | equal
  /-- `==` -/
  | equalEqual
  /-- `>` -/
  | greater
  /-- `>=` -/
  | greaterEqual
  /-- `<` -/
  | less
  /-- `<=` -/
  | lessEqual
  /-- A name. -/
  | identifier
  /-- A string literal. -/
  | string
  /-- A number literal. -/
  | number
  /-- `and` -/
  | kwAnd
  /-- `break` -/
  | kwBreak
  /-- `class` -/
  | kwClass
  /-- `continue` -/
  | kwContinue
  /-- `else` -/
  | kwElse
  /-- `false` -/
  | kwFalse
  /-- `fun` -/
  | kwFun
  /-- `for` -/
  | kwFor
  /-- `if` -/
  | kwIf
  /-- `nil` -/
  | kwNil
  /-- `or` -/
  | kwOr
  /-- `print` -/
  | kwPrint
  /-- `return` -/
  | kwReturn
  /-- `this` -/
  | kwThis
  /-- `true` -/
  | kwTrue
  /-- `var` -/
  | kwVar
  /-- `while` -/
  | kwWhile
  /-- The end of the text. -/
  | eof
  deriving DecidableEq, Repr, Inhabited

/-- The name a kind is listed under. -/
def TokenKind.name : TokenKind → String
  | .leftParen => "LEFT_PAREN"
  | .rightParen => "RIGHT_PAREN"
  | .leftBrace => "LEFT_BRACE"
  | .rightBrace => "RIGHT_BRACE"
  | .comma => "COMMA"
  | .dot => "DOT"
  | .minus => "MINUS"
  | .plus => "PLUS"
  | .semicolon => "SEMICOLON"
  | .colon => "COLON"
  | .question => "QUESTION"
  | .slash => "SLASH"
  | .star => "STAR"
  | .bang => "BANG"
  | .bangEqual => "BANG_EQUAL"
  | .equal => "EQUAL"
  | .equalEqual => "EQUAL_EQUAL"
  | .greater => "GREATER"
  | .greaterEqual => "GREATER_EQUAL"
  | .less => "LESS"
  | .lessEqual => "LESS_EQUAL"
  | .identifier => "IDENTIFIER"
  | .string => "STRING"
  | .number => "NUMBER"
  | .kwAnd => "AND"
  | .kwBreak => "BREAK"
  | .kwClass => "CLASS"
  | .kwContinue => "CONTINUE"
  | .kwElse => "ELSE"
  | .kwFalse => "FALSE"
  | .kwFun => "FUN"
  | .kwFor => "FOR"
  | .kwIf => "IF"
  | .kwNil => "NIL"
  | .kwOr => "OR"
  | .kwPrint => "PRINT"
  | .kwReturn => "RETURN"
  | .kwThis => "THIS"
  | .kwTrue => "TRUE"
  | .kwVar => "VAR"
  | .kwWhile => "WHILE"
  | .eof => "EOF"

/-- The kinds, in the order in which they are numbered from one. -/
def TokenKind.all : List TokenKind :=
  [.leftParen, .rightParen, .leftBrace, .rightBrace, .comma, .dot, .minus, .plus, .semicolon,
   .colon, .question, .slash, .star, .bang, .bangEqual, .equal, .equalEqual, .greater,
   .greaterEqual, .less, .lessEqual, .identifier, .string, .number, .kwAnd, .kwBreak, .kwClass,
   .kwContinue, .kwElse, .kwFalse, .kwFun, .kwFor, .kwIf, .kwNil, .kwOr, .kwPrint, .kwReturn,
   .kwThis, .kwTrue, .kwVar, .kwWhile, .eof]

/-- The kind listed under a name. -/
def TokenKind.ofName? (name : String) : Option TokenKind := all.find? (·.name == name)

/-- The reserved words. -/
def keywords : List (String × TokenKind) :=
  [("and", .kwAnd), ("break", .kwBreak), ("class", .kwClass), ("continue", .kwContinue),
   ("else", .kwElse), ("false", .kwFalse), ("for", .kwFor), ("fun", .kwFun), ("if", .kwIf),
   ("nil", .kwNil), ("or", .kwOr), ("print", .kwPrint), ("return", .kwReturn), ("this", .kwThis),
   ("true", .kwTrue), ("var", .kwVar), ("while", .kwWhile)]

/-- The kind of a word, if it is reserved. -/
def keyword? (word : String) : Option TokenKind := keywords.lookup word

/-- The constants that a program text can denote. -/
inductive Literal where
  /-- The value of what has no value. -/
  | nil
  /-- A truth value. -/
  | bool (b : Bool)
  /-- A number. -/
  | number (x : Float)
  /-- A text. -/
  | text (s : String)
  deriving DecidableEq, Repr, Inhabited

/-- How a literal appears in the listing of its token. -/
def Literal.listing : Literal → String
  | .nil => "None"
  | .bool b => if b then "True" else "False"
  | .number x => exactText x
  | .text s => s

/-- A token of a program text. -/
structure Token where
  /-- What kind of word it is. -/
  kind : TokenKind
  /-- The text it was written with. -/
  lexeme : String
  /-- The constant it denotes; nil for all but string and number literals. -/
  literal : Literal := .nil
  /-- The line on which it ends. -/
  line : Int
  /-- How many characters the interpreter was given before it. -/
  position : Nat := 0
  deriving DecidableEq, Repr, Inhabited

/-- The token for the end of a text. -/
def Token.endOfText (line : Int) (position : Nat) : Token :=
  { kind := .eof, lexeme := "", line, position }

/-- The listed form of a token: kind, text and literal. -/
def Token.listing (t : Token) : String :=
  t.kind.name ++ " " ++ t.lexeme ++ " " ++ t.literal.listing

end LoxLang
