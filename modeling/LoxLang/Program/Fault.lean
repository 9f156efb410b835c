import LoxLang.Token

/-!
# Syntax faults

What can be wrong with a list of tokens as a program, and how it is worded.  A
fault names the token at which it was noticed.

## Main definitions

* `NamedThing`, `MarkPlace`, `OperatorFamily` — what may be missing.
* `SyntaxCause` — what is wrong, with its `SyntaxCause.message`.
* `SyntaxFault` — a cause and the token at which it was noticed.

## References

The messages that the reference gives to `Parser.error`.
-/

namespace LoxLang

/-- The kinds of functions that are declared by name. -/
inductive FunctionRole where
  /-- A function. -/
  | function
  /-- A method, which may leave out an empty list of parameters. -/
  | method
  /-- A method of the class itself. -/
  | staticMethod
  deriving DecidableEq, Repr, Inhabited

/-- What a kind of function is called. -/
def FunctionRole.word : FunctionRole → String
  | .function => "function"
  | .method => "method"
  | .staticMethod => "static method"

/-- What a name can be missing for. -/
inductive NamedThing where
  /-- A class. -/
  | className
  /-- The superclass of a class. -/
  | superclassName
  /-- A function of some kind. -/
  | functionName (role : FunctionRole)
  /-- A parameter. -/
  | parameterName
  /-- A variable. -/
  | variableName
  /-- A property after a dot. -/
  | propertyName
  deriving DecidableEq, Repr

/-- The wording of a missing name. -/
def NamedThing.message : NamedThing → String
  | .className => "Expect class name."
  | .superclassName => "Expect superclass name."
  | .functionName role => "Expect " ++ role.word ++ " name."
  | .parameterName => "Expect parameter name."
  | .variableName => "Expect variable name."
  | .propertyName => "Expect property name after '.'."

/-- Where a mark can be missing. -/
inductive MarkPlace where
  /-- The brace that opens the body of a class. -/
  | openClass
  /-- The brace that closes the body of a class. -/
  | closeClass
  /-- The parenthesis after the name of a function. -/
  | openParameters (role : FunctionRole)
  /-- The parenthesis that closes a list of parameters. -/
  | closeParameters
  /-- The brace that opens the body of a function. -/
  | openBody (role : FunctionRole)
  /-- The brace that closes a block. -/
  | closeBlock
  /-- The semicolon after the declaration of a variable. -/
  | endVariable
  /-- The parenthesis after `for`. -/
  | openFor
  /-- The semicolon after the condition of a `for` loop. -/
  | endForCondition
  /-- The parenthesis after the clauses of a `for` loop. -/
  | closeFor
  /-- The parenthesis after `if`. -/
  | openIf
  /-- The parenthesis after the condition of an `if`. -/
  | closeIf
  /-- The parenthesis after `while`. -/
  | openWhile
  /-- The parenthesis after the condition of a `while` loop. -/
  | closeWhile
  /-- The semicolon after a printed value. -/
  | endPrint
  /-- The semicolon after a returned value. -/
  | endReturn
  /-- The semicolon after `break` or `continue`. -/
  | endJump (keyword : String)
  /-- The semicolon after an expression. -/
  | endExpression
  /-- The colon of a conditional expression. -/
  | conditionalColon
  /-- The parenthesis that closes a list of arguments. -/
  | closeArguments
  /-- The parenthesis after `fun`. -/
  | openLambda
  /-- The parenthesis that closes an expression. -/
  | closeGrouping
  deriving DecidableEq, Repr

/-- The wording of a missing mark. -/
def MarkPlace.message : MarkPlace → String
  | .openClass => "Expect '\x7b' before class body."
  | .closeClass => "Expect '\x7d' after class body."
  | .openParameters role => "Expect '(' after " ++ role.word ++ " name."
  | .closeParameters => "Expect ')' after parameters."
  | .openBody role => "Expect '\x7b' before " ++ role.word ++ " body."
  | .closeBlock => "Expect '\x7d' after block."
  | .endVariable => "Expect ';' after variable declaration."
  | .openFor => "Expect '(' after 'for'."
  | .endForCondition => "Expect ';' after loop condition."
  | .closeFor => "Expect ')' after for clauses."
  | .openIf => "Expect '(' after 'if'."
  | .closeIf => "Expect ')' after if condition."
  | .openWhile => "Expect '(' after 'while'."
  | .closeWhile => "Expect ')' after condition."
  | .endPrint => "Expect ';' after value."
  | .endReturn => "Expect ';' after return value."
  | .endJump keyword => "Expect ';' after '" ++ keyword ++ "'."
  | .endExpression => "Expect ';' after expression."
  | .conditionalColon => "Expect ':' after then branch of conditional expression."
  | .closeArguments => "Expect ')' after arguments."
  | .openLambda => "Expect '(' after 'fun'."
  | .closeGrouping => "Expect ')' after expression."

/-- The mark that is missing at a place. -/
def MarkPlace.mark : MarkPlace → TokenKind
  | .openClass | .openBody _ => .leftBrace
  | .closeClass | .closeBlock => .rightBrace
  | .openParameters _ | .openFor | .openIf | .openWhile | .openLambda => .leftParen
  | .closeParameters | .closeFor | .closeIf | .closeWhile | .closeArguments | .closeGrouping =>
      .rightParen
  | .endVariable | .endForCondition | .endPrint | .endReturn | .endJump _ | .endExpression =>
      .semicolon
  | .conditionalColon => .colon

/-- The operators that are recognized without their left operand. -/
inductive OperatorFamily where
  /-- `,` -/
  | comma
  /-- `==` and `!=` -/
  | equality
  /-- `<`, `<=`, `>` and `>=` -/
  | comparison
  /-- `+` -/
  | addition
  /-- `*` and `/` -/
  | multiplication
  deriving DecidableEq, Repr

/-- What a family of operators is called. -/
def OperatorFamily.word : OperatorFamily → String
  | .comma => "comma"
  | .equality => "equality"
  | .comparison => "comparison"
  | .addition => "addition"
  | .multiplication => "multiplication/division"

/-- The lists that have a greatest length. -/
inductive BoundedList where
  /-- The parameters of a function. -/
  | parameters
  /-- The arguments of a call. -/
  | arguments
  deriving DecidableEq, Repr

/-- What a bounded list is a list of. -/
def BoundedList.word : BoundedList → String
  | .parameters => "parameters"
  | .arguments => "arguments"

/-- The greatest number of parameters of a function and of arguments of a call. -/
def maxListed : Nat := 255

/-- What is wrong with a list of tokens. -/
inductive SyntaxCause where
  /-- A name is missing. -/
  | noName (thing : NamedThing)
  /-- A mark is missing. -/
  | noMark (place : MarkPlace)
  /-- An expression is missing. -/
  | noExpression
  /-- An operator has no left operand. -/
  | noLeftOperand (family : OperatorFamily)
  /-- A list is too long. -/
  | tooMany (list : BoundedList)
  /-- The left side of an assignment is neither a name nor a property. -/
  | badTarget
  deriving DecidableEq, Repr

/-- The wording of a cause. -/
def SyntaxCause.message : SyntaxCause → String
  | .noName thing => thing.message
  | .noMark place => place.message
  | .noExpression => "Expect expression."
  | .noLeftOperand family => "Missing left-hand operand for " ++ family.word ++ " operator."
  | .tooMany list => "Can't have more than " ++ toString maxListed ++ " " ++ list.word ++ "."
  | .badTarget => "Invalid assignment target."

/-- A cause and the token at which it was noticed. -/
structure SyntaxFault where
  /-- What is wrong. -/
  cause : SyntaxCause
  /-- The token at which it was noticed. -/
  token : Token
  deriving DecidableEq, Repr

end LoxLang
