import LoxLang.Program
import LoxLang.Program.Fault

/-!
# Reading tokens as a program

Tokens are read by recursive descent.  Expressions have levels, from the comma
operator, which binds least, to the parts that stand alone:

    comma        assignment ("," assignment)*
    assignment   disjunction ("?" assignment ":" assignment)? ("=" assignment)?
    disjunction  conjunction ("or" conjunction)*
    conjunction  equality ("and" equality)*
    equality     comparison (("!=" | "==") comparison)*
    comparison   term ((">" | ">=" | "<" | "<=") term)*
    term         factor (("-" | "+") factor)*
    factor       unary (("/" | "*") unary)*
    unary        ("!" | "-") unary | call
    call         primary ("(" arguments? ")" | "." name)*

Operators between operands associate to the left, a conditional to the right on its
last branch.

A fault is recorded as soon as it is noticed.  Some faults leave the reading as it
is; the others end the declaration in which they occur, and reading goes on behind
the next semicolon or before the next word that begins a statement.  So one reading
reports several faults.

The depth of the descent is bounded by a number that is computed from the number of
tokens and is large enough for all of them.

## Main definitions

* `Level` — the levels of expressions.
* `Reading`, `ReadM` — the state of a reading, and steps of it.
* `readExpr`, `readStatement`, `readDeclaration`, `readBlock` — the descent.
* `Program.ofTokens` — the program that some tokens form, and the faults.

## References

The reference's `Parser`.
-/

namespace LoxLang

/-! ### The state of a reading -/

/-- The state of a reading. -/
structure Reading where
  /-- The tokens that have not been read. -/
  rest : List Token
  /-- The token for the end of the text. -/
  final : Token
  /-- The faults recorded so far. -/
  faults : Array SyntaxFault

/-- Why a step of a reading ended without a result. -/
inductive ReadStop where
  /-- A fault that ends the declaration has been recorded. -/
  | fault
  /-- The bound on the depth of the descent was reached. -/
  | tooDeep
  deriving DecidableEq, Repr

/-- A step of a reading. -/
abbrev ReadM := EStateM ReadStop Reading

namespace Reading

/-- The next token. -/
def next (r : Reading) : Token := r.rest.headD r.final

/-- Whether the next token is of a kind; the end of the text is of none. -/
def nextIs (r : Reading) (kind : TokenKind) : Bool :=
  match r.rest with
  | [] => false
  | t :: _ => t.kind == kind

/-- Records a fault at a token. -/
def record (r : Reading) (token : Token) (cause : SyntaxCause) : Reading :=
  { r with faults := r.faults.push ⟨cause, token⟩ }

end Reading

/-- Whether the next token is of a kind. -/
def nextIs (kind : TokenKind) : ReadM Bool := fun r => .ok (r.nextIs kind) r

/-- Whether all tokens have been read. -/
def atEnd : ReadM Bool := fun r => .ok r.rest.isEmpty r

/-- Whether a brace closes a block here, or the text ends. -/
def blockEnds : ReadM Bool := fun r => .ok (r.nextIs .rightBrace || r.rest.isEmpty) r

/-- Whether the declaration of a function comes next: `fun` and a name. -/
def startsFunction : ReadM Bool := fun r =>
  match r.rest with
  | t :: u :: _ => .ok (t.kind == .kwFun && u.kind == .identifier) r
  | _ => .ok false r

/-- Records a fault at the next token and goes on. -/
def recordNext (cause : SyntaxCause) : ReadM Unit := fun r => .ok () (r.record r.next cause)

/-- Records a fault at a token that has been read and goes on. -/
def recordAt (token : Token) (cause : SyntaxCause) : ReadM Unit :=
  fun r => .ok () (r.record token cause)

/-- Records a fault at the next token and ends the declaration. -/
def failNext {α : Type} (cause : SyntaxCause) : ReadM α :=
  fun r => .error .fault (r.record r.next cause)

/-- Ends the reading because the descent is too deep. -/
def tooDeep {α : Type} : ReadM α := fun r => .error .tooDeep r

/-- Reads the next token if it is of one of some kinds. -/
def accept? (kinds : List TokenKind) : ReadM (Option Token) := fun r =>
  match r.rest with
  | [] => .ok none r
  | t :: ts => if kinds.contains t.kind then .ok (some t) { r with rest := ts } else .ok none r

/-- Reads the next token if it is of a kind, and says whether it was. -/
def accept (kind : TokenKind) : ReadM Bool := fun r =>
  match r.rest with
  | [] => .ok false r
  | t :: ts => if t.kind == kind then .ok true { r with rest := ts } else .ok false r

/-- Reads a token of a kind; its absence is a fault. -/
def require (kind : TokenKind) (cause : SyntaxCause) : ReadM Token := fun r =>
  match r.rest with
  | [] => failNext cause r
  | t :: ts => if t.kind == kind then .ok t { r with rest := ts } else failNext cause r

/-- Reads a name. -/
def requireName (thing : NamedThing) : ReadM Token := require .identifier (.noName thing)

/-- Reads the mark that belongs at a place. -/
def requireMark (place : MarkPlace) : ReadM Token := require place.mark (.noMark place)

/-! ### Recovery -/

/-- The words that begin a statement. -/
def beginsStatement : TokenKind → Bool
  | .kwClass | .kwFun | .kwVar | .kwFor | .kwIf | .kwWhile | .kwPrint | .kwReturn => true
  | _ => false

/-- The tokens behind the next semicolon or from the next word that begins a
statement on; `last` is the token before them. -/
def skipStatement (last : Token) : List Token → List Token
  | [] => []
  | t :: ts =>
      if last.kind == .semicolon || beginsStatement t.kind then t :: ts else skipStatement t ts

/-- Where reading goes on after a fault: the next token is left out in any case. -/
def resume : List Token → List Token
  | [] => []
  | t :: ts => skipStatement t ts

/-- Reads a declaration; after a fault there is none, and reading goes on behind it. -/
def recovering (declaration : ReadM Stmt) : ReadM (Option Stmt) := fun r =>
  match declaration r with
  | .ok stmt r' => .ok (some stmt) r'
  | .error .fault r' => .ok none { r' with rest := resume r'.rest }
  | .error .tooDeep r' => .error .tooDeep r'

/-! ### Levels of expressions -/

/-- The levels of expressions, from the one that binds least. -/
inductive Level where
  /-- Operands of the comma operator. -/
  | comma
  /-- Assignments and conditionals. -/
  | assignment
  /-- Operands of `or`. -/
  | disjunction
  /-- Operands of `and`. -/
  | conjunction
  /-- Operands of `==` and `!=`. -/
  | equality
  /-- Operands of `<`, `<=`, `>` and `>=`. -/
  | comparison
  /-- Operands of `+` and `-`. -/
  | term
  /-- Operands of `*` and `/`. -/
  | factor
  /-- Operators before their operand. -/
  | unary
  /-- Calls and properties. -/
  | call
  /-- Parts that stand alone. -/
  | primary
  deriving DecidableEq, Repr, Inhabited

namespace Level

/-- The level of the operands of a level. -/
def tighter : Level → Level
  | comma => assignment
  | assignment => disjunction
  | disjunction => conjunction
  | conjunction => equality
  | equality => comparison
  | comparison => term
  | term => factor
  | factor => unary
  | unary => call
  | call => primary
  | primary => primary

/-- The operators between the operands of a level. -/
def operators : Level → List TokenKind
  | comma => [.comma]
  | disjunction => [.kwOr]
  | conjunction => [.kwAnd]
  | equality => [.bangEqual, .equalEqual]
  | comparison => [.greater, .greaterEqual, .less, .lessEqual]
  | term => [.minus, .plus]
  | factor => [.slash, .star]
  | _ => []

/-- The expression that joins two operands of a level. -/
def join : Level → Expr → Token → Expr → Expr
  | disjunction, l, op, r => .logical l op r
  | conjunction, l, op, r => .logical l op r
  | _, l, op, r => .binary l op r

end Level

/-- The family of an operator that is recognized without its left operand, and the
level of its right operand. -/
def lonelyOperator? : TokenKind → Option (OperatorFamily × Level)
  | .comma => some (.comma, .assignment)
  | .bangEqual | .equalEqual => some (.equality, .comparison)
  | .greater | .greaterEqual | .less | .lessEqual => some (.comparison, .term)
  | .plus => some (.addition, .factor)
  | .slash | .star => some (.multiplication, .unary)
  | _ => none

/-! ### Parts that need no descent -/

/-- Records a fault at the next token if a list has its greatest length already. -/
def checkRoom (list : BoundedList) (length : Nat) : ReadM Unit :=
  if maxListed ≤ length then recordNext (.tooMany list) else return ()

/-- Reads the rest of a list of parameters, with the parenthesis that closes it;
`params` are those read so far, reversed. -/
def readParametersFrom : Nat → List Token → ReadM (List Token)
  | 0, _ => tooDeep
  | n + 1, params => do
      checkRoom .parameters params.length
      let param ← requireName .parameterName
      if ← accept .comma then readParametersFrom n (param :: params)
      else
        let _ ← requireMark .closeParameters
        return (param :: params).reverse

/-- Reads a list of parameters, with the parenthesis that closes it. -/
def readParameters (n : Nat) : ReadM (List Token) := do
  if ← nextIs .rightParen then
    let _ ← requireMark .closeParameters
    return []
  else readParametersFrom n []

/-- The expression that assigns to a target, or the target with a fault at the
equals sign. -/
def assignTo (target : Expr) (equals : Token) (value : Expr) : ReadM Expr :=
  match target with
  | .variable name => return .assign name value
  | .get object name => return .set object name value
  | _ => do
      recordAt equals .badTarget
      return target

/-- Reads the branches of a conditional behind its condition, if there are any. -/
def readBranches (expr : Level → ReadM Expr) (condition : Expr) : ReadM Expr := do
  if ← accept .question then
    let whenTrue ← expr .assignment
    let _ ← requireMark .conditionalColon
    let whenFalse ← expr .assignment
    return .conditional condition whenTrue whenFalse
  else return condition

/-- Reads the value that is assigned to a target, if there is any. -/
def readAssigned (expr : Level → ReadM Expr) (target : Expr) : ReadM Expr := do
  match ← accept? [.equal] with
  | some equals => assignTo target equals (← expr .assignment)
  | none => return target

/-- Reads a function from its name on, given how to read a block. -/
def readFunction (n : Nat) (block : ReadM (List Stmt)) (role : FunctionRole) :
    ReadM FunctionDecl := do
  let name ← requireName (.functionName role)
  let bare ← nextIs .leftBrace
  if role == .method && bare then
    let _ ← requireMark (.openBody role)
    return .mk name [] (← block)
  else
    let _ ← requireMark (.openParameters role)
    let params ← readParameters n
    let _ ← requireMark (.openBody role)
    return .mk name params (← block)

/-- Reads the rest of an expression that stands as a statement. -/
def readExpressionStatement (expr : Level → ReadM Expr) : ReadM Stmt := do
  let e ← expr .comma
  let _ ← requireMark .endExpression
  return .expression e

/-- Reads an expression if a mark comes next, and the mark before it. -/
def readIfMarked (mark : TokenKind) (expr : Level → ReadM Expr) : ReadM (Option Expr) := do
  if ← accept mark then return some (← expr .comma) else return none

/-- Reads the rest of the declaration of a variable. -/
def readVariable (expr : Level → ReadM Expr) : ReadM Stmt := do
  let name ← requireName .variableName
  let initializer ← readIfMarked .equal expr
  let _ ← requireMark .endVariable
  return .var name initializer

/-- Reads an expression unless a mark comes next. -/
def readUnless (mark : TokenKind) (expr : Level → ReadM Expr) : ReadM (Option Expr) := do
  if ← nextIs mark then return none else return some (← expr .comma)

/-- The tree of a `for` loop whose keyword stands at `position`. -/
def forLoop (position : Nat) (initializer : Option Stmt) (condition : Option Expr)
    (increment : Option Expr) (body : Stmt) : Stmt :=
  let loop := .while (condition.getD (.literal (.bool true))) body increment
  match initializer with
  | none => loop
  | some init => .block position [init, loop]

/-- Reads the first clause of a `for` loop, with its semicolon. -/
def readClause (expr : Level → ReadM Expr) : ReadM (Option Stmt) := do
  if ← accept .semicolon then return none
  else if ← accept .kwVar then return some (← readVariable expr)
  else return some (← readExpressionStatement expr)

/-- Reads the rest of a `for` loop. -/
def readFor (expr : Level → ReadM Expr) (statement : ReadM Stmt) (keyword : Token) :
    ReadM Stmt := do
  let _ ← requireMark .openFor
  let initializer ← readClause expr
  let condition ← readUnless .semicolon expr
  let _ ← requireMark .endForCondition
  let increment ← readUnless .rightParen expr
  let _ ← requireMark .closeFor
  let body ← statement
  return forLoop keyword.position initializer condition increment body

/-- Reads the second branch of an `if`, if there is one. -/
def readElse (statement : ReadM Stmt) : ReadM (Option Stmt) := do
  if ← accept .kwElse then return some (← statement) else return none

/-- Reads the rest of an `if`; an `else` belongs to the nearest one. -/
def readIf (expr : Level → ReadM Expr) (statement : ReadM Stmt) : ReadM Stmt := do
  let _ ← requireMark .openIf
  let condition ← expr .comma
  let _ ← requireMark .closeIf
  let whenTrue ← statement
  let whenFalse ← readElse statement
  return .ifElse condition whenTrue whenFalse

/-- Reads the rest of a `while` loop. -/
def readWhile (expr : Level → ReadM Expr) (statement : ReadM Stmt) : ReadM Stmt := do
  let _ ← requireMark .openWhile
  let condition ← expr .comma
  let _ ← requireMark .closeWhile
  return .while condition (← statement) none

/-- Reads the rest of a `print` statement. -/
def readPrint (expr : Level → ReadM Expr) : ReadM Stmt := do
  let e ← expr .comma
  let _ ← requireMark .endPrint
  return .print e

/-- Reads the rest of a `return` statement. -/
def readReturn (expr : Level → ReadM Expr) (keyword : Token) : ReadM Stmt := do
  let value ← readUnless .semicolon expr
  let _ ← requireMark .endReturn
  return .return keyword value

/-- Reads the rest of a `break` or `continue` statement. -/
def readJump (keyword : Token) : ReadM Stmt := do
  let _ ← requireMark (.endJump keyword.lexeme)
  return if keyword.kind == .kwBreak then .break keyword else .continue keyword

/-- Reads the name of a superclass, if there is one. -/
def readSuperclassName : ReadM (Option Token) := do
  if ← accept .less then return some (← requireName .superclassName) else return none

/-- Reads the rest of the declaration of a class, given how to read its members. -/
def readClass (members : ReadM (List FunctionDecl × List FunctionDecl)) : ReadM Stmt := do
  let name ← requireName .className
  let superclass ← readSuperclassName
  let _ ← requireMark .openClass
  let (methods, statics) ← members
  let _ ← requireMark .closeClass
  return .classDecl name superclass methods statics

/-- Reads the rest of a function without a name. -/
def readLambda (n : Nat) (block : ReadM (List Stmt)) (keyword : Token) : ReadM Expr := do
  let _ ← requireMark .openLambda
  let params ← readParameters n
  let _ ← requireMark (.openBody .function)
  return .lambda keyword params (← block)

/-- Reads the rest of an expression in parentheses. -/
def readGrouping (expr : Level → ReadM Expr) : ReadM Expr := do
  let inner ← expr .comma
  let _ ← requireMark .closeGrouping
  return .grouping inner

/-- Reads a part that stands alone.  An operator that lacks its left operand is a
fault, and its right operand is taken in its place. -/
def readPrimary (n : Nat) (expr : Level → ReadM Expr) (block : ReadM (List Stmt)) :
    ReadM Expr := fun r =>
  match r.rest with
  | [] => failNext .noExpression r
  | t :: ts =>
      let r' := { r with rest := ts }
      match t.kind with
      | .kwFalse => .ok (.literal (.bool false)) r'
      | .kwTrue => .ok (.literal (.bool true)) r'
      | .kwNil => .ok (.literal .nil) r'
      | .number => .ok (.literal t.literal) r'
      | .string => .ok (.literal t.literal) r'
      | .kwThis => .ok (.this t) r'
      | .identifier => .ok (.variable t) r'
      | .kwFun => readLambda n block t r'
      | .leftParen => readGrouping expr r'
      | kind =>
          match lonelyOperator? kind with
          | some (family, level) => expr level (r'.record t (.noLeftOperand family))
          | none => failNext .noExpression r

/-! ### The descent -/

mutual

/-- Reads an expression of a level. -/
def readExpr : Nat → Level → ReadM Expr
  | 0, _ => tooDeep
  | n + 1, .assignment => do
      let left ← readExpr n .disjunction
      readAssigned (readExpr n) (← readBranches (readExpr n) left)
  | n + 1, .unary => do
      match ← accept? [.bang, .minus] with
      | some operator => return .unary operator (← readExpr n .unary)
      | none => readExpr n .call
  | n + 1, .call => do readSuffixes n (← readExpr n .primary)
  | n + 1, .primary => readPrimary n (readExpr n) (readBlock n)
  | n + 1, level => do readOperands n level (← readExpr n level.tighter)

/-- Reads the operators of a level and their right operands, behind a first operand. -/
def readOperands : Nat → Level → Expr → ReadM Expr
  | 0, _, _ => tooDeep
  | n + 1, level, left => do
      match ← accept? level.operators with
      | some operator =>
          let right ← readExpr n level.tighter
          readOperands n level (level.join left operator right)
      | none => return left

/-- Reads the calls and properties behind an expression. -/
def readSuffixes : Nat → Expr → ReadM Expr
  | 0, _ => tooDeep
  | n + 1, e => do
      if ← accept .leftParen then
        if ← nextIs .rightParen then
          let paren ← requireMark .closeArguments
          readSuffixes n (.call e paren [])
        else
          let arguments ← readArguments n []
          let paren ← requireMark .closeArguments
          readSuffixes n (.call e paren arguments)
      else if ← accept .dot then
        let name ← requireName .propertyName
        readSuffixes n (.get e name)
      else return e

/-- Reads the rest of a list of arguments; `arguments` are those read so far,
reversed. -/
def readArguments : Nat → List Expr → ReadM (List Expr)
  | 0, _ => tooDeep
  | n + 1, arguments => do
      checkRoom .arguments arguments.length
      let argument ← readExpr n .assignment
      if ← accept .comma then readArguments n (argument :: arguments)
      else return (argument :: arguments).reverse

/-- Reads a statement. -/
def readStatement : Nat → ReadM Stmt
  | 0 => tooDeep
  | n + 1 => do
      match ← accept? [.kwFor, .kwIf, .kwPrint, .kwReturn, .kwWhile, .kwBreak, .kwContinue,
          .leftBrace] with
      | none => readExpressionStatement (readExpr n)
      | some word =>
          match word.kind with
          | .kwFor => readFor (readExpr n) (readStatement n) word
          | .kwIf => readIf (readExpr n) (readStatement n)
          | .kwPrint => readPrint (readExpr n)
          | .kwReturn => readReturn (readExpr n) word
          | .kwWhile => readWhile (readExpr n) (readStatement n)
          | .leftBrace => return .block word.position (← readBlock n)
          | _ => readJump word

/-- Reads statements up to and including the brace that closes them. -/
def readBlock : Nat → ReadM (List Stmt)
  | 0 => tooDeep
  | n + 1 => do
      if ← blockEnds then
        let _ ← requireMark .closeBlock
        return []
      else
        let stmt ← readDeclaration n
        let rest ← readBlock n
        return stmt.toList ++ rest

/-- Reads the members of a class up to the brace that closes them. -/
def readMembers : Nat → ReadM (List FunctionDecl × List FunctionDecl)
  | 0 => tooDeep
  | n + 1 => do
      if ← blockEnds then return ([], [])
      else if ← accept .kwClass then
        let member ← readFunction n (readBlock n) .staticMethod
        let (methods, statics) ← readMembers n
        return (methods, member :: statics)
      else
        let member ← readFunction n (readBlock n) .method
        let (methods, statics) ← readMembers n
        return (member :: methods, statics)

/-- Reads a declaration or a statement; after a fault there is none. -/
def readDeclaration : Nat → ReadM (Option Stmt)
  | 0 => tooDeep
  | n + 1 => recovering do
      if ← accept .kwClass then readClass (readMembers n)
      else if ← startsFunction then
        let _ ← accept .kwFun
        return .function (← readFunction n (readBlock n) .function)
      else if ← accept .kwVar then readVariable (readExpr n)
      else readStatement n

end

/-! ### Whole programs -/

/-- Reads declarations up to the end of the text. -/
def readProgram : Nat → ReadM Program
  | 0 => tooDeep
  | n + 1 => do
      if ← atEnd then return []
      else
        let stmt ← readDeclaration n
        let rest ← readProgram n
        return stmt.toList ++ rest

/-- What some tokens read as. -/
structure Parsed where
  /-- The statements that were read. -/
  program : Program
  /-- The faults, in the order in which they were noticed. -/
  faults : List SyntaxFault

/-- A bound on the depth of the descent for a number of tokens.  Between two tokens
the descent passes each level once, and each kind of statement. -/
def descentBound (tokens : Nat) : Nat := 16 * (tokens + 2)

/-- The program that some tokens form. -/
def Program.ofTokens (tokens : List Token) (final : Token) : Parsed :=
  match readProgram (descentBound tokens.length) ⟨tokens, final, #[]⟩ with
  | .ok program r => ⟨program, r.faults.toList⟩
  | .error _ r => ⟨[], r.faults.toList⟩

end LoxLang
