import LoxLang.Token

/-!
# Programs

A program is a list of statements.  Expressions and statements are trees whose
nodes keep the tokens they were written with: names and operators for running
them, keywords and the closing parenthesis of a call for saying where something
went wrong.  A `for` loop is written as a `while` loop whose increment runs after
every round, inside a block when the loop has an initializer.

A block remembers the position at which it begins.  Together with the positions of
names and keywords this tells apart all the constructs that open a scope.

## Main definitions

* `Expr`, `Stmt`, `FunctionDecl` — the trees.
* `Program` — a list of statements.

## References

The reference's classes of syntax nodes, such as `Binary` and `While`.
-/

namespace LoxLang

mutual

/-- An expression. -/
inductive Expr where
  /-- A constant. -/
  | literal (value : Literal)
  /-- An expression in parentheses. -/
  | grouping (inner : Expr)
  /-- An operator before its operand. -/
  | unary (operator : Token) (operand : Expr)
  /-- An operator between two operands that are both evaluated. -/
  | binary (left : Expr) (operator : Token) (right : Expr)
  /-- `and` or `or`, which may leave the right operand out. -/
  | logical (left : Expr) (operator : Token) (right : Expr)
  /-- A choice between two expressions. -/
  | conditional (condition whenTrue whenFalse : Expr)
  /-- An assignment to a name. -/
  | assign (name : Token) (value : Expr)
  /-- The value of a name. -/
  | variable (name : Token)
  /-- A call; `paren` closes the list of arguments. -/
  | call (callee : Expr) (paren : Token) (arguments : List Expr)
  /-- The value of a property. -/
  | get (object : Expr) (name : Token)
  /-- An assignment to a property. -/
  | set (object : Expr) (name : Token) (value : Expr)
  /-- The receiver of the method that is running. -/
  | this (keyword : Token)
  /-- A function without a name. -/
  | lambda (keyword : Token) (params : List Token) (body : List Stmt)

/-- A statement. -/
inductive Stmt where
  /-- An expression evaluated for its effects. -/
  | expression (e : Expr)
  /-- Prints a value on a line of its own. -/
  | print (e : Expr)
  /-- Declares a variable, with or without a value. -/
  | var (name : Token) (initializer : Option Expr)
  /-- Statements with a scope of their own, which begins at `position`. -/
  | block (position : Nat) (body : List Stmt)
  /-- A choice between statements. -/
  | ifElse (condition : Expr) (whenTrue : Stmt) (whenFalse : Option Stmt)
  /-- A loop; the increment runs after each round that does not leave the loop. -/
  | while (condition : Expr) (body : Stmt) (increment : Option Expr)
  /-- Leaves the innermost loop. -/
  | break (keyword : Token)
  /-- Leaves the current round of the innermost loop. -/
  | continue (keyword : Token)
  /-- Declares a function. -/
  | function (decl : FunctionDecl)
  /-- Leaves the function that is running, with or without a value. -/
  | return (keyword : Token) (value : Option Expr)
  /-- Declares a class. -/
  | classDecl (name : Token) (superclass : Option Token) (methods statics : List FunctionDecl)

/-- A function with a name: a declared function, a method or a static method. -/
inductive FunctionDecl where
  /-- The function `name` with its parameters and its body. -/
  | mk (name : Token) (params : List Token) (body : List Stmt)

end

namespace FunctionDecl

/-- The name of a function. -/
def name : FunctionDecl → Token
  | mk name _ _ => name

/-- The parameters of a function. -/
def params : FunctionDecl → List Token
  | mk _ params _ => params

/-- The body of a function. -/
def body : FunctionDecl → List Stmt
  | mk _ _ body => body

end FunctionDecl

instance : Inhabited Expr := ⟨.literal .nil⟩

instance : Inhabited Stmt := ⟨.expression default⟩

instance : Inhabited FunctionDecl := ⟨.mk default [] []⟩

/-- A program. -/
abbrev Program := List Stmt

end LoxLang
