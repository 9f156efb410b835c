import LoxLang.Table
import LoxLang.Token

/-!
# Scopes

A scope is a stretch of program text in which names are declared: a block, the
parameters and the body of a function, or the methods of a class, where `this` is
declared.  It remembers the construct that opened it and, for each name, the token
of its last declaration and what has become of it.  Names declared outside of all
scopes are global and are not kept track of.

What the analysis of scopes finds wrong is a fault; a local name that nothing
refers to is only remarked upon.

## Main definitions

* `Site` — the construct that opens a scope.
* `Local`, `Scope` — a local name, and a scope.
* `Visit` — an occurrence of a name and the scopes around it.
* `ScopeCause`, `ScopeFault` — what is wrong, with the wording.
* `Finding` — a fault, or the remark that a name is unused.
* `Distances` — how many scopes lie between a name and its declaration.

## References

The reference's `VariableStatus` and the messages of its `Resolver`.
-/

namespace LoxLang

/-- The construct that opens a scope, identified by a position in the text. -/
inductive Site where
  /-- The program as a whole. -/
  | globals
  /-- A block that begins at a position. -/
  | block (position : Nat)
  /-- A function whose name, or whose keyword if it has none, is at a position. -/
  | function (position : Nat)
  /-- The methods of a class whose name is at a position. -/
  | receiver (position : Nat)
  deriving DecidableEq, Repr, Inhabited

/-- What is known about a local name. -/
structure Local where
  /-- The token that declares it. -/
  token : Token
  /-- Whether its declaration is complete. -/
  defined : Bool := false
  /-- Whether something refers to it. -/
  used : Bool := false
  /-- Whether it is remarked upon if nothing refers to it. -/
  watched : Bool := true
  deriving DecidableEq, Repr

/-- A scope: the construct that opened it and the names declared so far. -/
structure Scope where
  /-- The construct that opened the scope. -/
  site : Site
  /-- The names, in the order of their first declarations. -/
  names : Table String Local
  deriving DecidableEq, Repr

/-- A visit to an occurrence of a name: the scopes that were open, innermost first. -/
structure Visit where
  /-- The occurrence. -/
  name : Token
  /-- The scopes that were open, with the names declared by then. -/
  scopes : List Scope
  deriving DecidableEq, Repr

/-- How many scopes lie between an occurrence of a name and its declaration, by the
position of the occurrence. -/
abbrev Distances := Table Nat Nat

/-- What can be wrong with the use of names and keywords. -/
inductive ScopeCause where
  /-- A name is declared twice in one scope. -/
  | redeclared
  /-- The initializer of a local variable reads the variable. -/
  | ownInitializer
  /-- A `break` stands outside of all loops. -/
  | strayBreak
  /-- A `continue` stands outside of all loops. -/
  | strayContinue
  /-- A `return` stands outside of all functions. -/
  | strayReturn
  /-- `this` stands outside of all classes. -/
  | strayThis
  /-- `this` stands in a static method. -/
  | staticThis
  /-- A class inherits from itself. -/
  | inheritsItself
  deriving DecidableEq, Repr

/-- A fault and the token at which it is reported. -/
structure ScopeFault where
  /-- What is wrong. -/
  cause : ScopeCause
  /-- The token at which it is reported. -/
  token : Token
  deriving DecidableEq, Repr

/-- The wording of a fault. -/
def ScopeFault.message (f : ScopeFault) : String :=
  match f.cause with
  | .redeclared => "Already a variable named '" ++ f.token.lexeme ++ "' in this scope."
  | .ownInitializer => "Can't read local variable in its own initializer."
  | .strayBreak => "Can't use 'break' outside of a loop."
  | .strayContinue => "Can't use 'continue' outside of a loop."
  | .strayReturn => "Can't return from top-level code."
  | .strayThis => "Can't use 'this' outside of a class."
  | .staticThis => "Can't use 'this' in a static method."
  | .inheritsItself => "A class can't inherit from itself."

/-- What the analysis of scopes has to say about a program. -/
inductive Finding where
  /-- Something is wrong. -/
  | fault (f : ScopeFault)
  /-- Nothing refers to a local name that was declared at a token. -/
  | unused (name : String) (token : Token)
  deriving DecidableEq, Repr

/-- The wording of the remark that nothing refers to a name. -/
def unusedMessage (name : String) : String := "Local variable '" ++ name ++ "' is never used."

end LoxLang
