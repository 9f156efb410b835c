import LoxLang.Token

/-!
# Faults while running

Running a program can fail because of what the program does, which is reported to
its user at a token, or because it needs more room than there is.  The remaining
faults concern the interpreter itself: none of them can be met by a program that was
read and analyzed without fault.

## Main definitions

* `RuntimeCause`, `RuntimeFault` — what a program did wrong, and at which token.
* `RuntimeFault.message` — the wording.
* `Fault` — every way in which running can fail.

## References

The messages that the reference gives to `LoxRuntimeError`.
-/

namespace LoxLang

/-- What a program did wrong. -/
inductive RuntimeCause where
  /-- The name is not declared. -/
  | undefinedVariable
  /-- The name has no value yet. -/
  | uninitializedVariable
  /-- The operand is not a number. -/
  | operandNotNumber
  /-- The operands are not both numbers. -/
  | operandsNotNumbers
  /-- The operands can be neither added nor joined. -/
  | operandsNotAddable
  /-- The value cannot be called. -/
  | notCallable
  /-- The number of arguments differs from the number of parameters. -/
  | wrongArity (expected : Int) (given : Nat)
  /-- The value has no properties. -/
  | noProperties
  /-- The value has no fields. -/
  | noFields
  /-- The object has no such property. -/
  | undefinedProperty
  /-- The class has no such value. -/
  | undefinedStatic (className : String)
  /-- A class inherits from what is not a class. -/
  | superclassNotClass
  /-- A jump leaves no loop. -/
  | strayJump
  /-- A return leaves no function. -/
  | strayReturn
  deriving DecidableEq, Repr

/-- A cause together with the token to blame. -/
structure RuntimeFault where
  /-- What was wrong. -/
  cause : RuntimeCause
  /-- Where it was. -/
  token : Token
  deriving DecidableEq, Repr

/-- The wording of a fault. -/
def RuntimeFault.message (f : RuntimeFault) : String :=
  let lexeme := f.token.lexeme
  match f.cause with
  | .undefinedVariable => "Undefined variable '" ++ lexeme ++ "'."
  | .uninitializedVariable =>
      "Uninitialized variable '" ++ lexeme ++ "'. Assign it a value before reading it."
  | .operandNotNumber => "Operand of '" ++ lexeme ++ "' must be a number."
  | .operandsNotNumbers => "Operands of '" ++ lexeme ++ "' must be numbers."
  | .operandsNotAddable => "Operands of '+' must be two numbers or include a string."
  | .notCallable => "Can only call functions and classes."
  | .wrongArity expected given =>
      "Expected " ++ toString expected ++ " arguments but got " ++ toString given ++ "."
  | .noProperties => "Only instances have properties."
  | .noFields => "Only instances have fields."
  | .undefinedProperty => "Undefined property '" ++ lexeme ++ "'."
  | .undefinedStatic className =>
      "Undefined static member '" ++ lexeme ++ "' on class " ++ className ++ "."
  | .superclassNotClass => "Superclass must be a class."
  | .strayJump => "'" ++ lexeme ++ "' outside of loop."
  | .strayReturn => "Can't return from top-level code."

/-- A way in which running can fail. -/
inductive Fault where
  /-- The program did something wrong. -/
  | runtime (fault : RuntimeFault)
  /-- The analysis of scopes lost track of them. -/
  | lostScope
  /-- A name is further out than there are frames. -/
  | beyondGlobals (distance : Nat)
  /-- An initializer runs without an object to initialize. -/
  | noReceiver
  /-- An operator between two operands has no meaning. -/
  | notAnOperator (kind : TokenKind)
  /-- A reference refers to nothing. -/
  | dangling
  /-- Calls and expressions are nested too deeply. -/
  | overflow
  /-- A loop goes on for too long. -/
  | endless
  deriving DecidableEq, Repr

/-- What is wrong when a name is further out than there are frames. -/
def beyondGlobalsMessage (distance : Nat) : String :=
  "scope distance " ++ toString distance ++ " walks past the global scope"

end LoxLang
