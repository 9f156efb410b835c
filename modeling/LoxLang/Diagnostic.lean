import LoxLang.Machine.Fault
import LoxLang.Program.Fault
import LoxLang.Scope
import LoxLang.Token.Lexer

/-!
# Diagnostics

A diagnostic is what is said about a program: what is wrong, and where.  It says
which part of the work it comes from, and it has a token, or at least a line, if it
is about a place in a text.

## Main definitions

* `DiagnosticKind` — the part of the work a diagnostic comes from.
* `Diagnostic` — a diagnostic, with its `Diagnostic.place`.
* `Diagnostic.ofLexFault`, `Diagnostic.ofSyntaxFault`, `Diagnostic.ofScopeFault`,
  `Diagnostic.ofUnused` — the diagnostics for what the reading of a text finds.
* `Diagnostic.ofRuntimeFault` — the diagnostic for what a running program did wrong.

## References

The reference's `LoxException` and its subclasses.
-/

namespace LoxLang

/-- The part of the work a diagnostic comes from. -/
inductive DiagnosticKind where
  /-- None in particular. -/
  | general
  /-- Reading a text as a program. -/
  | syntactic
  /-- The analysis of scopes. -/
  | scoping
  /-- Running a program. -/
  | runtime
  deriving DecidableEq, Repr, Inhabited

/-- Something that is said about a program. -/
structure Diagnostic where
  /-- The part of the work it comes from. -/
  kind : DiagnosticKind := .general
  /-- What is said. -/
  message : String
  /-- The token it is about. -/
  token : Option Token := none
  /-- The line it is about. -/
  line : Option Int := token.map Token.line
  /-- Whether the line is shown along with it. -/
  shown : Bool := true
  /-- Whether it is about the interpreter and not about the program. -/
  internal : Bool := false
  deriving DecidableEq, Repr, Inhabited

namespace Diagnostic

/-- The place of a diagnostic in words. -/
def place (d : Diagnostic) : String :=
  match d.token with
  | none => ""
  | some t => if t.kind == .eof then " at end" else " at '" ++ t.lexeme ++ "'"

/-- The diagnostic for a piece of text that is no part of a program. -/
def ofLexFault (f : LexFault) : Diagnostic :=
  { kind := .syntactic, message := f.cause.message, line := some f.line }

/-- The diagnostic for a syntax fault. -/
def ofSyntaxFault (f : SyntaxFault) : Diagnostic :=
  { kind := .syntactic, message := f.cause.message, token := some f.token }

/-- The diagnostic for a fault in the use of names and keywords. -/
def ofScopeFault (f : ScopeFault) : Diagnostic :=
  { kind := .scoping, message := f.message, token := some f.token }

/-- The diagnostic for a local name that nothing refers to. -/
def ofUnused (name : String) (token : Token) : Diagnostic :=
  { kind := .scoping, message := unusedMessage name, token := some token }

/-- The diagnostic for a fault of a running program. -/
def ofRuntimeFault (f : RuntimeFault) : Diagnostic :=
  { kind := .runtime, message := f.message, token := some f.token }

end Diagnostic

end LoxLang
