import LoxLang.Program
import LoxLang.Scope

/-!
# The analysis of scopes

A program is walked once, before it runs.  The walk opens and closes scopes as
running the program makes and leaves frames: one for a block, one for a function,
which its parameters and its body share, and one that declares `this` around the
methods of a class.  For each name and each `this` it records how many scopes lie
between the occurrence and the innermost scope that has declared the name by then;
a name that no scope has declared is taken for a global one and nothing is recorded.

The order of the walk shows in the order of the findings: the value of an
assignment comes before its target, static methods before methods, and the remarks
on a scope when the scope is closed.

## Main definitions

* `Analysis` — the state of the walk.
* `analyzeExpr`, `analyzeStmt`, `analyzeFunction` and their forms for lists.
* `Analysis.ofProgram` — the analysis of a program.

## References

The reference's `Resolver`.
-/

namespace LoxLang

/-- Where a piece of program stands with respect to classes. -/
inductive ClassPlace where
  /-- Outside of all classes. -/
  | outside
  /-- In a method. -/
  | method
  /-- In a static method. -/
  | staticMethod
  deriving DecidableEq, Repr, Inhabited

/-- The state of the walk over a program. -/
structure Analysis where
  /-- The scopes that are open, innermost first. -/
  scopes : List Scope := []
  /-- Whether the walk is inside a function. -/
  inFunction : Bool := false
  /-- Where the walk stands with respect to classes. -/
  classPlace : ClassPlace := .outside
  /-- How many loops are open in the innermost function. -/
  loopDepth : Nat := 0
  /-- The distances recorded so far. -/
  distances : Distances
  /-- What has been found so far. -/
  findings : Array Finding := #[]
  /-- The occurrences of names that were looked for so far. -/
  visits : Array Visit := #[]
  /-- Whether the walk lost track: it closed a scope that was not open, or completed a
  declaration that was not there. -/
  lost : Bool := false

namespace Analysis

/-- Adds a finding. -/
def note (a : Analysis) (f : Finding) : Analysis := { a with findings := a.findings.push f }

/-- Adds a fault at a token. -/
def fault (a : Analysis) (cause : ScopeCause) (token : Token) : Analysis :=
  a.note (.fault ⟨cause, token⟩)

/-- Adds a fault at a token if a condition holds. -/
def faultIf (a : Analysis) (condition : Bool) (cause : ScopeCause) (token : Token) : Analysis :=
  if condition then a.fault cause token else a

/-! ### Opening and closing scopes -/

/-- Opens a scope with some names. -/
def openScope (a : Analysis) (site : Site) (names : Table String Local) : Analysis :=
  { a with scopes := ⟨site, names⟩ :: a.scopes }

/-- The remarks on the names that nothing refers to. -/
def unusedIn (names : Table String Local) : List Finding :=
  names.entries.filterMap fun (name, l) =>
    if l.watched && !l.used then some (.unused name l.token) else none

/-- Closes the innermost scope and remarks on its unused names. -/
def closeScope (a : Analysis) : Analysis :=
  match a.scopes with
  | [] => { a with lost := true }
  | s :: ss => { a with scopes := ss, findings := a.findings ++ (unusedIn s.names).toArray }

/-! ### Declaring names -/

/-- Declares a name in the innermost scope, if there is one. -/
def declare (a : Analysis) (name : Token) : Analysis :=
  match a.scopes with
  | [] => a
  | s :: ss =>
      let a := a.faultIf (s.names.contains name.lexeme) .redeclared name
      let names := s.names.insert name.lexeme { token := name }
      { a with scopes := { s with names } :: ss }

/-- Changes what is known about a name that the innermost scope declares, if there is a
scope. -/
def update (a : Analysis) (name : Token) (f : Local → Local) : Analysis :=
  match a.scopes with
  | [] => a
  | s :: ss =>
      if s.names.contains name.lexeme then
        { a with scopes := { s with names := s.names.modify name.lexeme f } :: ss }
      else
        { a with lost := true }

/-- Completes the declaration of a name in the innermost scope. -/
def define (a : Analysis) (name : Token) : Analysis :=
  a.update name fun l => { l with defined := true }

/-- Declares a parameter, which is never remarked upon. -/
def declareParam (a : Analysis) (name : Token) : Analysis :=
  (a.declare name).update name fun l => { l with defined := true, watched := false }

/-! ### Referring to names -/

/-- Changes what is known about a name in the innermost scope that declares it, and
tells how many scopes were passed on the way. -/
def touch (name : String) (f : Local → Local) : List Scope → Option (Nat × List Scope)
  | [] => none
  | s :: ss =>
      match s.names.find? name with
      | some l => some (0, { s with names := s.names.insert name (f l) } :: ss)
      | none => (touch name f ss).map fun (d, ss') => (d + 1, s :: ss')

/-- Adds a visit to an occurrence of a name. -/
def visit (a : Analysis) (name : Token) : Analysis :=
  { a with visits := a.visits.push ⟨name, a.scopes⟩ }

/-- Looks for the declaration of a name and records how far away it is, if a scope
declares it. -/
def refer (a : Analysis) (name : Token) (f : Local → Local) : Analysis :=
  let a := a.visit name
  match touch name.lexeme f a.scopes with
  | none => a
  | some (d, scopes) => { a with scopes, distances := a.distances.insert name.position d }

/-- Records a reference to a name. -/
def use (a : Analysis) (name : Token) : Analysis := a.refer name fun l => { l with used := true }

/-- Records an assignment to a name, after which the name is defined. -/
def assign (a : Analysis) (name : Token) : Analysis :=
  a.refer name fun l => { l with used := true, defined := true }

/-- Whether the innermost scope is in the middle of declaring a name. -/
def isDeclaring (a : Analysis) (name : String) : Bool :=
  match a.scopes with
  | [] => false
  | s :: _ =>
      match s.names.find? name with
      | some l => !l.defined
      | none => false

/-- Records a reading of a variable. -/
def read (a : Analysis) (name : Token) : Analysis :=
  (a.faultIf (a.isDeclaring name.lexeme) .ownInitializer name).use name

/-- Records an occurrence of `this`. -/
def this (a : Analysis) (keyword : Token) : Analysis :=
  match a.classPlace with
  | .outside => a.fault .strayThis keyword
  | .staticMethod => a.fault .staticThis keyword
  | .method => a.use keyword

/-! ### Entering and leaving functions, loops and classes -/

/-- Enters a function: its parameters are declared in a new scope, and it is in no
loop. -/
def enterFunction (a : Analysis) (site : Site) (params : List Token) : Analysis :=
  params.foldl declareParam
    ({ a with inFunction := true, loopDepth := 0 }.openScope site .empty)

/-- Leaves a function that was entered from `outer`. -/
def leaveFunction (a outer : Analysis) : Analysis :=
  { a.closeScope with inFunction := outer.inFunction, loopDepth := outer.loopDepth }

/-- Enters the body of a loop. -/
def enterLoop (a : Analysis) : Analysis := { a with loopDepth := a.loopDepth + 1 }

/-- Leaves the body of a loop. -/
def leaveLoop (a : Analysis) : Analysis := { a with loopDepth := a.loopDepth - 1 }

/-- Declares a class and refers to its superclass. -/
def declareClass (a : Analysis) (name : Token) (superclass : Option Token) : Analysis :=
  let a := (a.declare name).define name
  match superclass with
  | none => a
  | some s => (a.faultIf (s.lexeme == name.lexeme) .inheritsItself s).read s

/-- Enters the static methods of a class. -/
def enterStatics (a : Analysis) : Analysis := { a with classPlace := .staticMethod }

/-- Enters the methods of a class, around which `this` is declared. -/
def enterMethods (a : Analysis) (name : Token) : Analysis :=
  { a with classPlace := .method }.openScope (.receiver name.position)
    (Table.empty.insert "this" { token := name, defined := true, watched := false })

/-- Leaves the methods of a class that was entered from `outer`. -/
def leaveClass (a outer : Analysis) : Analysis :=
  { a.closeScope with classPlace := outer.classPlace }

end Analysis

/-! ### The walk -/

mutual

/-- Walks over an expression. -/
def analyzeExpr : Expr → Analysis → Analysis
  | .literal _, a => a
  | .grouping e, a => analyzeExpr e a
  | .unary _ e, a => analyzeExpr e a
  | .binary l _ r, a => analyzeExpr r (analyzeExpr l a)
  | .logical l _ r, a => analyzeExpr r (analyzeExpr l a)
  | .conditional c t e, a => analyzeExpr e (analyzeExpr t (analyzeExpr c a))
  | .assign name value, a => (analyzeExpr value a).assign name
  | .variable name, a => a.read name
  | .call callee _ arguments, a => analyzeExprs arguments (analyzeExpr callee a)
  | .get object _, a => analyzeExpr object a
  | .set object _ value, a => analyzeExpr object (analyzeExpr value a)
  | .this keyword, a => a.this keyword
  | .lambda keyword params body, a =>
      (analyzeStmts body (a.enterFunction (.function keyword.position) params)).leaveFunction a

/-- Walks over expressions. -/
def analyzeExprs : List Expr → Analysis → Analysis
  | [], a => a
  | e :: es, a => analyzeExprs es (analyzeExpr e a)

/-- Walks over a statement. -/
def analyzeStmt : Stmt → Analysis → Analysis
  | .expression e, a => analyzeExpr e a
  | .print e, a => analyzeExpr e a
  | .var name none, a => (a.declare name).define name
  | .var name (some e), a => (analyzeExpr e (a.declare name)).define name
  | .block position body, a =>
      (analyzeStmts body (a.openScope (.block position) .empty)).closeScope
  | .ifElse c t none, a => analyzeStmt t (analyzeExpr c a)
  | .ifElse c t (some e), a => analyzeStmt e (analyzeStmt t (analyzeExpr c a))
  | .while c body none, a => (analyzeStmt body (analyzeExpr c a).enterLoop).leaveLoop
  | .while c body (some i), a =>
      (analyzeExpr i (analyzeStmt body (analyzeExpr c a).enterLoop)).leaveLoop
  | .break keyword, a => a.faultIf (a.loopDepth == 0) .strayBreak keyword
  | .continue keyword, a => a.faultIf (a.loopDepth == 0) .strayContinue keyword
  | .function decl, a => analyzeFunction decl ((a.declare decl.name).define decl.name)
  | .return keyword none, a => a.faultIf (!a.inFunction) .strayReturn keyword
  | .return keyword (some e), a => analyzeExpr e (a.faultIf (!a.inFunction) .strayReturn keyword)
  | .classDecl name superclass methods statics, a =>
      let afterStatics := analyzeFunctions statics (a.declareClass name superclass).enterStatics
      (analyzeFunctions methods (afterStatics.enterMethods name)).leaveClass a

/-- Walks over statements. -/
def analyzeStmts : List Stmt → Analysis → Analysis
  | [], a => a
  | s :: ss, a => analyzeStmts ss (analyzeStmt s a)

/-- Walks over the parameters and the body of a function. -/
def analyzeFunction : FunctionDecl → Analysis → Analysis
  | .mk name params body, a =>
      (analyzeStmts body (a.enterFunction (.function name.position) params)).leaveFunction a

/-- Walks over functions. -/
def analyzeFunctions : List FunctionDecl → Analysis → Analysis
  | [], a => a
  | f :: fs, a => analyzeFunctions fs (analyzeFunction f a)

end

/-- The analysis of a program; what it records is added to known distances. -/
def Analysis.ofProgram (program : Program) (known : Distances) : Analysis :=
  analyzeStmts program { distances := known }

end LoxLang
