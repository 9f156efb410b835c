import LoxLang.Proofs.Program.Declaration

/-!
# Names that are surely assigned to

When an expression has been evaluated, some names have surely been assigned to, and others
perhaps: an operand may be skipped, only one branch of a condition is evaluated, and a function
that is made need not be called.  A name that is read behind a sure assignment to it, in the
order of evaluation, has a value; any other use of a name is exposed.

The distances tell which names belong to the innermost scope.

## Main definitions

* `Expr.directReads` — the names that an expression reads outside of the functions in it.
* `Expr.assigned` — the names of the innermost scope that an expression surely assigns to.
* `Expr.exposed`, `Stmt.exposed` — uses of names that do not follow a sure assignment.
-/

namespace LoxLang

mutual

/-- The names that an expression reads, other than in functions that it makes. -/
def Expr.directReads : Expr → List Token
  | .literal _ => []
  | .grouping e => e.directReads
  | .unary _ e => e.directReads
  | .binary l _ r => l.directReads ++ r.directReads
  | .logical l _ r => l.directReads ++ r.directReads
  | .conditional c t e => c.directReads ++ (t.directReads ++ e.directReads)
  | .assign _ e => e.directReads
  | .variable t => [t]
  | .call callee _ arguments => callee.directReads ++ exprsDirectReads arguments
  | .get object _ => object.directReads
  | .set object _ e => object.directReads ++ e.directReads
  | .this _ => []
  | .lambda _ _ _ => []

/-- The names that expressions read, other than in functions that they make. -/
def exprsDirectReads : List Expr → List Token
  | [] => []
  | e :: es => e.directReads ++ exprsDirectReads es

end

mutual

/-- The names of the innermost scope that are surely assigned to when an expression has been
evaluated. -/
def Expr.assigned (D : Distances) : Expr → List String
  | .literal _ => []
  | .grouping e => e.assigned D
  | .unary _ e => e.assigned D
  | .binary l _ r => l.assigned D ++ r.assigned D
  | .logical l _ _ => l.assigned D
  | .conditional c t e => c.assigned D ++ (t.assigned D).filter (e.assigned D).contains
  | .assign t e => (if D.find? t.position = some 0 then [t.lexeme] else []) ++ e.assigned D
  | .variable _ => []
  | .call callee _ arguments => callee.assigned D ++ exprsAssigned D arguments
  | .get object _ => object.assigned D
  | .set object _ e => object.assigned D ++ e.assigned D
  | .this _ => []
  | .lambda _ _ _ => []

/-- The names of the innermost scope that are surely assigned to when expressions have been
evaluated. -/
def exprsAssigned (D : Distances) : List Expr → List String
  | [] => []
  | e :: es => e.assigned D ++ exprsAssigned D es

end

mutual

/-- The uses of names in an expression that do not follow a sure assignment, if some names were
assigned to before the expression is evaluated.  A function may be called at any time. -/
def Expr.exposed (D : Distances) : Expr → List String → List Token
  | .literal _, _ => []
  | .grouping e, known => e.exposed D known
  | .unary _ e, known => e.exposed D known
  | .binary l _ r, known => l.exposed D known ++ r.exposed D (l.assigned D ++ known)
  | .logical l _ r, known => l.exposed D known ++ r.exposed D (l.assigned D ++ known)
  | .conditional c t e, known =>
      c.exposed D known
        ++ (t.exposed D (c.assigned D ++ known) ++ e.exposed D (c.assigned D ++ known))
  | .assign t e, known => t :: e.exposed D known
  | .variable t, known => if t.lexeme ∈ known then [] else [t]
  | .call callee _ arguments, known =>
      callee.exposed D known ++ exprsExposed D arguments (callee.assigned D ++ known)
  | .get object _, known => object.exposed D known
  | .set object _ e, known => object.exposed D known ++ e.exposed D (object.assigned D ++ known)
  | .this t, _ => [t]
  | .lambda _ _ body, _ => stmtsExposed D body

/-- Likewise in expressions that are evaluated one after the other. -/
def exprsExposed (D : Distances) : List Expr → List String → List Token
  | [], _ => []
  | e :: es, known => e.exposed D known ++ exprsExposed D es (e.assigned D ++ known)

/-- The uses of names in a statement that do not follow a sure assignment in the same
expression. -/
def Stmt.exposed (D : Distances) : Stmt → List Token
  | .expression e => e.exposed D []
  | .print e => e.exposed D []
  | .var _ none => []
  | .var _ (some e) => e.exposed D []
  | .block _ body => stmtsExposed D body
  | .ifElse c t none => c.exposed D [] ++ t.exposed D
  | .ifElse c t (some e) => c.exposed D [] ++ (t.exposed D ++ e.exposed D)
  | .while c body none => c.exposed D [] ++ body.exposed D
  | .while c body (some i) => c.exposed D [] ++ (body.exposed D ++ i.exposed D [])
  | .break _ => []
  | .continue _ => []
  | .function f => f.exposed D
  | .return _ none => []
  | .return _ (some e) => e.exposed D []
  | .classDecl _ superclass methods statics =>
      superclass.toList ++ (functionsExposed D statics ++ functionsExposed D methods)

/-- Likewise in statements. -/
def stmtsExposed (D : Distances) : List Stmt → List Token
  | [] => []
  | s :: ss => s.exposed D ++ stmtsExposed D ss

/-- Likewise in a function. -/
def FunctionDecl.exposed (D : Distances) : FunctionDecl → List Token
  | .mk _ _ body => stmtsExposed D body

/-- Likewise in functions. -/
def functionsExposed (D : Distances) : List FunctionDecl → List Token
  | [] => []
  | f :: fs => f.exposed D ++ functionsExposed D fs

end

end LoxLang
