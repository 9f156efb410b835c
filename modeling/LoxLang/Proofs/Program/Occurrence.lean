import LoxLang.Program
import LoxLang.Scope

/-!
# What occurs in a program, and where

The parts of a program that matter when it is analyzed and run, apart from its shape,
are the names that are looked up, the operators, the tokens that are blamed when
something goes wrong, the jumps, and the constructs that open scopes.  Each of them
occurs at a place: with some scopes around it, inside or outside of a function, and
inside some loops.

The analysis of scopes and the machine agree about a program because both go by the
places that are defined here, the one while it walks over the program and the other
while it runs it.

## Main definitions

* `Place` — where a piece of program stands.
* `Item`, `Occurrence` — what occurs, and at which place.
* `Expr.occurrences`, `Stmt.occurrences`, `FunctionDecl.occurrences` and their forms for
  lists.

## Main results

* `Expr.items_eq` and its companions — what occurs does not depend on the place.
-/

namespace LoxLang

/-- Where a piece of program stands. -/
structure Place where
  /-- The constructs whose scopes are around it, innermost first; the program is last. -/
  sites : List Site
  /-- The innermost function around it, if there is one. -/
  function : Option Site
  /-- How many loops are around it in the innermost function. -/
  loops : Nat
  deriving DecidableEq, Repr

namespace Place

/-- Outside of everything. -/
def top : Place := ⟨[.globals], none, 0⟩

/-- In a scope that a construct opens. -/
def scope (p : Place) (site : Site) : Place := { p with sites := site :: p.sites }

/-- In a function, which is in no loop. -/
def enter (p : Place) (site : Site) : Place := ⟨site :: p.sites, some site, 0⟩

/-- In a loop. -/
def loop (p : Place) : Place := { p with loops := p.loops + 1 }

end Place

/-- What occurs in a program. -/
inductive Item where
  /-- A name or `this`, which is looked up. -/
  | name (t : Token)
  /-- An operator before its operand. -/
  | unary (operator : Token)
  /-- An operator between operands that are both evaluated. -/
  | binary (operator : Token)
  /-- The parenthesis that closes the arguments of a call. -/
  | call (paren : Token)
  /-- The name of a property. -/
  | property (name : Token)
  /-- The keyword of a `break` statement. -/
  | break (keyword : Token)
  /-- The keyword of a `continue` statement. -/
  | continue (keyword : Token)
  /-- The keyword of a `return` statement. -/
  | return (keyword : Token)
  /-- A construct that opens a scope. -/
  | opens (site : Site)
  deriving DecidableEq, Repr

/-- The position by which a construct is identified; that of the whole program has no
meaning. -/
def Site.position : Site → Nat
  | .globals => 0
  | .block position => position
  | .function position => position
  | .receiver position => position

/-- The position of what occurs. -/
def Item.position : Item → Nat
  | .name t => t.position
  | .unary operator => operator.position
  | .binary operator => operator.position
  | .call paren => paren.position
  | .property t => t.position
  | .break keyword => keyword.position
  | .continue keyword => keyword.position
  | .return keyword => keyword.position
  | .opens site => site.position

/-- Something that occurs at a place. -/
structure Occurrence where
  /-- Where it occurs. -/
  place : Place
  /-- What occurs. -/
  item : Item
  deriving DecidableEq, Repr

mutual

/-- What occurs in an expression at a place, in the order of the analysis of scopes. -/
def Expr.occurrences : Expr → Place → List Occurrence
  | .literal _, _ => []
  | .grouping e, p => e.occurrences p
  | .unary operator e, p => ⟨p, .unary operator⟩ :: e.occurrences p
  | .binary l operator r, p => ⟨p, .binary operator⟩ :: (l.occurrences p ++ r.occurrences p)
  | .logical l _ r, p => l.occurrences p ++ r.occurrences p
  | .conditional c t e, p => c.occurrences p ++ (t.occurrences p ++ e.occurrences p)
  | .assign name value, p => value.occurrences p ++ [⟨p, .name name⟩]
  | .variable name, p => [⟨p, .name name⟩]
  | .call callee paren arguments, p =>
      ⟨p, .call paren⟩ :: (callee.occurrences p ++ exprsOccurrences arguments p)
  | .get object name, p => ⟨p, .property name⟩ :: object.occurrences p
  | .set object name value, p =>
      ⟨p, .property name⟩ :: (value.occurrences p ++ object.occurrences p)
  | .this keyword, p => [⟨p, .name keyword⟩]
  | .lambda keyword _ body, p =>
      ⟨p, .opens (.function keyword.position)⟩
        :: stmtsOccurrences body (p.enter (.function keyword.position))

/-- What occurs in expressions at a place. -/
def exprsOccurrences : List Expr → Place → List Occurrence
  | [], _ => []
  | e :: es, p => e.occurrences p ++ exprsOccurrences es p

/-- What occurs in a statement at a place. -/
def Stmt.occurrences : Stmt → Place → List Occurrence
  | .expression e, p => e.occurrences p
  | .print e, p => e.occurrences p
  | .var _ none, _ => []
  | .var _ (some e), p => e.occurrences p
  | .block position body, p =>
      ⟨p, .opens (.block position)⟩ :: stmtsOccurrences body (p.scope (.block position))
  | .ifElse c t none, p => c.occurrences p ++ t.occurrences p
  | .ifElse c t (some e), p => c.occurrences p ++ (t.occurrences p ++ e.occurrences p)
  | .while c body none, p => c.occurrences p ++ body.occurrences p.loop
  | .while c body (some i), p =>
      c.occurrences p ++ (body.occurrences p.loop ++ i.occurrences p.loop)
  | .break keyword, p => [⟨p, .break keyword⟩]
  | .continue keyword, p => [⟨p, .continue keyword⟩]
  | .function decl, p => decl.occurrences p
  | .return keyword none, p => [⟨p, .return keyword⟩]
  | .return keyword (some e), p => ⟨p, .return keyword⟩ :: e.occurrences p
  | .classDecl name superclass methods statics, p =>
      ⟨p, .opens (.receiver name.position)⟩
        :: (superclass.toList.map (fun s => ⟨p, .name s⟩)
          ++ (functionsOccurrences statics p
            ++ functionsOccurrences methods (p.scope (.receiver name.position))))

/-- What occurs in statements at a place. -/
def stmtsOccurrences : List Stmt → Place → List Occurrence
  | [], _ => []
  | s :: ss, p => s.occurrences p ++ stmtsOccurrences ss p

/-- What occurs in a function that is declared at a place. -/
def FunctionDecl.occurrences : FunctionDecl → Place → List Occurrence
  | .mk name _ body, p =>
      ⟨p, .opens (.function name.position)⟩
        :: stmtsOccurrences body (p.enter (.function name.position))

/-- What occurs in functions that are declared at a place. -/
def functionsOccurrences : List FunctionDecl → Place → List Occurrence
  | [], _ => []
  | f :: fs, p => f.occurrences p ++ functionsOccurrences fs p

end

/-- What occurs in a program. -/
def Program.occurrences (program : Program) : List Occurrence := stmtsOccurrences program .top

theorem mem_exprsOccurrences {es : List Expr} {p : Place} {o : Occurrence} :
    o ∈ exprsOccurrences es p ↔ ∃ e ∈ es, o ∈ e.occurrences p := by
  induction es with
  | nil => simp [exprsOccurrences]
  | cons e es ih => simp [exprsOccurrences, ih]

theorem mem_functionsOccurrences {fs : List FunctionDecl} {p : Place} {o : Occurrence} :
    o ∈ functionsOccurrences fs p ↔ ∃ f ∈ fs, o ∈ f.occurrences p := by
  induction fs with
  | nil => simp [functionsOccurrences]
  | cons f fs ih => simp [functionsOccurrences, ih]

/-! ### What occurs does not depend on the place -/

mutual

theorem Expr.items_eq : ∀ (e : Expr) (p q : Place),
    (e.occurrences p).map Occurrence.item = (e.occurrences q).map Occurrence.item
  | .literal _, _, _ => rfl
  | .grouping e, p, q => e.items_eq p q
  | .unary _ e, p, q => by
      simp only [Expr.occurrences, List.map_cons, e.items_eq p q]
  | .binary l _ r, p, q => by
      simp only [Expr.occurrences, List.map_cons, List.map_append, l.items_eq p q, r.items_eq p q]
  | .logical l _ r, p, q => by
      simp only [Expr.occurrences, List.map_append, l.items_eq p q, r.items_eq p q]
  | .conditional c t e, p, q => by
      simp only [Expr.occurrences, List.map_append, c.items_eq p q, t.items_eq p q,
        e.items_eq p q]
  | .assign _ e, p, q => by
      simp only [Expr.occurrences, List.map_append, e.items_eq p q]
      rfl
  | .variable _, _, _ => rfl
  | .call callee _ es, p, q => by
      simp only [Expr.occurrences, List.map_cons, List.map_append, callee.items_eq p q,
        exprsItems_eq es p q]
  | .get e _, p, q => by
      simp only [Expr.occurrences, List.map_cons, e.items_eq p q]
  | .set e _ v, p, q => by
      simp only [Expr.occurrences, List.map_cons, List.map_append, e.items_eq p q,
        v.items_eq p q]
  | .this _, _, _ => rfl
  | .lambda keyword _ body, p, q => by
      simp only [Expr.occurrences, List.map_cons,
        stmtsItems_eq body (p.enter (.function keyword.position))
          (q.enter (.function keyword.position))]

theorem exprsItems_eq : ∀ (es : List Expr) (p q : Place),
    (exprsOccurrences es p).map Occurrence.item = (exprsOccurrences es q).map Occurrence.item
  | [], _, _ => rfl
  | e :: es, p, q => by
      simp only [exprsOccurrences, List.map_append, e.items_eq p q, exprsItems_eq es p q]

theorem Stmt.items_eq : ∀ (s : Stmt) (p q : Place),
    (s.occurrences p).map Occurrence.item = (s.occurrences q).map Occurrence.item
  | .expression e, p, q => e.items_eq p q
  | .print e, p, q => e.items_eq p q
  | .var _ none, _, _ => rfl
  | .var _ (some e), p, q => e.items_eq p q
  | .block position body, p, q => by
      simp only [Stmt.occurrences, List.map_cons,
        stmtsItems_eq body (p.scope (.block position)) (q.scope (.block position))]
  | .ifElse c t none, p, q => by
      simp only [Stmt.occurrences, List.map_append, c.items_eq p q, t.items_eq p q]
  | .ifElse c t (some e), p, q => by
      simp only [Stmt.occurrences, List.map_append, c.items_eq p q, t.items_eq p q,
        e.items_eq p q]
  | .while c body none, p, q => by
      simp only [Stmt.occurrences, List.map_append, c.items_eq p q,
        body.items_eq p.loop q.loop]
  | .while c body (some i), p, q => by
      simp only [Stmt.occurrences, List.map_append, c.items_eq p q,
        body.items_eq p.loop q.loop, i.items_eq p.loop q.loop]
  | .break _, _, _ => rfl
  | .continue _, _, _ => rfl
  | .function f, p, q => f.items_eq p q
  | .return _ none, _, _ => rfl
  | .return _ (some e), p, q => by
      simp only [Stmt.occurrences, List.map_cons, e.items_eq p q]
  | .classDecl name superclass methods statics, p, q => by
      simp only [Stmt.occurrences, List.map_cons, List.map_append, List.map_map,
        functionsItems_eq statics p q,
        functionsItems_eq methods (p.scope (.receiver name.position))
          (q.scope (.receiver name.position))]
      rfl

theorem stmtsItems_eq : ∀ (ss : List Stmt) (p q : Place),
    (stmtsOccurrences ss p).map Occurrence.item = (stmtsOccurrences ss q).map Occurrence.item
  | [], _, _ => rfl
  | s :: ss, p, q => by
      simp only [stmtsOccurrences, List.map_append, s.items_eq p q, stmtsItems_eq ss p q]

theorem FunctionDecl.items_eq : ∀ (f : FunctionDecl) (p q : Place),
    (f.occurrences p).map Occurrence.item = (f.occurrences q).map Occurrence.item
  | .mk name _ body, p, q => by
      simp only [FunctionDecl.occurrences, List.map_cons,
        stmtsItems_eq body (p.enter (.function name.position))
          (q.enter (.function name.position))]

theorem functionsItems_eq : ∀ (fs : List FunctionDecl) (p q : Place),
    (functionsOccurrences fs p).map Occurrence.item
      = (functionsOccurrences fs q).map Occurrence.item
  | [], _, _ => rfl
  | f :: fs, p, q => by
      simp only [functionsOccurrences, List.map_append, f.items_eq p q, functionsItems_eq fs p q]

end

/-- What occurs in an expression. -/
def Expr.items (e : Expr) : List Item := (e.occurrences .top).map Occurrence.item

/-- What occurs in expressions. -/
def exprsItems (es : List Expr) : List Item := (exprsOccurrences es .top).map Occurrence.item

/-- What occurs in a statement. -/
def Stmt.items (s : Stmt) : List Item := (s.occurrences .top).map Occurrence.item

/-- What occurs in statements. -/
def stmtsItems (ss : List Stmt) : List Item := (stmtsOccurrences ss .top).map Occurrence.item

/-- What occurs in a function. -/
def FunctionDecl.items (f : FunctionDecl) : List Item :=
  (f.occurrences .top).map Occurrence.item

/-- What occurs in functions. -/
def functionsItems (fs : List FunctionDecl) : List Item :=
  (functionsOccurrences fs .top).map Occurrence.item

theorem Expr.map_item_occurrences (e : Expr) (p : Place) :
    (e.occurrences p).map Occurrence.item = e.items := e.items_eq p .top

theorem map_item_exprsOccurrences (es : List Expr) (p : Place) :
    (exprsOccurrences es p).map Occurrence.item = exprsItems es := exprsItems_eq es p .top

theorem Stmt.map_item_occurrences (s : Stmt) (p : Place) :
    (s.occurrences p).map Occurrence.item = s.items := s.items_eq p .top

theorem map_item_stmtsOccurrences (ss : List Stmt) (p : Place) :
    (stmtsOccurrences ss p).map Occurrence.item = stmtsItems ss := stmtsItems_eq ss p .top

theorem FunctionDecl.map_item_occurrences (f : FunctionDecl) (p : Place) :
    (f.occurrences p).map Occurrence.item = f.items := f.items_eq p .top

theorem map_item_functionsOccurrences (fs : List FunctionDecl) (p : Place) :
    (functionsOccurrences fs p).map Occurrence.item = functionsItems fs :=
  functionsItems_eq fs p .top

end LoxLang
