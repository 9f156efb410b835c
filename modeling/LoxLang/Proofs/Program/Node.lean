import LoxLang.Program
import Mathlib.Data.List.Infix

/-!
# The nodes of a program, and where they are in the text

What matters for the analysis of scopes are the nodes of a program that declare a name, look one
up, or make sense only at some places.  A node stands at a spot of the text.  The spot says which
way leads to the node from the outside, which scopes are around it, and which loops and functions.

The parts of each construct are numbered in the order of the text, so the ways to nodes, compared
like words in a dictionary, tell which of them comes first: a node comes after those before it and
after those that it is a part of.  This order has nothing to do with the order in which nodes are
visited.

## Main definitions

* `Path`, `LexicalScope`, `Enclosure`, `Spot` — where a node stands.
* `NodeKind`, `Node` — the nodes.
* `Expr.nodes`, `Stmt.nodes`, `FunctionDecl.nodes` and their forms for lists, `Program.nodes`.
* `Node.InOrder` — a declaration and what is in its scope are in the order of the text.

## Main results

* `Path.lt_iff` — what comes first in the text.
* `Program.plain_nodes` — declarations stand in blocks and functions.
-/

namespace LoxLang

/-! ### Spots -/

/-- The way from a program to one of its parts: the number of the part at each step. -/
abbrev Path := List Nat

/-- What opens a scope. -/
inductive ScopeKind where
  /-- A block. -/
  | block
  /-- The parameters and the body of a function. -/
  | function
  /-- The methods of a class, around which `this` is declared. -/
  | receiver
  deriving DecidableEq, Repr

/-- A scope in the text. -/
structure LexicalScope where
  /-- What opens it. -/
  kind : ScopeKind
  /-- The way to what opens it. -/
  path : Path
  deriving DecidableEq, Repr

/-- What can be around a node, besides scopes. -/
inductive Enclosure where
  /-- The body of a loop. -/
  | loop
  /-- The body of a function, be it with or without a name. -/
  | function
  /-- The body of a method. -/
  | method
  /-- The body of a static method. -/
  | staticMethod
  deriving DecidableEq, Repr

/-- Whether something around a node is the body of a function of any sort. -/
def Enclosure.isBody : Enclosure → Bool
  | .loop => false
  | .function | .method | .staticMethod => true

/-- Whether something around a node is the body of a member of a class. -/
def Enclosure.isMember : Enclosure → Bool
  | .loop | .function => false
  | .method | .staticMethod => true

/-- Where a node stands. -/
structure Spot where
  /-- The way to the node. -/
  path : Path
  /-- The scopes around it, innermost first.  What is outside of all scopes is global. -/
  scopes : List LexicalScope
  /-- The loops, functions and members of classes around it, innermost first. -/
  enclosures : List Enclosure
  deriving DecidableEq, Repr

namespace Spot

/-- Outside of everything. -/
def top : Spot := ⟨[], [], []⟩

/-- A part of what stands at a spot. -/
def part (s : Spot) (i : Nat) : Spot := { s with path := s.path ++ [i] }

/-- In a scope that is opened at a spot. -/
def inside (s : Spot) (kind : ScopeKind) : Spot :=
  { s with scopes := ⟨kind, s.path⟩ :: s.scopes }

/-- In a function, or a member of a class, that stands at a spot. -/
def enter (s : Spot) (body : Enclosure) : Spot :=
  { s.inside .function with enclosures := body :: s.enclosures }

/-- In the body of a loop. -/
def loop (s : Spot) : Spot := { s with enclosures := .loop :: s.enclosures }

/-- Whether there is the body of a loop around a spot, within the innermost function. -/
def inLoop (s : Spot) : Bool :=
  (s.enclosures.takeWhile fun c => !c.isBody).contains .loop

/-- Whether there is the body of a function around a spot. -/
def inFunction (s : Spot) : Bool := s.enclosures.any Enclosure.isBody

/-- The innermost member of a class around a spot. -/
def member? (s : Spot) : Option Enclosure := s.enclosures.find? Enclosure.isMember

end Spot

/-! ### Nodes -/

/-- What declares a name, looks one up, or makes sense only at some places. -/
inductive NodeKind where
  /-- Declares a parameter. -/
  | parameter (name : Token)
  /-- Declares a variable. -/
  | var (name : Token)
  /-- Declares a function. -/
  | function (name : Token)
  /-- Declares a class, with or without a superclass. -/
  | classDecl (name : Token) (superclass : Option Token)
  /-- Reads a variable; the superclass of a class is read, too. -/
  | variable (name : Token)
  /-- Assigns to a variable. -/
  | assign (name : Token)
  /-- `this` -/
  | this (keyword : Token)
  /-- `break` -/
  | break (keyword : Token)
  /-- `continue` -/
  | continue (keyword : Token)
  /-- `return` -/
  | return (keyword : Token)
  deriving DecidableEq, Repr

/-- The name that a node declares. -/
def NodeKind.declared? : NodeKind → Option Token
  | .parameter name | .var name | .function name | .classDecl name _ => some name
  | _ => none

/-- A node at its spot. -/
structure Node where
  /-- Where it stands. -/
  spot : Spot
  /-- What it is. -/
  kind : NodeKind
  deriving DecidableEq, Repr

/-- The scope in which a node stands, if there is one. -/
def Node.scope? (n : Node) : Option LexicalScope := n.spot.scopes.head?

/-- The parameters of a function, as parts of what stands at a spot. -/
def paramNodes : List Token → Spot → Nat → List Node
  | [], _, _ => []
  | t :: ts, s, i => ⟨s.part i, .parameter t⟩ :: paramNodes ts s (i + 1)

mutual

/-- The nodes of an expression that stands at a spot, as they are visited: the value of an
assignment before its target. -/
def Expr.nodes : Expr → Spot → List Node
  | .literal _, _ => []
  | .grouping e, s => e.nodes (s.part 0)
  | .unary _ e, s => e.nodes (s.part 0)
  | .binary l _ r, s => l.nodes (s.part 0) ++ r.nodes (s.part 1)
  | .logical l _ r, s => l.nodes (s.part 0) ++ r.nodes (s.part 1)
  | .conditional c t e, s =>
      c.nodes (s.part 0) ++ (t.nodes (s.part 1) ++ e.nodes (s.part 2))
  | .assign name value, s => value.nodes (s.part 0) ++ [⟨s, .assign name⟩]
  | .variable name, s => [⟨s, .variable name⟩]
  | .call callee _ arguments, s =>
      callee.nodes (s.part 0) ++ exprsNodes arguments (s.part 1) 0
  | .get object _, s => object.nodes (s.part 0)
  | .set object _ value, s => value.nodes (s.part 1) ++ object.nodes (s.part 0)
  | .this keyword, s => [⟨s, .this keyword⟩]
  | .lambda _ params body, s =>
      paramNodes params ((s.enter .function).part 0) 0
        ++ stmtsNodes body ((s.enter .function).part 1) 0

/-- The nodes of expressions that are parts of what stands at a spot, from a number on. -/
def exprsNodes : List Expr → Spot → Nat → List Node
  | [], _, _ => []
  | e :: es, s, i => e.nodes (s.part i) ++ exprsNodes es s (i + 1)

/-- The nodes of a statement that stands at a spot.  The increment of a loop counts as a part
behind the body. -/
def Stmt.nodes : Stmt → Spot → List Node
  | .expression e, s => e.nodes (s.part 0)
  | .print e, s => e.nodes (s.part 0)
  | .var name none, s => [⟨s, .var name⟩]
  | .var name (some e), s => ⟨s, .var name⟩ :: e.nodes (s.part 0)
  | .block _ body, s => stmtsNodes body (s.inside .block) 0
  | .ifElse c t none, s => c.nodes (s.part 0) ++ t.nodes (s.part 1)
  | .ifElse c t (some e), s =>
      c.nodes (s.part 0) ++ (t.nodes (s.part 1) ++ e.nodes (s.part 2))
  | .while c body none, s => c.nodes (s.part 0) ++ body.nodes (s.part 1).loop
  | .while c body (some i), s =>
      c.nodes (s.part 0) ++ (body.nodes (s.part 1).loop ++ i.nodes (s.part 2))
  | .break keyword, s => [⟨s, .break keyword⟩]
  | .continue keyword, s => [⟨s, .continue keyword⟩]
  | .function decl, s => ⟨s, .function decl.name⟩ :: decl.nodes .function s
  | .return keyword none, s => [⟨s, .return keyword⟩]
  | .return keyword (some e), s => ⟨s, .return keyword⟩ :: e.nodes (s.part 0)
  | .classDecl name superclass methods statics, s =>
      ⟨s, .classDecl name superclass⟩
        :: (superclass.toList.map (fun t => ⟨s.part 0, .variable t⟩)
          ++ (functionsNodes statics .staticMethod (s.part 1) 0
            ++ functionsNodes methods .method ((s.part 2).inside .receiver) 0))

/-- The nodes of statements that are parts of what stands at a spot, from a number on. -/
def stmtsNodes : List Stmt → Spot → Nat → List Node
  | [], _, _ => []
  | t :: ts, s, i => t.nodes (s.part i) ++ stmtsNodes ts s (i + 1)

/-- The nodes of a function, or a member of a class, that stands at a spot. -/
def FunctionDecl.nodes : FunctionDecl → Enclosure → Spot → List Node
  | .mk _ params body, c, s =>
      paramNodes params ((s.enter c).part 0) 0 ++ stmtsNodes body ((s.enter c).part 1) 0

/-- The nodes of functions that are parts of what stands at a spot, from a number on. -/
def functionsNodes : List FunctionDecl → Enclosure → Spot → Nat → List Node
  | [], _, _, _ => []
  | f :: fs, c, s, i => f.nodes c (s.part i) ++ functionsNodes fs c s (i + 1)

end

/-- The nodes of a program. -/
def Program.nodes (program : Program) : List Node := stmtsNodes program .top 0

/-! ### The order of the text -/

section Path

variable {p q r : Path} {i j : Nat}

/-- The parts of a construct are in the order of their numbers. -/
theorem Path.lt_of_parts (hq : p ++ [i] <+: q) (hr : p ++ [j] <+: r) (hij : i < j) : q < r := by
  obtain ⟨q', rfl⟩ := hq
  obtain ⟨r', rfl⟩ := hr
  rw [List.append_assoc, List.append_assoc]
  exact List.append_left_lt (List.cons_lt_cons_iff.mpr (.inl hij))

/-- A construct comes before its parts. -/
theorem Path.lt_of_part (hq : p ++ [i] <+: q) : p < q := by
  obtain ⟨q', rfl⟩ := hq
  rw [List.append_assoc]
  conv => lhs; rw [← List.append_nil p]
  exact List.append_left_lt (by simp)

/-- What comes first in the text: a construct comes before its parts, and a part comes before
those with greater numbers. -/
theorem Path.lt_iff : p < q ↔ (p <+: q ∧ p ≠ q)
    ∨ ∃ r i j, i < j ∧ r ++ [i] <+: p ∧ r ++ [j] <+: q := by
  constructor
  · intro h
    induction p generalizing q with
    | nil => exact .inl ⟨List.nil_prefix, fun heq => List.lt_irrefl _ (heq ▸ h)⟩
    | cons a p ih =>
      cases q with
      | nil => exact absurd h (List.not_lt_nil _)
      | cons b q =>
        rcases List.cons_lt_cons_iff.mp h with hab | ⟨rfl, hlt⟩
        · exact .inr ⟨[], a, b, hab, List.prefix_append [a] p, List.prefix_append [b] q⟩
        · rcases ih hlt with ⟨hle, hne⟩ | ⟨r, i, j, hij, hp, hq⟩
          · exact .inl ⟨List.cons_prefix_cons.mpr ⟨rfl, hle⟩, by simpa using hne⟩
          · exact .inr ⟨a :: r, i, j, hij, List.cons_prefix_cons.mpr ⟨rfl, hp⟩,
              List.cons_prefix_cons.mpr ⟨rfl, hq⟩⟩
  · rintro (⟨⟨q', rfl⟩, hne⟩ | ⟨r, i, j, hij, hp, hq⟩)
    · cases q' with
      | nil => exact absurd (List.append_nil p).symm hne
      | cons i q' => exact Path.lt_of_part (i := i) (by simp)
    · exact Path.lt_of_parts hp hq hij

/-- Nothing belongs to two parts of a construct. -/
theorem Path.eq_of_parts (hi : p ++ [i] <+: q) (hj : p ++ [j] <+: q) : i = j := by
  have hle := List.prefix_of_prefix_length_le hi hj (by simp)
  simpa using (List.prefix_append_right_inj p).mp hle

/-- No construct is a part of itself. -/
theorem Path.not_part_self : ¬ p ++ [i] <+: p := by
  intro h
  have hle := h.length_le
  rw [List.length_append, List.length_singleton] at hle
  omega

/-- What belongs to a part belongs to the construct. -/
theorem Path.of_part (h : p ++ [i] <+: q) : p <+: q := (List.prefix_append p [i]).trans h

end Path

/-- A node declares a name in a scope that is around another node. -/
def Node.DeclaresAround (m n : Node) : Prop :=
  m.kind.declared?.isSome ∧ ∃ σ ∈ m.scope?, σ ∈ n.spot.scopes

/-- One node comes before another one, unless neither declares a name around the other. -/
def Node.InOrder (m n : Node) : Prop :=
  m.DeclaresAround n ∨ n.DeclaresAround m → m.spot.path < n.spot.path

/-! ### Where declarations stand -/

/-- If a node declares a name, then not directly in the scope around the methods of a class. -/
def Node.Plain (n : Node) : Prop :=
  n.kind.declared?.isSome → ∀ σ ∈ n.scope?, σ.kind ≠ .receiver

/-- A spot is not directly in the scope around the methods of a class. -/
def Spot.Plain (s : Spot) : Prop := ∀ σ ∈ s.scopes.head?, σ.kind ≠ .receiver

theorem Spot.Plain.part {s : Spot} (h : s.Plain) (i : Nat) : (s.part i).Plain := h

theorem Spot.plain_enter (s : Spot) (c : Enclosure) : (s.enter c).Plain := by
  intro σ hσ
  cases hσ
  exact ScopeKind.noConfusion

theorem Spot.plain_block (s : Spot) : (s.inside .block).Plain := by
  intro σ hσ
  cases hσ
  exact ScopeKind.noConfusion

theorem paramsPlain (params : List Token) {q : Spot} (hq : q.Plain) (i : Nat) :
    ∀ n ∈ paramNodes params q i, n.Plain := by
  induction params generalizing i with
  | nil => exact fun n hn => absurd hn List.not_mem_nil
  | cons t ts ih => exact List.forall_mem_cons.mpr ⟨fun _ => hq, ih (i + 1)⟩

mutual

theorem Expr.plain : ∀ (e : Expr) (s : Spot), ∀ n ∈ e.nodes s, n.Plain
  | .literal _, _ => fun _ hn => absurd hn List.not_mem_nil
  | .grouping e, s => e.plain (s.part 0)
  | .unary _ e, s => e.plain (s.part 0)
  | .binary l _ r, s => List.forall_mem_append.mpr ⟨l.plain (s.part 0), r.plain (s.part 1)⟩
  | .logical l _ r, s => List.forall_mem_append.mpr ⟨l.plain (s.part 0), r.plain (s.part 1)⟩
  | .conditional c t e, s =>
      List.forall_mem_append.mpr ⟨c.plain (s.part 0),
        List.forall_mem_append.mpr ⟨t.plain (s.part 1), e.plain (s.part 2)⟩⟩
  | .assign _ value, s =>
      List.forall_mem_append.mpr ⟨value.plain (s.part 0),
        List.forall_mem_singleton.mpr fun h => Bool.noConfusion h⟩
  | .variable _, _ => List.forall_mem_singleton.mpr fun h => Bool.noConfusion h
  | .call callee _ arguments, s =>
      List.forall_mem_append.mpr ⟨callee.plain (s.part 0), exprsPlain arguments (s.part 1) 0⟩
  | .get object _, s => object.plain (s.part 0)
  | .set object _ value, s =>
      List.forall_mem_append.mpr ⟨value.plain (s.part 1), object.plain (s.part 0)⟩
  | .this _, _ => List.forall_mem_singleton.mpr fun h => Bool.noConfusion h
  | .lambda _ params body, s =>
      List.forall_mem_append.mpr ⟨paramsPlain params ((s.plain_enter .function).part 0) 0,
        stmtsPlain body ((s.plain_enter .function).part 1) 0⟩

theorem exprsPlain : ∀ (es : List Expr) (q : Spot) (i : Nat), ∀ n ∈ exprsNodes es q i, n.Plain
  | [], _, _ => fun _ hn => absurd hn List.not_mem_nil
  | e :: es, q, i =>
      List.forall_mem_append.mpr ⟨e.plain (q.part i), exprsPlain es q (i + 1)⟩

theorem Stmt.plain : ∀ (t : Stmt) {s : Spot}, s.Plain → ∀ n ∈ t.nodes s, n.Plain
  | .expression e, s, _ => e.plain (s.part 0)
  | .print e, s, _ => e.plain (s.part 0)
  | .var _ none, _, h => List.forall_mem_singleton.mpr fun _ => h
  | .var _ (some e), s, h => List.forall_mem_cons.mpr ⟨fun _ => h, e.plain (s.part 0)⟩
  | .block _ body, s, _ => stmtsPlain body s.plain_block 0
  | .ifElse c t none, s, h => List.forall_mem_append.mpr ⟨c.plain (s.part 0), t.plain h⟩
  | .ifElse c t (some e), s, h =>
      List.forall_mem_append.mpr ⟨c.plain (s.part 0),
        List.forall_mem_append.mpr ⟨t.plain h, e.plain h⟩⟩
  | .while c body none, s, h => List.forall_mem_append.mpr ⟨c.plain (s.part 0), body.plain h⟩
  | .while c body (some i), s, h =>
      List.forall_mem_append.mpr ⟨c.plain (s.part 0),
        List.forall_mem_append.mpr ⟨body.plain h, i.plain (s.part 2)⟩⟩
  | .break _, _, _ => List.forall_mem_singleton.mpr fun h => Bool.noConfusion h
  | .continue _, _, _ => List.forall_mem_singleton.mpr fun h => Bool.noConfusion h
  | .function f, s, h => List.forall_mem_cons.mpr ⟨fun _ => h, f.plain .function s⟩
  | .return _ none, _, _ => List.forall_mem_singleton.mpr fun h => Bool.noConfusion h
  | .return _ (some e), s, _ =>
      List.forall_mem_cons.mpr ⟨fun h => Bool.noConfusion h, e.plain (s.part 0)⟩
  | .classDecl _ superclass methods statics, s, h => by
      refine List.forall_mem_cons.mpr ⟨fun _ => h, List.forall_mem_append.mpr ⟨fun n hn => ?_,
        List.forall_mem_append.mpr ⟨functionsPlain statics .staticMethod (s.part 1) 0,
          functionsPlain methods .method ((s.part 2).inside .receiver) 0⟩⟩⟩
      obtain ⟨t, -, rfl⟩ := List.mem_map.mp hn
      exact fun h => Bool.noConfusion h

theorem stmtsPlain : ∀ (ts : List Stmt) {q : Spot}, q.Plain → ∀ i,
    ∀ n ∈ stmtsNodes ts q i, n.Plain
  | [], _, _, _ => fun _ hn => absurd hn List.not_mem_nil
  | t :: ts, _, h, i => List.forall_mem_append.mpr ⟨t.plain h, stmtsPlain ts h (i + 1)⟩

theorem FunctionDecl.plain : ∀ (f : FunctionDecl) (c : Enclosure) (s : Spot),
    ∀ n ∈ f.nodes c s, n.Plain
  | .mk _ params body, c, s =>
      List.forall_mem_append.mpr ⟨paramsPlain params ((s.plain_enter c).part 0) 0,
        stmtsPlain body ((s.plain_enter c).part 1) 0⟩

theorem functionsPlain : ∀ (fs : List FunctionDecl) (c : Enclosure) (q : Spot) (i : Nat),
    ∀ n ∈ functionsNodes fs c q i, n.Plain
  | [], _, _, _ => fun _ hn => absurd hn List.not_mem_nil
  | f :: fs, c, q, i =>
      List.forall_mem_append.mpr ⟨f.plain c (q.part i), functionsPlain fs c q (i + 1)⟩

end

/-- Declarations stand in blocks and functions, or outside of all scopes. -/
theorem Program.plain_nodes (program : Program) : ∀ n ∈ program.nodes, n.Plain := by
  refine stmtsPlain program (fun σ hσ => ?_) 0
  cases hσ

end LoxLang
