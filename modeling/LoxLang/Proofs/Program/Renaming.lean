import LoxLang.Proofs.Program.Declaration
import Mathlib.Logic.Equiv.Basic

/-!
# Renaming

A renaming exchanges names in the scopes of constructs, and gives each use of a name the name
that is meant to be used instead.  It leaves the names of functions, classes and properties
alone, and `this` as well.  Everything stays at its position, so that a program and the
renamed one have the same constructs.

## Main definitions

* `Renaming` — the names in scopes and the names of uses.
* `Expr.rename`, `Stmt.rename`, `Program.rename` — renamed pieces of program.
* `Renaming.Spares` — a renaming leaves a declaration as it is.

## Main results

* `Stmt.rename_eq_self` — what a renaming does not concern stays the same.
-/

namespace LoxLang

/-- New names for variables and parameters, and for the uses of names. -/
structure Renaming where
  /-- The new names in the scope of a construct. -/
  key : Site → Equiv.Perm String
  /-- The new name of a use of a name. -/
  use : Token → String
  /-- The receiver of a method has the same name everywhere. -/
  key_this : ∀ site, key site "this" = "this"
  /-- A use of `this` stays one. -/
  use_this : ∀ t, t.kind = .kwThis → use t = t.lexeme

namespace Renaming

/-- The renaming that leaves everything as it is. -/
protected def refl : Renaming where
  key _ := Equiv.refl String
  use := Token.lexeme
  key_this _ := rfl
  use_this _ _ := rfl

/-- A name where it is declared in the scope of a construct. -/
def declare (ρ : Renaming) (site : Site) (t : Token) : Token :=
  { t with lexeme := ρ.key site t.lexeme }

/-- A name where it is used. -/
def refer (ρ : Renaming) (t : Token) : Token := { t with lexeme := ρ.use t }

@[simp] theorem lexeme_declare (ρ : Renaming) (site : Site) (t : Token) :
    (ρ.declare site t).lexeme = ρ.key site t.lexeme := rfl

@[simp] theorem lexeme_refer (ρ : Renaming) (t : Token) : (ρ.refer t).lexeme = ρ.use t := rfl

@[simp] theorem position_refer (ρ : Renaming) (t : Token) : (ρ.refer t).position = t.position :=
  rfl

theorem declare_eq_self {ρ : Renaming} {site : Site} {t : Token}
    (h : ρ.key site t.lexeme = t.lexeme) : ρ.declare site t = t := by
  rw [declare, h]

theorem refer_eq_self {ρ : Renaming} {t : Token} (h : ρ.use t = t.lexeme) : ρ.refer t = t := by
  rw [refer, h]

end Renaming

/-! ### Renamed programs -/

mutual

/-- A renamed expression. -/
def Expr.rename (ρ : Renaming) : Expr → Expr
  | .literal value => .literal value
  | .grouping e => .grouping (e.rename ρ)
  | .unary operator e => .unary operator (e.rename ρ)
  | .binary l operator r => .binary (l.rename ρ) operator (r.rename ρ)
  | .logical l operator r => .logical (l.rename ρ) operator (r.rename ρ)
  | .conditional c t e => .conditional (c.rename ρ) (t.rename ρ) (e.rename ρ)
  | .assign t e => .assign (ρ.refer t) (e.rename ρ)
  | .variable t => .variable (ρ.refer t)
  | .call callee paren arguments => .call (callee.rename ρ) paren (exprsRename ρ arguments)
  | .get object name => .get (object.rename ρ) name
  | .set object name e => .set (object.rename ρ) name (e.rename ρ)
  | .this keyword => .this keyword
  | .lambda keyword params body =>
      .lambda keyword (params.map (ρ.declare (.function keyword.position)))
        (stmtsRename ρ body (.function keyword.position))

/-- Renamed expressions. -/
def exprsRename (ρ : Renaming) : List Expr → List Expr
  | [] => []
  | e :: es => e.rename ρ :: exprsRename ρ es

/-- A renamed statement that stands in the scope of a construct. -/
def Stmt.rename (ρ : Renaming) : Stmt → Site → Stmt
  | .expression e, _ => .expression (e.rename ρ)
  | .print e, _ => .print (e.rename ρ)
  | .var name none, site => .var (ρ.declare site name) none
  | .var name (some e), site => .var (ρ.declare site name) (some (e.rename ρ))
  | .block position body, _ => .block position (stmtsRename ρ body (.block position))
  | .ifElse c t none, site => .ifElse (c.rename ρ) (t.rename ρ site) none
  | .ifElse c t (some e), site =>
      .ifElse (c.rename ρ) (t.rename ρ site) (some (e.rename ρ site))
  | .while c body none, site => .while (c.rename ρ) (body.rename ρ site) none
  | .while c body (some i), site =>
      .while (c.rename ρ) (body.rename ρ site) (some (i.rename ρ))
  | .break keyword, _ => .break keyword
  | .continue keyword, _ => .continue keyword
  -- functions and classes keep their names, as they can be printed
  | .function f, _ => .function (f.rename ρ)
  | .return keyword none, _ => .return keyword none
  | .return keyword (some e), _ => .return keyword (some (e.rename ρ))
  | .classDecl name superclass methods statics, _ =>
      .classDecl name (superclass.map ρ.refer) (functionsRename ρ methods)
        (functionsRename ρ statics)

/-- Renamed statements that stand in the scope of a construct. -/
def stmtsRename (ρ : Renaming) : List Stmt → Site → List Stmt
  | [], _ => []
  | s :: ss, site => s.rename ρ site :: stmtsRename ρ ss site

/-- A function with renamed parameters and a renamed body. -/
def FunctionDecl.rename (ρ : Renaming) : FunctionDecl → FunctionDecl
  | .mk name params body =>
      .mk name (params.map (ρ.declare (.function name.position)))
        (stmtsRename ρ body (.function name.position))

/-- Renamed functions. -/
def functionsRename (ρ : Renaming) : List FunctionDecl → List FunctionDecl
  | [] => []
  | f :: fs => f.rename ρ :: functionsRename ρ fs

end

/-- A renamed program. -/
def Program.rename (ρ : Renaming) (program : Program) : Program :=
  stmtsRename ρ program .globals

theorem exprsRename_eq_map (ρ : Renaming) (es : List Expr) :
    exprsRename ρ es = es.map (Expr.rename ρ) := by
  induction es with
  | nil => rfl
  | cons e es ih => rw [exprsRename, ih, List.map_cons]

theorem functionsRename_eq_map (ρ : Renaming) (fs : List FunctionDecl) :
    functionsRename ρ fs = fs.map (FunctionDecl.rename ρ) := by
  induction fs with
  | nil => rfl
  | cons f fs ih => rw [functionsRename, ih, List.map_cons]

@[simp] theorem FunctionDecl.name_rename (ρ : Renaming) (f : FunctionDecl) :
    (f.rename ρ).name = f.name := by
  cases f
  rfl

/-! ### What a renaming does not concern -/

/-- A renaming leaves a declared name as it is. -/
def Renaming.Spares (ρ : Renaming) (d : Declaration) : Prop :=
  ρ.key d.site d.name.lexeme = d.name.lexeme

theorem Renaming.map_declare_eq_self {ρ : Renaming} {site : Site} {params : List Token}
    (h : ∀ d ∈ params.map fun t => (⟨site, t, none, .parameter⟩ : Declaration), ρ.Spares d) :
    params.map (ρ.declare site) = params := by
  have hself : params.map (ρ.declare site) = params.map id :=
    List.map_congr_left fun t ht => declare_eq_self (h _ (List.mem_map_of_mem ht))
  rw [hself, List.map_id]

section RenameEqSelf

variable {ρ : Renaming}

mutual

/-- An expression stays the same if its declarations and its uses of names do. -/
theorem Expr.rename_eq_self : ∀ e : Expr, (∀ d ∈ e.declarations, ρ.Spares d) →
    (∀ u ∈ e.accesses, ρ.use u.2 = u.2.lexeme) → e.rename ρ = e
  | .literal _, _, _ => rfl
  | .grouping e, hd, hu => by rw [Expr.rename, e.rename_eq_self hd hu]
  | .unary _ e, hd, hu => by rw [Expr.rename, e.rename_eq_self hd hu]
  | .binary l _ r, hd, hu => by
      simp only [Expr.declarations, Expr.accesses, List.forall_mem_append] at hd hu
      rw [Expr.rename, l.rename_eq_self hd.1 hu.1, r.rename_eq_self hd.2 hu.2]
  | .logical l _ r, hd, hu => by
      simp only [Expr.declarations, Expr.accesses, List.forall_mem_append] at hd hu
      rw [Expr.rename, l.rename_eq_self hd.1 hu.1, r.rename_eq_self hd.2 hu.2]
  | .conditional c t e, hd, hu => by
      simp only [Expr.declarations, Expr.accesses, List.forall_mem_append] at hd hu
      rw [Expr.rename, c.rename_eq_self hd.1 hu.1, t.rename_eq_self hd.2.1 hu.2.1,
        e.rename_eq_self hd.2.2 hu.2.2]
  | .assign t e, hd, hu => by
      simp only [Expr.accesses, List.forall_mem_cons] at hu
      rw [Expr.rename, Renaming.refer_eq_self hu.1, e.rename_eq_self hd hu.2]
  | .variable t, _, hu => by
      rw [Expr.rename, Renaming.refer_eq_self (hu (.read, t) List.mem_cons_self)]
  | .call callee _ arguments, hd, hu => by
      simp only [Expr.declarations, Expr.accesses, List.forall_mem_append] at hd hu
      rw [Expr.rename, callee.rename_eq_self hd.1 hu.1, exprsRename_eq_self arguments hd.2 hu.2]
  | .get object _, hd, hu => by rw [Expr.rename, object.rename_eq_self hd hu]
  | .set object _ e, hd, hu => by
      simp only [Expr.declarations, Expr.accesses, List.forall_mem_append] at hd hu
      rw [Expr.rename, object.rename_eq_self hd.1 hu.1, e.rename_eq_self hd.2 hu.2]
  | .this _, _, _ => rfl
  | .lambda keyword params body, hd, hu => by
      rw [Expr.declarations, List.forall_mem_append] at hd
      rw [Expr.rename, Renaming.map_declare_eq_self hd.1, stmtsRename_eq_self body _ hd.2 hu]

theorem exprsRename_eq_self : ∀ es : List Expr, (∀ d ∈ exprsDeclarations es, ρ.Spares d) →
    (∀ u ∈ exprsAccesses es, ρ.use u.2 = u.2.lexeme) → exprsRename ρ es = es
  | [], _, _ => rfl
  | e :: es, hd, hu => by
      simp only [exprsDeclarations, exprsAccesses, List.forall_mem_append] at hd hu
      rw [exprsRename, e.rename_eq_self hd.1 hu.1, exprsRename_eq_self es hd.2 hu.2]

/-- A statement stays the same if its declarations and its uses of names do. -/
theorem Stmt.rename_eq_self : ∀ (s : Stmt) (site : Site),
    (∀ d ∈ s.declarations site, ρ.Spares d) → (∀ u ∈ s.accesses, ρ.use u.2 = u.2.lexeme) →
    s.rename ρ site = s
  | .expression e, _, hd, hu => by rw [Stmt.rename, e.rename_eq_self hd hu]
  | .print e, _, hd, hu => by rw [Stmt.rename, e.rename_eq_self hd hu]
  | .var name none, _, hd, _ => by
      rw [Stmt.rename, Renaming.declare_eq_self (hd _ List.mem_cons_self)]
  | .var name (some e), _, hd, hu => by
      rw [Stmt.declarations, List.forall_mem_cons] at hd
      rw [Stmt.rename, Renaming.declare_eq_self hd.1, e.rename_eq_self hd.2 hu]
  | .block _ body, _, hd, hu => by rw [Stmt.rename, stmtsRename_eq_self body _ hd hu]
  | .ifElse c t none, site, hd, hu => by
      simp only [Stmt.declarations, Stmt.accesses, List.forall_mem_append] at hd hu
      rw [Stmt.rename, c.rename_eq_self hd.1 hu.1, t.rename_eq_self site hd.2 hu.2]
  | .ifElse c t (some e), site, hd, hu => by
      simp only [Stmt.declarations, Stmt.accesses, List.forall_mem_append] at hd hu
      rw [Stmt.rename, c.rename_eq_self hd.1 hu.1, t.rename_eq_self site hd.2.1 hu.2.1,
        e.rename_eq_self site hd.2.2 hu.2.2]
  | .while c body none, site, hd, hu => by
      simp only [Stmt.declarations, Stmt.accesses, List.forall_mem_append] at hd hu
      rw [Stmt.rename, c.rename_eq_self hd.1 hu.1, body.rename_eq_self site hd.2 hu.2]
  | .while c body (some i), site, hd, hu => by
      simp only [Stmt.declarations, Stmt.accesses, List.forall_mem_append] at hd hu
      rw [Stmt.rename, c.rename_eq_self hd.1 hu.1, body.rename_eq_self site hd.2.1 hu.2.1,
        i.rename_eq_self hd.2.2 hu.2.2]
  | .break _, _, _, _ => rfl
  | .continue _, _, _, _ => rfl
  | .function f, _, hd, hu => by
      rw [Stmt.declarations, List.forall_mem_cons] at hd
      rw [Stmt.rename, f.rename_eq_self hd.2 hu]
  | .return _ none, _, _, _ => rfl
  | .return _ (some e), _, hd, hu => by rw [Stmt.rename, e.rename_eq_self hd hu]
  | .classDecl name superclass methods statics, _, hd, hu => by
      simp only [Stmt.declarations, Stmt.accesses, List.forall_mem_cons,
        List.forall_mem_append] at hd hu
      have hsuper : superclass.map ρ.refer = superclass := by
        cases superclass with
        | none => rfl
        | some t =>
          rw [Option.map_some, Renaming.refer_eq_self (hu.1 (.read, t) List.mem_cons_self)]
      rw [Stmt.rename, hsuper, functionsRename_eq_self methods hd.2.2 hu.2.2,
        functionsRename_eq_self statics hd.2.1 hu.2.1]

theorem stmtsRename_eq_self : ∀ (ss : List Stmt) (site : Site),
    (∀ d ∈ stmtsDeclarations ss site, ρ.Spares d) →
    (∀ u ∈ stmtsAccesses ss, ρ.use u.2 = u.2.lexeme) → stmtsRename ρ ss site = ss
  | [], _, _, _ => rfl
  | s :: ss, site, hd, hu => by
      simp only [stmtsDeclarations, stmtsAccesses, List.forall_mem_append] at hd hu
      rw [stmtsRename, s.rename_eq_self site hd.1 hu.1, stmtsRename_eq_self ss site hd.2 hu.2]

theorem FunctionDecl.rename_eq_self : ∀ f : FunctionDecl, (∀ d ∈ f.declarations, ρ.Spares d) →
    (∀ u ∈ f.accesses, ρ.use u.2 = u.2.lexeme) → f.rename ρ = f
  | .mk name params body, hd, hu => by
      rw [FunctionDecl.declarations, List.forall_mem_append] at hd
      rw [FunctionDecl.rename, Renaming.map_declare_eq_self hd.1,
        stmtsRename_eq_self body _ hd.2 hu]

theorem functionsRename_eq_self : ∀ fs : List FunctionDecl,
    (∀ d ∈ functionsDeclarations fs, ρ.Spares d) →
    (∀ u ∈ functionsAccesses fs, ρ.use u.2 = u.2.lexeme) → functionsRename ρ fs = fs
  | [], _, _ => rfl
  | f :: fs, hd, hu => by
      simp only [functionsDeclarations, functionsAccesses, List.forall_mem_append] at hd hu
      rw [functionsRename, f.rename_eq_self hd.1 hu.1, functionsRename_eq_self fs hd.2 hu.2]

end

end RenameEqSelf

end LoxLang
