import LoxLang.Proofs.Program.Printer

/-!
# Declared names and their uses

What a program declares and where it reads and assigns names, as far as it can be told from
its text.  A name is bound at a place if it was declared before it, or is a parameter of a
function around it, or is the name of a function or a class that it stands in.  A variable
is not yet bound in its own initializer.

## Main definitions

* `Declaration`, `Program.declarations` — the declarations of a program.
* `Access`, `Expr.accesses` — how names are used.
* `Stmt.declared` — the names that a statement declares in the scope it stands in.
* `Binding` — a name in the scope of a construct.
* `Expr.Scoped`, `Stmt.Scoped` — uses of names are as required, given what is bound there.
* `DeclaredAt` — the names that a construct declares, `this` and the clock included.

## Main results

* `Stmt.declared_eq_nil` — what can be a branch or the body of a loop declares nothing.
* `stmtsScoped_accesses` — what is required of the uses of names holds of all of them.
* `Derives.declared` — what a phrase declares is named and placed by its tokens.
* `Derives.used` — what a phrase uses is written with its tokens.
-/

namespace LoxLang

/-- What a name is declared as. -/
inductive DeclarationKind where
  /-- A variable. -/
  | variable
  /-- A parameter of a function. -/
  | parameter
  /-- A function. -/
  | function
  /-- A class. -/
  | «class»
  deriving DecidableEq, Repr

/-- The declaration of a name. -/
structure Declaration where
  /-- The construct in whose scope the name is declared. -/
  site : Site
  /-- The name. -/
  name : Token
  /-- What is evaluated before the name is bound. -/
  initializer : Option Expr := none
  /-- What the name is declared as. -/
  kind : DeclarationKind

/-- The ways in which a name is used. -/
inductive Access where
  /-- Its value is read. -/
  | read
  /-- It is assigned to. -/
  | write
  deriving DecidableEq, Repr

mutual

/-- The declarations within an expression. -/
def Expr.declarations : Expr → List Declaration
  | .literal _ => []
  | .grouping e => e.declarations
  | .unary _ e => e.declarations
  | .binary l _ r => l.declarations ++ r.declarations
  | .logical l _ r => l.declarations ++ r.declarations
  | .conditional c t e => c.declarations ++ (t.declarations ++ e.declarations)
  | .assign _ e => e.declarations
  | .variable _ => []
  | .call callee _ arguments => callee.declarations ++ exprsDeclarations arguments
  | .get object _ => object.declarations
  | .set object _ e => object.declarations ++ e.declarations
  | .this _ => []
  | .lambda keyword params body =>
      params.map (fun t => ⟨.function keyword.position, t, none, .parameter⟩)
        ++ stmtsDeclarations body (.function keyword.position)

/-- The declarations within expressions. -/
def exprsDeclarations : List Expr → List Declaration
  | [] => []
  | e :: es => e.declarations ++ exprsDeclarations es

/-- The declarations of a statement that stands in the scope of a construct.  The superclass
of a class is read before the class is bound. -/
def Stmt.declarations : Stmt → Site → List Declaration
  | .expression e, _ => e.declarations
  | .print e, _ => e.declarations
  | .var name none, site => [⟨site, name, none, .variable⟩]
  | .var name (some e), site => ⟨site, name, some e, .variable⟩ :: e.declarations
  | .block position body, _ => stmtsDeclarations body (.block position)
  | .ifElse c t none, site => c.declarations ++ t.declarations site
  | .ifElse c t (some e), site =>
      c.declarations ++ (t.declarations site ++ e.declarations site)
  | .while c body none, site => c.declarations ++ body.declarations site
  | .while c body (some i), site =>
      c.declarations ++ (body.declarations site ++ i.declarations)
  | .break _, _ => []
  | .continue _, _ => []
  | .function f, site => ⟨site, f.name, none, .function⟩ :: f.declarations
  | .return _ none, _ => []
  | .return _ (some e), _ => e.declarations
  | .classDecl name superclass methods statics, site =>
      ⟨site, name, superclass.map .variable, .class⟩
        :: (functionsDeclarations statics ++ functionsDeclarations methods)

/-- The declarations of statements that stand in the scope of a construct. -/
def stmtsDeclarations : List Stmt → Site → List Declaration
  | [], _ => []
  | s :: ss, site => s.declarations site ++ stmtsDeclarations ss site

/-- The declarations within a function: its parameters and those of its body. -/
def FunctionDecl.declarations : FunctionDecl → List Declaration
  | .mk name params body =>
      params.map (fun t => ⟨.function name.position, t, none, .parameter⟩)
        ++ stmtsDeclarations body (.function name.position)

/-- The declarations within functions. -/
def functionsDeclarations : List FunctionDecl → List Declaration
  | [] => []
  | f :: fs => f.declarations ++ functionsDeclarations fs

end

/-- The declarations of a program. -/
def Program.declarations (program : Program) : List Declaration :=
  stmtsDeclarations program .globals

mutual

/-- The uses of names in an expression, also within functions in it. -/
def Expr.accesses : Expr → List (Access × Token)
  | .literal _ => []
  | .grouping e => e.accesses
  | .unary _ e => e.accesses
  | .binary l _ r => l.accesses ++ r.accesses
  | .logical l _ r => l.accesses ++ r.accesses
  | .conditional c t e => c.accesses ++ (t.accesses ++ e.accesses)
  | .assign t e => (.write, t) :: e.accesses
  | .variable t => [(.read, t)]
  | .call callee _ arguments => callee.accesses ++ exprsAccesses arguments
  | .get object _ => object.accesses
  | .set object _ e => object.accesses ++ e.accesses
  | .this _ => []
  | .lambda _ _ body => stmtsAccesses body

/-- The uses of names in expressions. -/
def exprsAccesses : List Expr → List (Access × Token)
  | [] => []
  | e :: es => e.accesses ++ exprsAccesses es

/-- The uses of names in a statement. -/
def Stmt.accesses : Stmt → List (Access × Token)
  | .expression e => e.accesses
  | .print e => e.accesses
  | .var _ none => []
  | .var _ (some e) => e.accesses
  | .block _ body => stmtsAccesses body
  | .ifElse c t none => c.accesses ++ t.accesses
  | .ifElse c t (some e) => c.accesses ++ (t.accesses ++ e.accesses)
  | .while c body none => c.accesses ++ body.accesses
  | .while c body (some i) => c.accesses ++ (body.accesses ++ i.accesses)
  | .break _ => []
  | .continue _ => []
  | .function f => f.accesses
  | .return _ none => []
  | .return _ (some e) => e.accesses
  | .classDecl _ superclass methods statics =>
      superclass.toList.map (fun t => (.read, t))
        ++ (functionsAccesses statics ++ functionsAccesses methods)

/-- The uses of names in statements. -/
def stmtsAccesses : List Stmt → List (Access × Token)
  | [] => []
  | s :: ss => s.accesses ++ stmtsAccesses ss

/-- The uses of names in a function. -/
def FunctionDecl.accesses : FunctionDecl → List (Access × Token)
  | .mk _ _ body => stmtsAccesses body

/-- The uses of names in functions. -/
def functionsAccesses : List FunctionDecl → List (Access × Token)
  | [] => []
  | f :: fs => f.accesses ++ functionsAccesses fs

end

/-- The names that a statement declares in the scope it stands in. -/
def Stmt.declared : Stmt → List String
  | .var name _ => [name.lexeme]
  | .function f => [f.name.lexeme]
  | .classDecl name _ _ _ => [name.lexeme]
  | .ifElse _ t none => t.declared
  | .ifElse _ t (some e) => t.declared ++ e.declared
  | .while _ body _ => body.declared
  | _ => []

/-! ### Names that are bound where they are used -/

/-- A name in the scope of a construct. -/
abbrev Binding := Site × String

mutual

/-- The uses of names in an expression are as `w` requires, if the bindings `env` are there
where it stands. -/
def Expr.Scoped (w : Access → Token → List Binding → Prop) : Expr → List Binding → Prop
  | .literal _, _ => True
  | .grouping e, env => e.Scoped w env
  | .unary _ e, env => e.Scoped w env
  | .binary l _ r, env => l.Scoped w env ∧ r.Scoped w env
  | .logical l _ r, env => l.Scoped w env ∧ r.Scoped w env
  | .conditional c t e, env => c.Scoped w env ∧ t.Scoped w env ∧ e.Scoped w env
  | .assign t e, env => e.Scoped w env ∧ w .write t env
  | .variable t, env => w .read t env
  | .call callee _ arguments, env => callee.Scoped w env ∧ exprsScoped w arguments env
  | .get object _, env => object.Scoped w env
  | .set object _ e, env => object.Scoped w env ∧ e.Scoped w env
  | .this t, _ => t.kind = .kwThis
  | .lambda keyword params body, env =>
      stmtsScoped w body (.function keyword.position)
        (params.map (fun t => (.function keyword.position, t.lexeme)) ++ env)

/-- Likewise for expressions. -/
def exprsScoped (w : Access → Token → List Binding → Prop) : List Expr → List Binding → Prop
  | [], _ => True
  | e :: es, env => e.Scoped w env ∧ exprsScoped w es env

/-- Likewise for a statement that stands in the scope of a construct; a branch or the body of a
loop, which may not be run, declares nothing. -/
def Stmt.Scoped (w : Access → Token → List Binding → Prop) : Stmt → Site → List Binding → Prop
  | .expression e, _, env => e.Scoped w env
  | .print e, _, env => e.Scoped w env
  | .var _ none, _, _ => True
  | .var _ (some e), _, env => e.Scoped w env
  | .block position body, _, env => stmtsScoped w body (.block position) env
  | .ifElse c t none, site, env => c.Scoped w env ∧ t.Scoped w site env ∧ t.declared = []
  | .ifElse c t (some e), site, env =>
      c.Scoped w env ∧ (t.Scoped w site env ∧ t.declared = [])
        ∧ e.Scoped w site env ∧ e.declared = []
  | .while c body none, site, env =>
      c.Scoped w env ∧ body.Scoped w site env ∧ body.declared = []
  | .while c body (some i), site, env =>
      c.Scoped w env ∧ (body.Scoped w site env ∧ body.declared = []) ∧ i.Scoped w env
  | .break _, _, _ => True
  | .continue _, _, _ => True
  | .function f, site, env => f.Scoped w ((site, f.name.lexeme) :: env)
  | .return _ none, _, _ => True
  | .return _ (some e), _, env => e.Scoped w env
  | .classDecl name superclass methods statics, site, env =>
      (∀ t ∈ superclass, w .read t env)
        ∧ functionsScoped w statics ((site, name.lexeme) :: env)
        ∧ functionsScoped w methods ((site, name.lexeme) :: env)

/-- Likewise for statements, each of which binds what it declares for those behind it. -/
def stmtsScoped (w : Access → Token → List Binding → Prop) :
    List Stmt → Site → List Binding → Prop
  | [], _, _ => True
  | s :: ss, site, env =>
      s.Scoped w site env ∧ stmtsScoped w ss site (s.declared.map (fun x => (site, x)) ++ env)

/-- Likewise for a function, whose parameters are bound in its body. -/
def FunctionDecl.Scoped (w : Access → Token → List Binding → Prop) :
    FunctionDecl → List Binding → Prop
  | .mk name params body, env =>
      stmtsScoped w body (.function name.position)
        (params.map (fun t => (.function name.position, t.lexeme)) ++ env)

/-- Likewise for functions. -/
def functionsScoped (w : Access → Token → List Binding → Prop) :
    List FunctionDecl → List Binding → Prop
  | [], _ => True
  | f :: fs, env => f.Scoped w env ∧ functionsScoped w fs env

end

theorem exprsScoped_iff {w : Access → Token → List Binding → Prop} {es : List Expr}
    {env : List Binding} : exprsScoped w es env ↔ ∀ e ∈ es, e.Scoped w env := by
  induction es with
  | nil => simp [exprsScoped]
  | cons e es ih => simp [exprsScoped, ih]

theorem functionsScoped_iff {w : Access → Token → List Binding → Prop} {fs : List FunctionDecl}
    {env : List Binding} : functionsScoped w fs env ↔ ∀ f ∈ fs, f.Scoped w env := by
  induction fs with
  | nil => simp [functionsScoped]
  | cons f fs ih => simp [functionsScoped, ih]

theorem mem_exprsDeclarations {es : List Expr} {d : Declaration} :
    d ∈ exprsDeclarations es ↔ ∃ e ∈ es, d ∈ e.declarations := by
  induction es with
  | nil => simp [exprsDeclarations]
  | cons e es ih => simp [exprsDeclarations, ih]

theorem mem_functionsDeclarations {fs : List FunctionDecl} {d : Declaration} :
    d ∈ functionsDeclarations fs ↔ ∃ f ∈ fs, d ∈ f.declarations := by
  induction fs with
  | nil => simp [functionsDeclarations]
  | cons f fs ih => simp [functionsDeclarations, ih]

/-- What can be a branch or the body of a loop declares nothing. -/
theorem Stmt.declared_eq_nil : ∀ s : Stmt, s.wellFormed = true → s.isStatement = true →
    s.declared = []
  | .expression _, _, _ => rfl
  | .print _, _, _ => rfl
  | .var _ _, _, h => absurd h Bool.false_ne_true
  | .block _ _, _, _ => rfl
  | .ifElse c t none, hs, _ => by
      simp only [Stmt.wellFormed, Bool.and_eq_true] at hs
      exact t.declared_eq_nil hs.1.2 hs.2
  | .ifElse c t (some e), hs, _ => by
      simp only [Stmt.wellFormed, Bool.and_eq_true] at hs
      rw [Stmt.declared, t.declared_eq_nil hs.1.1.1.1.2 hs.1.1.1.2, e.declared_eq_nil hs.1.2 hs.2]
      rfl
  | .while c body none, hs, _ => by
      simp only [Stmt.wellFormed, Bool.and_eq_true] at hs
      exact body.declared_eq_nil hs.1.2 hs.2
  | .while c body (some i), hs, _ => by
      simp only [Stmt.wellFormed, Bool.and_eq_true] at hs
      exact body.declared_eq_nil hs.1.1.2 hs.1.2
  | .break _, _, _ => rfl
  | .continue _, _, _ => rfl
  | .function _, _, h => absurd h Bool.false_ne_true
  | .return _ _, _, _ => rfl
  | .classDecl _ _ _ _, _, h => absurd h Bool.false_ne_true

section Accesses

variable {w : Access → Token → List Binding → Prop}

mutual

/-- What is required of the uses of names holds of each of them, with some bindings. -/
theorem Expr.Scoped.accesses : ∀ {e : Expr} {env : List Binding}, e.Scoped w env →
    ∀ u ∈ e.accesses, ∃ env, w u.1 u.2 env
  | .literal _, _, _ => fun _ hu => absurd hu List.not_mem_nil
  | .grouping e, _, h => Expr.Scoped.accesses (e := e) h
  | .unary _ e, _, h => Expr.Scoped.accesses (e := e) h
  | .binary _ _ _, _, h => List.forall_mem_append.mpr ⟨h.1.accesses, h.2.accesses⟩
  | .logical _ _ _, _, h => List.forall_mem_append.mpr ⟨h.1.accesses, h.2.accesses⟩
  | .conditional _ _ _, _, h => by
      simp only [Expr.accesses, List.forall_mem_append]
      exact ⟨h.1.accesses, h.2.1.accesses, h.2.2.accesses⟩
  | .assign _ _, _, h => List.forall_mem_cons.mpr ⟨⟨_, h.2⟩, h.1.accesses⟩
  | .variable _, _, h => List.forall_mem_singleton.mpr ⟨_, h⟩
  | .call _ _ _, _, h => List.forall_mem_append.mpr ⟨h.1.accesses, exprsScoped_accesses h.2⟩
  | .get e _, _, h => Expr.Scoped.accesses (e := e) h
  | .set _ _ _, _, h => List.forall_mem_append.mpr ⟨h.1.accesses, h.2.accesses⟩
  | .this _, _, _ => fun _ hu => absurd hu List.not_mem_nil
  | .lambda _ _ body, _, h => stmtsScoped_accesses body h

theorem exprsScoped_accesses : ∀ {es : List Expr} {env : List Binding}, exprsScoped w es env →
    ∀ u ∈ exprsAccesses es, ∃ env, w u.1 u.2 env
  | [], _, _ => fun _ hu => absurd hu List.not_mem_nil
  | _ :: _, _, h => List.forall_mem_append.mpr ⟨h.1.accesses, exprsScoped_accesses h.2⟩

theorem Stmt.Scoped.accesses : ∀ {s : Stmt} {site : Site} {env : List Binding},
    s.Scoped w site env → ∀ u ∈ s.accesses, ∃ env, w u.1 u.2 env
  | .expression e, _, _, h => Expr.Scoped.accesses (e := e) h
  | .print e, _, _, h => Expr.Scoped.accesses (e := e) h
  | .var _ none, _, _, _ => fun _ hu => absurd hu List.not_mem_nil
  | .var _ (some e), _, _, h => Expr.Scoped.accesses (e := e) h
  | .block _ body, _, _, h => stmtsScoped_accesses body h
  | .ifElse _ _ none, _, _, h => List.forall_mem_append.mpr ⟨h.1.accesses, h.2.1.accesses⟩
  | .ifElse _ _ (some _), _, _, h => by
      simp only [Stmt.accesses, List.forall_mem_append]
      exact ⟨h.1.accesses, h.2.1.1.accesses, h.2.2.1.accesses⟩
  | .while _ _ none, _, _, h => List.forall_mem_append.mpr ⟨h.1.accesses, h.2.1.accesses⟩
  | .while _ _ (some _), _, _, h => by
      simp only [Stmt.accesses, List.forall_mem_append]
      exact ⟨h.1.accesses, h.2.1.1.accesses, h.2.2.accesses⟩
  | .break _, _, _, _ => fun _ hu => absurd hu List.not_mem_nil
  | .continue _, _, _, _ => fun _ hu => absurd hu List.not_mem_nil
  | .function f, _, _, h => FunctionDecl.Scoped.accesses (f := f) h
  | .return _ none, _, _, _ => fun _ hu => absurd hu List.not_mem_nil
  | .return _ (some e), _, _, h => Expr.Scoped.accesses (e := e) h
  | .classDecl _ superclass _ _, _, _, h => by
      simp only [Stmt.accesses, List.forall_mem_append]
      refine ⟨fun u hu => ?_, functionsScoped_accesses h.2.1, functionsScoped_accesses h.2.2⟩
      obtain ⟨t, ht, rfl⟩ := List.mem_map.mp hu
      exact ⟨_, h.1 t (Option.mem_toList.mp ht)⟩

theorem stmtsScoped_accesses : ∀ (ss : List Stmt) {site : Site} {env : List Binding},
    stmtsScoped w ss site env → ∀ u ∈ stmtsAccesses ss, ∃ env, w u.1 u.2 env
  | [], _, _, _ => fun _ hu => absurd hu List.not_mem_nil
  | _ :: ss, _, _, h => List.forall_mem_append.mpr ⟨h.1.accesses, stmtsScoped_accesses ss h.2⟩

theorem FunctionDecl.Scoped.accesses : ∀ {f : FunctionDecl} {env : List Binding},
    f.Scoped w env → ∀ u ∈ f.accesses, ∃ env, w u.1 u.2 env
  | .mk _ _ body, _, h => stmtsScoped_accesses body h

theorem functionsScoped_accesses : ∀ {fs : List FunctionDecl} {env : List Binding},
    functionsScoped w fs env → ∀ u ∈ functionsAccesses fs, ∃ env, w u.1 u.2 env
  | [], _, _ => fun _ hu => absurd hu List.not_mem_nil
  | _ :: _, _, h => List.forall_mem_append.mpr ⟨h.1.accesses, functionsScoped_accesses h.2⟩

end

end Accesses

/-- A construct declares a name: some declarations are among its own, or it is around methods
and declares `this`, or it is the whole program, which knows the clock. -/
def DeclaredAt (ds : List Declaration) (site : Site) (x : String) : Prop :=
  (∃ d ∈ ds, d.site = site ∧ d.name.lexeme = x) ∨ (∃ k, site = .receiver k ∧ x = "this")
    ∨ site = .globals ∧ x = "clock"

theorem DeclaredAt.of_mem {ds : List Declaration} {d : Declaration} (h : d ∈ ds) :
    DeclaredAt ds d.site d.name.lexeme := .inl ⟨d, h, rfl, rfl⟩

/-- A function declares its parameters. -/
theorem declaredAt_params {ds : List Declaration} {site : Site} {params : List Token}
    (h : params.map (fun t => (⟨site, t, none, .parameter⟩ : Declaration)) ⊆ ds) :
    ∀ t ∈ params, DeclaredAt ds site t.lexeme := fun _ ht => .of_mem (h (List.mem_map_of_mem ht))

/-! ### Declared names are written in the text -/

/-- A declared name is one of some tokens, and it is no keyword. -/
def Declaration.NamedIn (ts : List Token) (d : Declaration) : Prop :=
  d.name ∈ ts ∧ d.name.kind = .identifier

/-- The construct in whose scope a name is declared has the position of one of some tokens. -/
def Declaration.PlacedIn (ts : List Token) (d : Declaration) : Prop :=
  ∃ t ∈ ts, t.position = d.site.position

/-- All that a phrase declares is named and placed by some tokens; only what a statement
declares directly is placed by the construct around the statement. -/
def Phrase.DeclaresIn (ts : List Token) : Phrase → Prop
  | .expr _ e => ∀ d ∈ e.declarations, d.NamedIn ts ∧ d.PlacedIn ts
  | .optional none | .clause none => True
  | .optional (some e) => ∀ d ∈ e.declarations, d.NamedIn ts ∧ d.PlacedIn ts
  | .arguments es => ∀ d ∈ exprsDeclarations es, d.NamedIn ts ∧ d.PlacedIn ts
  | .clause (some s) | .variable s | .statement _ s | .declaration s =>
      ∀ site, ∀ d ∈ s.declarations site, d.NamedIn ts ∧ (d.site = site ∨ d.PlacedIn ts)
  | .declarations ss | .body ss =>
      ∀ site, ∀ d ∈ stmtsDeclarations ss site, d.NamedIn ts ∧ (d.site = site ∨ d.PlacedIn ts)
  | .function _ f =>
      (f.name ∈ ts ∧ f.name.kind = .identifier)
        ∧ ∀ d ∈ f.declarations, d.NamedIn ts ∧ d.PlacedIn ts
  | .members methods statics =>
      (∀ d ∈ functionsDeclarations methods, d.NamedIn ts ∧ d.PlacedIn ts)
        ∧ ∀ d ∈ functionsDeclarations statics, d.NamedIn ts ∧ d.PlacedIn ts

theorem ParameterNames.subset {names ts : List Token} (h : ParameterNames names ts) :
    ∀ t ∈ names, t ∈ ts ∧ t.kind = .identifier := by
  induction h with
  | one hname => simp [hname]
  | more hname _ _ ih => grind

theorem ParameterList.subset {params ps : List Token} (h : ParameterList params ps) :
    ∀ t ∈ params, t ∈ ps ∧ t.kind = .identifier := by
  cases h with
  | none => simp
  | some _ hnames _ _ =>
    intro t ht
    have := hnames.subset t ht
    grind

/-- What a phrase declares is named and placed by its tokens. -/
theorem Derives.declared {phrase : Phrase} {ts : List Token} (h : Derives phrase ts) :
    phrase.DeclaresIn ts := by
  induction h with
  | @join level l r operator ls rs hop hl hr ihl ihr =>
    rcases Level.join_eq hop l r with heq | ⟨heq, -⟩ <;> rw [heq] <;>
      simp only [Phrase.DeclaresIn, Expr.declarations, Declaration.NamedIn,
        Declaration.PlacedIn, Site.position] at ihl ihr ⊢ <;>
      grind
  | @«for» keyword _ _ _ initializer condition increment s _ _ _ _ _ _ _ _ _ _ _ _ _ ihi ihc ihu
      ihs =>
    cases initializer <;> cases condition <;> cases increment <;>
      simp only [forLoop, Option.getD_none, Option.getD_some, Phrase.DeclaresIn,
        Stmt.declarations, stmtsDeclarations, Expr.declarations, Declaration.NamedIn,
        Declaration.PlacedIn, Site.position] at ihi ihc ihu ihs ⊢ <;>
      grind
  | lambda hk hps hl hbody ih =>
    have hparams := hps.subset
    simp only [Phrase.DeclaresIn, Expr.declarations, Declaration.NamedIn,
      Declaration.PlacedIn, Site.position] at ih ⊢
    grind
  | function hname hps hl hbody ih =>
    have hparams := hps.subset
    simp only [Phrase.DeclaresIn, FunctionDecl.declarations, FunctionDecl.name,
      Declaration.NamedIn, Declaration.PlacedIn, Site.position] at ih ⊢
    grind
  | @«return» _ _ e _ _ _ _ ih =>
    cases e <;> simp only [Phrase.DeclaresIn, Stmt.declarations, Declaration.NamedIn,
        Declaration.PlacedIn, Site.position] at ih ⊢ <;>
      grind
  | absent | noClause => exact trivial
  | _ =>
    simp only [Phrase.DeclaresIn, Expr.declarations, exprsDeclarations, Stmt.declarations,
      stmtsDeclarations, FunctionDecl.declarations, functionsDeclarations, FunctionDecl.name,
      Declaration.NamedIn, Declaration.PlacedIn, Site.position] at *
    grind

/-! ### Used names are written in the text -/

/-- A use of a name is written with one of some tokens, which is no keyword. -/
def UsedIn (ts : List Token) (u : Access × Token) : Prop := u.2 ∈ ts ∧ u.2.kind = .identifier

/-- All names that a phrase uses are written with some tokens. -/
def Phrase.UsesIn (ts : List Token) : Phrase → Prop
  | .expr _ e => ∀ u ∈ e.accesses, UsedIn ts u
  | .optional none | .clause none => True
  | .optional (some e) => ∀ u ∈ e.accesses, UsedIn ts u
  | .arguments es => ∀ u ∈ exprsAccesses es, UsedIn ts u
  | .clause (some s) | .variable s | .statement _ s | .declaration s =>
      ∀ u ∈ s.accesses, UsedIn ts u
  | .declarations ss | .body ss => ∀ u ∈ stmtsAccesses ss, UsedIn ts u
  | .function _ f => ∀ u ∈ f.accesses, UsedIn ts u
  | .members methods statics =>
      (∀ u ∈ functionsAccesses methods, UsedIn ts u)
        ∧ ∀ u ∈ functionsAccesses statics, UsedIn ts u

/-- What a phrase uses is written with its tokens. -/
theorem Derives.used {phrase : Phrase} {ts : List Token} (h : Derives phrase ts) :
    phrase.UsesIn ts := by
  induction h with
  | @join level l r operator ls rs hop hl hr ihl ihr =>
    rcases Level.join_eq hop l r with heq | ⟨heq, -⟩ <;> rw [heq] <;>
      simp only [Phrase.UsesIn, Expr.accesses, UsedIn] at ihl ihr ⊢ <;>
      grind
  | @«for» keyword _ _ _ initializer condition increment s _ _ _ _ _ _ _ _ _ _ _ _ _ ihi ihc ihu
      ihs =>
    cases initializer <;> cases condition <;> cases increment <;>
      simp only [forLoop, Option.getD_none, Option.getD_some, Phrase.UsesIn, Stmt.accesses,
        stmtsAccesses, Expr.accesses, UsedIn] at ihi ihc ihu ihs ⊢ <;>
      grind
  | @«return» _ _ e _ _ _ _ ih =>
    cases e <;> simp only [Phrase.UsesIn, Stmt.accesses, UsedIn] at ih ⊢ <;> grind
  | @assign name _ _ _ _ _ _ _ iht ihv =>
    -- the name was read as a variable before the sign that makes it a target
    have hname : UsedIn _ (.read, name) := iht _ (List.mem_singleton_self _)
    simp only [Phrase.UsesIn, Expr.accesses, UsedIn] at hname ihv ⊢
    grind
  | classDeclaration hk hname hs hl hm hr ih =>
    cases hs <;> simp only [Phrase.UsesIn, Stmt.accesses, UsedIn, Option.toList_none,
        Option.toList_some, List.map_nil, List.map_cons] at ih ⊢ <;>
      grind
  | absent | noClause => exact trivial
  | _ =>
    simp only [Phrase.UsesIn, Expr.accesses, exprsAccesses, Stmt.accesses, stmtsAccesses,
      FunctionDecl.accesses, functionsAccesses, UsedIn] at *
    grind

end LoxLang
