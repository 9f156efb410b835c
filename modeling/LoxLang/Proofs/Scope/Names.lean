import LoxLang.Proofs.Program.Declaration
import LoxLang.Proofs.Scope.Walk

/-!
# The names in scopes

What the analysis of scopes declares where, compared with what the program declares.  The
walk over an expression leaves the names of all scopes as they are, and the walk over a
statement adds the names that the statement declares to the innermost scope.  When a name
is visited, a scope therefore holds names that its construct declares.

## Main definitions

* `Outline` — the constructs of scopes and the names that are declared in them.
* `Outline.Proper`, `Analysis.Proper` — scopes hold what their constructs may declare.

## Main results

* `outline_analyzeExpr`, `outline_analyzeStmt` — the names that the walk declares.
* `Analysis.proper_ofProgram` — visits saw what the constructs around them declare.
-/

namespace LoxLang

/-- The constructs of scopes, innermost first, with the names that are declared in them. -/
abbrev Outline := List (Site × (String → Bool))

/-- What scopes declare. -/
def outline (scopes : List Scope) : Outline := scopes.map fun s => (s.site, s.names.contains)

/-- Declares names in the innermost scope, if there is one. -/
def Outline.declare (names : List String) : Outline → Outline
  | [] => []
  | (site, holds) :: rest => (site, fun x => holds x || names.contains x) :: rest

namespace Outline

@[simp] theorem declare_nil (o : Outline) : o.declare [] = o := by
  cases o with
  | nil => rfl
  | cons s rest => simp [declare]

theorem declare_declare (names names' : List String) (o : Outline) :
    (o.declare names).declare names' = o.declare (names ++ names') := by
  cases o with
  | nil => rfl
  | cons s rest => simp [declare, Bool.or_assoc]

@[simp] theorem tail_declare (names : List String) (o : Outline) :
    (o.declare names).tail = o.tail := by
  cases o <;> rfl

end Outline

namespace Analysis

/-- What the scopes that are open declare. -/
def outline (a : Analysis) : Outline := LoxLang.outline a.scopes

/-! ### The steps of the walk -/

@[simp] theorem outline_faultIf (a : Analysis) (condition : Bool) (cause : ScopeCause)
    (token : Token) : (a.faultIf condition cause token).outline = a.outline := by
  unfold faultIf
  split <;> rfl

@[simp] theorem outline_declare (a : Analysis) (name : Token) :
    (a.declare name).outline = a.outline.declare [name.lexeme] := by
  unfold declare outline
  split
  · next h =>
    rw [h]
    rfl
  · next s ss h =>
    rw [h]
    simp only [LoxLang.outline, List.map_cons, Outline.declare, List.cons.injEq, Prod.mk.injEq,
      true_and, and_true]
    funext x
    rw [Table.contains_insert, Bool.or_comm, List.contains_cons, List.contains_nil,
      Bool.or_false, Bool.beq_comm]
    rfl

@[simp] theorem outline_update (a : Analysis) (name : Token) (f : Local → Local) :
    (a.update name f).outline = a.outline := by
  unfold update outline
  split
  · next h => rw [h]
  · next s ss h =>
    split
    · rw [h]
      simp only [LoxLang.outline, List.map_cons, List.cons.injEq, Prod.mk.injEq, true_and,
        and_true]
      funext x
      exact Table.contains_modify _ _ _ _
    · rfl

@[simp] theorem outline_define (a : Analysis) (name : Token) :
    (a.define name).outline = a.outline := outline_update a name _

@[simp] theorem outline_declareParams (params : List Token) (a : Analysis) :
    (params.foldl declareParam a).outline = a.outline.declare (params.map Token.lexeme) := by
  induction params generalizing a with
  | nil => simp
  | cons name params ih =>
    rw [List.foldl_cons, ih, declareParam, outline_update, outline_declare,
      Outline.declare_declare]
    rfl

/-- Looking for a name changes no names. -/
theorem outline_of_touch {name : String} {f : Local → Local} {ss ss' : List Scope} {d : Nat}
    (h : touch name f ss = some (d, ss')) : LoxLang.outline ss' = LoxLang.outline ss := by
  induction ss generalizing d ss' with
  | nil => cases h
  | cons s ss ih =>
    rw [touch] at h
    split at h
    · next l hl =>
      cases h
      simp only [LoxLang.outline, List.map_cons, List.cons.injEq, Prod.mk.injEq, true_and,
        and_true]
      funext x
      rw [Table.contains_insert]
      by_cases hx : name = x
      · subst hx
        simp [Table.contains, hl]
      · simp [hx]
    · obtain ⟨⟨d', ss''⟩, htouch, heq⟩ := Option.map_eq_some_iff.mp h
      cases heq
      have hrest := ih htouch
      simp only [LoxLang.outline, List.map_cons] at hrest ⊢
      rw [hrest]

@[simp] theorem outline_refer (a : Analysis) (name : Token) (f : Local → Local) :
    (a.refer name f).outline = a.outline := by
  unfold refer
  dsimp only
  split
  · rfl
  · next h => exact outline_of_touch h

@[simp] theorem outline_assign (a : Analysis) (name : Token) :
    (a.assign name).outline = a.outline := outline_refer a name _

@[simp] theorem outline_read (a : Analysis) (name : Token) :
    (a.read name).outline = a.outline := by
  rw [read, use, outline_refer, outline_faultIf]

@[simp] theorem outline_this (a : Analysis) (keyword : Token) :
    (a.this keyword).outline = a.outline := by
  unfold this
  split
  · rfl
  · rfl
  · exact outline_refer a keyword _

@[simp] theorem outline_openScope (a : Analysis) (site : Site) (names : Table String Local) :
    (a.openScope site names).outline = (site, names.contains) :: a.outline := rfl

@[simp] theorem outline_closeScope (a : Analysis) : a.closeScope.outline = a.outline.tail := by
  unfold closeScope outline
  split
  · next h => rw [h]; rfl
  · next h => rw [h]; rfl

@[simp] theorem outline_enterFunction (a : Analysis) (site : Site) (params : List Token) :
    (a.enterFunction site params).outline
      = Outline.declare (params.map Token.lexeme) ((site, fun _ => false) :: a.outline) := by
  rw [enterFunction, outline_declareParams]
  rfl

@[simp] theorem outline_leaveFunction (a outer : Analysis) :
    (a.leaveFunction outer).outline = a.outline.tail := outline_closeScope a

@[simp] theorem outline_enterLoop (a : Analysis) : a.enterLoop.outline = a.outline := rfl

@[simp] theorem outline_leaveLoop (a : Analysis) : a.leaveLoop.outline = a.outline := rfl

@[simp] theorem outline_declareClass (a : Analysis) (name : Token) (superclass : Option Token) :
    (a.declareClass name superclass).outline = a.outline.declare [name.lexeme] := by
  cases superclass <;> simp [declareClass]

@[simp] theorem outline_enterStatics (a : Analysis) : a.enterStatics.outline = a.outline := rfl

@[simp] theorem outline_enterMethods (a : Analysis) (name : Token) :
    (a.enterMethods name).outline
      = (.receiver name.position, fun x => decide ("this" = x)) :: a.outline := by
  have hthis : ∀ l : Local, (Table.empty.insert "this" l).contains
      = fun x => decide ("this" = x) := by
    intro l
    funext x
    rw [Table.contains_insert]
    exact Bool.or_false _
  rw [enterMethods, outline_openScope, hthis]
  rfl

@[simp] theorem outline_leaveClass (a outer : Analysis) :
    (a.leaveClass outer).outline = a.outline.tail := outline_closeScope a

end Analysis

/-! ### What the walk declares -/

mutual

/-- An expression declares nothing in the scopes around it. -/
@[simp] theorem outline_analyzeExpr : ∀ (e : Expr) (a : Analysis),
    (analyzeExpr e a).outline = a.outline
  | .literal _, _ => rfl
  | .grouping e, a => outline_analyzeExpr e a
  | .unary _ e, a => outline_analyzeExpr e a
  | .binary l _ r, a => by
      rw [analyzeExpr, outline_analyzeExpr r, outline_analyzeExpr l]
  | .logical l _ r, a => by
      rw [analyzeExpr, outline_analyzeExpr r, outline_analyzeExpr l]
  | .conditional c t e, a => by
      rw [analyzeExpr, outline_analyzeExpr e, outline_analyzeExpr t, outline_analyzeExpr c]
  | .assign name e, a => by
      rw [analyzeExpr, Analysis.outline_assign, outline_analyzeExpr e]
  | .variable name, a => a.outline_read name
  | .call callee _ arguments, a => by
      rw [analyzeExpr, outline_analyzeExprs arguments, outline_analyzeExpr callee]
  | .get e _, a => outline_analyzeExpr e a
  | .set e _ v, a => by
      rw [analyzeExpr, outline_analyzeExpr e, outline_analyzeExpr v]
  | .this keyword, a => a.outline_this keyword
  | .lambda _ _ body, a => by
      rw [analyzeExpr, Analysis.outline_leaveFunction, outline_analyzeStmts body,
        Analysis.outline_enterFunction, Outline.tail_declare, Outline.tail_declare]
      rfl

@[simp] theorem outline_analyzeExprs : ∀ (es : List Expr) (a : Analysis),
    (analyzeExprs es a).outline = a.outline
  | [], _ => rfl
  | e :: es, a => by
      rw [analyzeExprs, outline_analyzeExprs es, outline_analyzeExpr e]

/-- A statement declares its names in the innermost scope and nothing elsewhere. -/
@[simp] theorem outline_analyzeStmt : ∀ (s : Stmt) (a : Analysis),
    (analyzeStmt s a).outline = a.outline.declare s.declared
  | .expression e, a => by
      rw [analyzeStmt, outline_analyzeExpr e]
      simp [Stmt.declared]
  | .print e, a => by
      rw [analyzeStmt, outline_analyzeExpr e]
      simp [Stmt.declared]
  | .var name none, a => by
      rw [analyzeStmt, Analysis.outline_define, Analysis.outline_declare]
      rfl
  | .var name (some e), a => by
      rw [analyzeStmt, Analysis.outline_define, outline_analyzeExpr e, Analysis.outline_declare]
      rfl
  | .block _ body, a => by
      rw [analyzeStmt, Analysis.outline_closeScope, outline_analyzeStmts body,
        Outline.tail_declare]
      simp [Stmt.declared]
  | .ifElse c t none, a => by
      rw [analyzeStmt, outline_analyzeStmt t, outline_analyzeExpr c]
      rfl
  | .ifElse c t (some e), a => by
      rw [analyzeStmt, outline_analyzeStmt e, outline_analyzeStmt t, outline_analyzeExpr c,
        Outline.declare_declare]
      rfl
  | .while c body none, a => by
      rw [analyzeStmt, Analysis.outline_leaveLoop, outline_analyzeStmt body,
        Analysis.outline_enterLoop, outline_analyzeExpr c]
      rfl
  | .while c body (some i), a => by
      rw [analyzeStmt, Analysis.outline_leaveLoop, outline_analyzeExpr i,
        outline_analyzeStmt body, Analysis.outline_enterLoop, outline_analyzeExpr c]
      rfl
  | .break _, a => by simp [analyzeStmt, Stmt.declared]
  | .continue _, a => by simp [analyzeStmt, Stmt.declared]
  | .function f, a => by
      rw [analyzeStmt, outline_analyzeFunction f, Analysis.outline_define,
        Analysis.outline_declare]
      rfl
  | .return _ none, a => by simp [analyzeStmt, Stmt.declared]
  | .return _ (some e), a => by
      rw [analyzeStmt, outline_analyzeExpr e]
      simp [Stmt.declared]
  | .classDecl name superclass methods statics, a => by
      rw [analyzeStmt, Analysis.outline_leaveClass, outline_analyzeFunctions methods,
        Analysis.outline_enterMethods, outline_analyzeFunctions statics,
        Analysis.outline_enterStatics, Analysis.outline_declareClass]
      rfl

@[simp] theorem outline_analyzeStmts : ∀ (ss : List Stmt) (a : Analysis),
    (analyzeStmts ss a).outline = a.outline.declare (ss.flatMap Stmt.declared)
  | [], a => (Outline.declare_nil a.outline).symm
  | s :: ss, a => by
      rw [analyzeStmts, outline_analyzeStmts ss, outline_analyzeStmt s, Outline.declare_declare,
        List.flatMap_cons]

@[simp] theorem outline_analyzeFunction : ∀ (f : FunctionDecl) (a : Analysis),
    (analyzeFunction f a).outline = a.outline
  | .mk _ _ body, a => by
      rw [analyzeFunction, Analysis.outline_leaveFunction, outline_analyzeStmts body,
        Analysis.outline_enterFunction, Outline.tail_declare, Outline.tail_declare]
      rfl

@[simp] theorem outline_analyzeFunctions : ∀ (fs : List FunctionDecl) (a : Analysis),
    (analyzeFunctions fs a).outline = a.outline
  | [], _ => rfl
  | f :: fs, a => by
      rw [analyzeFunctions, outline_analyzeFunctions fs, outline_analyzeFunction f]

end

/-! ### Scopes hold what their constructs may declare -/

/-- Scopes hold only names that their constructs declare, and `this` is declared around
methods. -/
def Outline.Proper (ds : List Declaration) (o : Outline) : Prop :=
  ∀ s ∈ o, (∀ x, s.2 x → DeclaredAt ds s.1 x) ∧ ∀ k, s.1 = .receiver k → s.2 "this"

/-- The innermost scope, if there is one, is that of a construct. -/
def Outline.In (site : Site) (o : Outline) : Prop := ∀ s ∈ o.head?, s.1 = site

/-- What the scopes declared that were open at a visit. -/
def Visit.outline (v : Visit) : Outline := LoxLang.outline v.scopes

/-- The scopes that are open are proper, and so were those at all visits. -/
structure Analysis.Proper (ds : List Declaration) (a : Analysis) : Prop where
  /-- The scopes that are open. -/
  scopes : a.outline.Proper ds
  /-- The scopes at visits. -/
  visits : ∀ v ∈ a.visits.toList, v.outline.Proper ds

section Proper

variable {ds : List Declaration} {o : Outline} {a b : Analysis} {site : Site}

theorem Outline.In.cons (site : Site) (holds : String → Bool) (o : Outline) :
    Outline.In site ((site, holds) :: o) := by
  intro s hs
  rw [← Option.some.inj hs]

theorem Outline.In.declare (h : o.In site) (names : List String) : (o.declare names).In site := by
  cases o with
  | nil => exact h
  | cons s rest => exact fun s' hs' => Option.some.inj hs' ▸ h s rfl

theorem Outline.Proper.declare (h : o.Proper ds) (hsite : o.In site) {names : List String}
    (hnames : ∀ x ∈ names, DeclaredAt ds site x) : (o.declare names).Proper ds := by
  cases o with
  | nil => exact h
  | cons s rest =>
    intro s' hs'
    rcases List.mem_cons.mp hs' with rfl | hs'
    · obtain ⟨hheld, hthis⟩ := h s List.mem_cons_self
      refine ⟨fun x hx => ?_, fun k hk => ?_⟩
      · rcases Bool.or_eq_true_iff.mp hx with hx | hx
        · exact hheld x hx
        · rw [hsite s rfl]
          exact hnames x (List.contains_iff_mem.mp hx)
      · exact Bool.or_eq_true_iff.mpr (.inl (hthis k hk))
    · exact h s' (List.mem_cons_of_mem s hs')

theorem Outline.Proper.tail (h : o.Proper ds) : Outline.Proper ds o.tail :=
  fun s hs => h s (List.mem_of_mem_tail hs)

/-- A scope without names, not around methods. -/
theorem Outline.Proper.cons (h : o.Proper ds) (hsite : ∀ k, site ≠ .receiver k) :
    Outline.Proper ds ((site, fun _ => false) :: o) := by
  intro s hs
  rcases List.mem_cons.mp hs with rfl | hs
  · exact ⟨fun x hx => absurd hx Bool.false_ne_true, fun k hk => absurd hk (hsite k)⟩
  · exact h s hs

namespace Analysis

theorem visits_faultIf (a : Analysis) (condition : Bool) (cause : ScopeCause) (token : Token) :
    (a.faultIf condition cause token).visits = a.visits := by
  unfold faultIf
  split <;> rfl

theorem visits_declare (a : Analysis) (name : Token) : (a.declare name).visits = a.visits := by
  unfold declare
  split
  · rfl
  · exact visits_faultIf a _ _ _

theorem visits_update (a : Analysis) (name : Token) (f : Local → Local) :
    (a.update name f).visits = a.visits := by
  unfold update
  split
  · rfl
  · split <;> rfl

theorem visits_declareParams (params : List Token) (a : Analysis) :
    (params.foldl declareParam a).visits = a.visits := by
  induction params generalizing a with
  | nil => rfl
  | cons name params ih => rw [List.foldl_cons, ih, declareParam, visits_update, visits_declare]

theorem visits_closeScope (a : Analysis) : a.closeScope.visits = a.visits := by
  unfold closeScope
  split <;> rfl

end Analysis

namespace Analysis.Proper

/-- A step that visits nothing. -/
theorem quiet (h : a.Proper ds) (hb : b.outline.Proper ds)
    (hvisits : b.visits = a.visits) : b.Proper ds :=
  ⟨hb, by rw [hvisits]; exact h.visits⟩

theorem faultIf (h : a.Proper ds) (condition : Bool) (cause : ScopeCause) (token : Token) :
    (a.faultIf condition cause token).Proper ds :=
  h.quiet (by rw [outline_faultIf]; exact h.scopes) (visits_faultIf a _ _ _)

theorem declare (h : a.Proper ds) (hsite : a.outline.In site) {name : Token}
    (hname : DeclaredAt ds site name.lexeme) : (a.declare name).Proper ds := by
  refine h.quiet ?_ (visits_declare a name)
  rw [outline_declare]
  refine h.scopes.declare hsite fun x hx => ?_
  rw [List.mem_singleton.mp hx]
  exact hname

theorem define (h : a.Proper ds) (name : Token) : (a.define name).Proper ds :=
  h.quiet (by rw [outline_define]; exact h.scopes) (visits_update a name _)

theorem refer (h : a.Proper ds) (name : Token) (f : Local → Local) :
    (a.refer name f).Proper ds := by
  have hvisits : (a.refer name f).visits = a.visits.push ⟨name, a.scopes⟩ := by
    unfold Analysis.refer
    dsimp only
    split <;> rfl
  refine ⟨by rw [outline_refer]; exact h.scopes, fun v hv => ?_⟩
  rw [hvisits, Array.toList_push] at hv
  rcases List.mem_append.mp hv with hv | hv
  · exact h.visits v hv
  · rw [List.mem_singleton.mp hv]
    exact h.scopes

theorem read (h : a.Proper ds) (name : Token) : (a.read name).Proper ds :=
  (h.faultIf _ _ _).refer name _

theorem this (h : a.Proper ds) (keyword : Token) : (a.this keyword).Proper ds := by
  unfold Analysis.this
  split
  · exact ⟨h.scopes, h.visits⟩
  · exact ⟨h.scopes, h.visits⟩
  · exact h.refer keyword _

theorem openScope (h : a.Proper ds) (hsite : ∀ k, site ≠ .receiver k) :
    (a.openScope site .empty).Proper ds :=
  ⟨h.scopes.cons hsite, h.visits⟩

theorem closeScope (h : a.Proper ds) : a.closeScope.Proper ds :=
  h.quiet (by rw [outline_closeScope]; exact h.scopes.tail) (visits_closeScope a)

theorem enterFunction (h : a.Proper ds) (hsite : ∀ k, site ≠ .receiver k)
    {params : List Token} (hparams : ∀ t ∈ params, DeclaredAt ds site t.lexeme) :
    (a.enterFunction site params).Proper ds := by
  refine h.quiet ?_ (visits_declareParams params _)
  rw [outline_enterFunction]
  refine (h.scopes.cons hsite).declare (.cons _ _ _) fun x hx => ?_
  obtain ⟨t, ht, rfl⟩ := List.mem_map.mp hx
  exact hparams t ht

theorem leaveFunction (h : a.Proper ds) (outer : Analysis) :
    (a.leaveFunction outer).Proper ds := ⟨h.closeScope.scopes, h.closeScope.visits⟩

theorem leaveClass (h : a.Proper ds) (outer : Analysis) :
    (a.leaveClass outer).Proper ds := ⟨h.closeScope.scopes, h.closeScope.visits⟩

theorem declareClass (h : a.Proper ds) (hsite : a.outline.In site) {name : Token}
    (hname : DeclaredAt ds site name.lexeme) (superclass : Option Token) :
    (a.declareClass name superclass).Proper ds := by
  cases superclass with
  | none => exact (h.declare hsite hname).define name
  | some t => exact (((h.declare hsite hname).define name).faultIf _ _ _).read t

theorem enterMethods (h : a.Proper ds) (name : Token) :
    (a.enterMethods name).Proper ds := by
  refine ⟨?_, h.visits⟩
  rw [outline_enterMethods]
  intro s hs
  rcases List.mem_cons.mp hs with rfl | hs
  · exact ⟨fun x hx => of_decide_eq_true hx ▸ .inr (.inl ⟨_, rfl, rfl⟩), fun _ _ => rfl⟩
  · exact h.scopes s hs

end Analysis.Proper

/-- The walk is in a function once it has been entered. -/
theorem Analysis.in_enterFunction (a : Analysis) (site : Site) (params : List Token) :
    (a.enterFunction site params).outline.In site := by
  rw [outline_enterFunction]
  exact Outline.In.declare (.cons _ _ _) _

mutual

theorem proper_analyzeExpr : ∀ (e : Expr) {a : Analysis}, a.Proper ds →
    e.declarations ⊆ ds → (analyzeExpr e a).Proper ds
  | .literal _, _, h, _ => h
  | .grouping e, _, h, hd => proper_analyzeExpr e h hd
  | .unary _ e, _, h, hd => proper_analyzeExpr e h hd
  | .binary l _ r, _, h, hd => by
      rw [Expr.declarations, List.append_subset] at hd
      exact proper_analyzeExpr r (proper_analyzeExpr l h hd.1) hd.2
  | .logical l _ r, _, h, hd => by
      rw [Expr.declarations, List.append_subset] at hd
      exact proper_analyzeExpr r (proper_analyzeExpr l h hd.1) hd.2
  | .conditional c t e, _, h, hd => by
      simp only [Expr.declarations, List.append_subset] at hd
      exact proper_analyzeExpr e (proper_analyzeExpr t (proper_analyzeExpr c h hd.1) hd.2.1) hd.2.2
  | .assign name e, _, h, hd => (proper_analyzeExpr e h hd).refer name _
  | .variable name, _, h, _ => h.read name
  | .call callee _ arguments, _, h, hd => by
      rw [Expr.declarations, List.append_subset] at hd
      exact proper_analyzeExprs arguments (proper_analyzeExpr callee h hd.1) hd.2
  | .get e _, _, h, hd => proper_analyzeExpr e h hd
  | .set e _ v, _, h, hd => by
      rw [Expr.declarations, List.append_subset] at hd
      exact proper_analyzeExpr e (proper_analyzeExpr v h hd.2) hd.1
  | .this keyword, _, h, _ => h.this keyword
  | .lambda keyword params body, a, h, hd => by
      rw [Expr.declarations, List.append_subset] at hd
      exact (proper_analyzeStmts body (h.enterFunction (by simp) (declaredAt_params hd.1))
        (a.in_enterFunction _ params) hd.2).leaveFunction a

theorem proper_analyzeExprs : ∀ (es : List Expr) {a : Analysis}, a.Proper ds →
    exprsDeclarations es ⊆ ds → (analyzeExprs es a).Proper ds
  | [], _, h, _ => h
  | e :: es, _, h, hd => by
      rw [exprsDeclarations, List.append_subset] at hd
      exact proper_analyzeExprs es (proper_analyzeExpr e h hd.1) hd.2

theorem proper_analyzeStmt : ∀ (s : Stmt) {a : Analysis} {site : Site}, a.Proper ds →
    a.outline.In site → s.declarations site ⊆ ds →
    (analyzeStmt s a).Proper ds
  | .expression e, _, _, h, _, hd => proper_analyzeExpr e h hd
  | .print e, _, _, h, _, hd => proper_analyzeExpr e h hd
  | .var name none, _, _, h, hs, hd =>
      (h.declare hs (.of_mem (hd List.mem_cons_self))).define name
  | .var name (some e), _, _, h, hs, hd => by
      rw [Stmt.declarations, List.cons_subset] at hd
      exact (proper_analyzeExpr e (h.declare hs (.of_mem hd.1)) hd.2).define name
  | .block position body, _, _, h, _, hd =>
      (proper_analyzeStmts body (h.openScope (by simp)) (.cons _ _ _)
        hd).closeScope
  | .ifElse c t none, _, _, h, hs, hd => by
      rw [Stmt.declarations, List.append_subset] at hd
      exact proper_analyzeStmt t (proper_analyzeExpr c h hd.1)
        (by rw [outline_analyzeExpr]; exact hs) hd.2
  | .ifElse c t (some e), _, _, h, hs, hd => by
      simp only [Stmt.declarations, List.append_subset] at hd
      have ht := proper_analyzeStmt t (proper_analyzeExpr c h hd.1)
        (by rw [outline_analyzeExpr]; exact hs) hd.2.1
      refine proper_analyzeStmt e ht ?_ hd.2.2
      rw [outline_analyzeStmt, outline_analyzeExpr]
      exact hs.declare _
  | .while c body none, _, _, h, hs, hd => by
      rw [Stmt.declarations, List.append_subset] at hd
      have hc := proper_analyzeExpr c h hd.1
      have hbody := proper_analyzeStmt body (a := (analyzeExpr c _).enterLoop)
        ⟨hc.scopes, hc.visits⟩ (by rw [Analysis.outline_enterLoop, outline_analyzeExpr]; exact hs)
        hd.2
      exact ⟨hbody.scopes, hbody.visits⟩
  | .while c body (some i), _, _, h, hs, hd => by
      simp only [Stmt.declarations, List.append_subset] at hd
      have hc := proper_analyzeExpr c h hd.1
      have hbody := proper_analyzeStmt body (a := (analyzeExpr c _).enterLoop)
        ⟨hc.scopes, hc.visits⟩ (by rw [Analysis.outline_enterLoop, outline_analyzeExpr]; exact hs)
        hd.2.1
      have hi := proper_analyzeExpr i hbody hd.2.2
      exact ⟨hi.scopes, hi.visits⟩
  | .break _, _, _, h, _, _ => h.faultIf _ _ _
  | .continue _, _, _, h, _, _ => h.faultIf _ _ _
  | .function f, _, _, h, hs, hd => by
      rw [Stmt.declarations, List.cons_subset] at hd
      exact proper_analyzeFunction f ((h.declare hs (.of_mem hd.1)).define f.name) hd.2
  | .return _ none, _, _, h, _, _ => h.faultIf _ _ _
  | .return _ (some e), _, _, h, _, hd => proper_analyzeExpr e (h.faultIf _ _ _) hd
  | .classDecl name superclass methods statics, a, _, h, hs, hd => by
      simp only [Stmt.declarations, List.cons_subset, List.append_subset] at hd
      have hname := h.declareClass hs (.of_mem hd.1) superclass
      have hstatics := proper_analyzeFunctions statics
        (a := (a.declareClass name superclass).enterStatics) ⟨hname.scopes, hname.visits⟩ hd.2.1
      exact (proper_analyzeFunctions methods (hstatics.enterMethods name) hd.2.2).leaveClass a

theorem proper_analyzeStmts : ∀ (ss : List Stmt) {a : Analysis} {site : Site}, a.Proper ds →
    a.outline.In site → stmtsDeclarations ss site ⊆ ds →
    (analyzeStmts ss a).Proper ds
  | [], _, _, h, _, _ => h
  | s :: ss, _, _, h, hs, hd => by
      rw [stmtsDeclarations, List.append_subset] at hd
      refine proper_analyzeStmts ss (proper_analyzeStmt s h hs hd.1) ?_ hd.2
      rw [outline_analyzeStmt]
      exact hs.declare _

theorem proper_analyzeFunction : ∀ (f : FunctionDecl) {a : Analysis}, a.Proper ds →
    f.declarations ⊆ ds → (analyzeFunction f a).Proper ds
  | .mk name params body, a, h, hd => by
      rw [FunctionDecl.declarations, List.append_subset] at hd
      exact (proper_analyzeStmts body (h.enterFunction (by simp) (declaredAt_params hd.1))
        (a.in_enterFunction _ params) hd.2).leaveFunction a

theorem proper_analyzeFunctions : ∀ (fs : List FunctionDecl) {a : Analysis}, a.Proper ds →
    functionsDeclarations fs ⊆ ds → (analyzeFunctions fs a).Proper ds
  | [], _, h, _ => h
  | f :: fs, _, h, hd => by
      rw [functionsDeclarations, List.append_subset] at hd
      exact proper_analyzeFunctions fs (proper_analyzeFunction f h hd.1) hd.2

end

/-- When a name of a program is visited, scopes hold what their constructs may declare. -/
theorem Analysis.proper_ofProgram {program : Program} (known : Distances)
    (h : program.declarations ⊆ ds) :
    (Analysis.ofProgram program known).Proper ds :=
  proper_analyzeStmts program
    ⟨fun _ hs => absurd hs List.not_mem_nil, fun _ hv => absurd hv List.not_mem_nil⟩
    (fun _ hs => nomatch hs) h

end Proper

end LoxLang
