import LoxLang.Proofs.Scope.Settled
import Mathlib.Data.List.Nodup

/-!
# A scope declares a name once

If the analysis finds no fault, then no scope declares a name twice: what is declared again
is a fault, except outside of all scopes.  Constructs are told apart by their positions, so a
construct and a name determine the declaration.

## Main definitions

* `Declaration.binding` — what a declaration binds.
* `Outline.Fresh` — names that the innermost scope has not declared.

## Main results

* `Stmt.fresh` — what a statement declares is new to its scope.
* `Program.declaration_unique` — a construct and a name determine the declaration.
-/

namespace LoxLang

/-- What a declaration binds. -/
def Declaration.binding (d : Declaration) : Binding := (d.site, d.name.lexeme)

/-- The names that statements declare in the scope they stand in. -/
def stmtsDeclared (ss : List Stmt) : List String := ss.flatMap Stmt.declared

/-! ### What is declared is new -/

/-- The innermost scope, if there is one, has declared none of some different names. -/
def Outline.Fresh (names : List String) (o : Outline) : Prop :=
  ∀ s ∈ o.head?, names.Nodup ∧ ∀ x ∈ names, s.2 x = false

section Fresh

variable {o : Outline} {a : Analysis} {vs : List Visit} {names names' : List String}

theorem Outline.Fresh.nil (o : Outline) : o.Fresh [] :=
  fun _ _ => ⟨List.nodup_nil, fun _ hx => absurd hx List.not_mem_nil⟩

/-- Names that are declared one after the other. -/
theorem Outline.Fresh.append (h : o.Fresh names) (h' : (o.declare names).Fresh names') :
    o.Fresh (names ++ names') := by
  cases o with
  | nil => exact fun _ hs => nomatch hs
  | cons s rest =>
    intro s' hs'
    cases hs'
    obtain ⟨hnodup, hnew⟩ := h s rfl
    obtain ⟨hnodup', hnew'⟩ := h' _ rfl
    simp only [Bool.or_eq_false_iff] at hnew'
    refine ⟨List.nodup_append.mpr ⟨hnodup, hnodup', fun x hx y hy heq => ?_⟩, fun x hx => ?_⟩
    · have hnot := (hnew' y hy).2
      rw [← heq, List.contains_iff_mem.mpr hx] at hnot
      cases hnot
    · rcases List.mem_append.mp hx with hx | hx
      · exact hnew x hx
      · exact (hnew' x hx).1

/-- A name that is declared again is a fault. -/
theorem Analysis.Accepted.fresh {name : Token} (h : (a.declare name).Accepted vs) :
    a.outline.Fresh [name.lexeme] := by
  intro s hs
  refine ⟨List.nodup_singleton _, fun x hx => ?_⟩
  rw [List.mem_singleton.mp hx]
  have hclean := h.clean
  unfold Analysis.declare at hclean
  unfold Analysis.outline LoxLang.outline at hs
  split at hclean
  · next hscopes =>
    rw [hscopes] at hs
    cases hs
  · next s' ss hscopes =>
    rw [hscopes] at hs
    cases hs
    exact eq_false_of_clean_faultIf (a := a) fun f hf => hclean f hf

theorem Analysis.Accepted.fresh_params {params : List Token}
    (h : (params.foldl Analysis.declareParam a).Accepted vs) :
    a.outline.Fresh (params.map Token.lexeme) := by
  induction params generalizing a with
  | nil => exact .nil _
  | cons t params ih =>
    have hparam := (walked_declareParams params (a.declareParam t)).accepted h
    have hdeclare := (walked_update _ (declares_declare a t)).accepted hparam
    refine hdeclare.fresh.append ?_
    have hrest := ih h
    rwa [Analysis.declareParam, Analysis.outline_update, Analysis.outline_declare] at hrest

theorem Analysis.Accepted.fresh_class {name : Token} {superclass : Option Token}
    (h : (a.declareClass name superclass).Accepted vs) : a.outline.Fresh [name.lexeme] := by
  cases superclass with
  | none => exact (define h).fresh
  | some t =>
    have hread : ((((a.declare name).define name).faultIf (t.lexeme == name.lexeme)
      .inheritsItself t).read t).Accepted vs := h
    have hfault := (walked_read (Analysis.at_place _)).accepted hread
    exact ((walked_faultIf _ _ _ _).accepted hfault).define.fresh

/-- What a statement declares is new to the scope it stands in. -/
theorem Stmt.fresh : ∀ (s : Stmt) {a : Analysis}, (analyzeStmt s a).Accepted vs →
    a.outline.Fresh s.declared
  | .expression _, _, _ => .nil _
  | .print _, _, _ => .nil _
  | .var _ none, _, h => h.define.fresh
  | .var _ (some e), a, h =>
      ((walked_expr e (Analysis.at_place _)).accepted h.define).fresh
  | .block _ _, _, _ => .nil _
  | .ifElse c t none, a, h => by
      have ht := t.fresh h
      rwa [outline_analyzeExpr] at ht
  | .ifElse c t (some e), a, h => by
      have ht := t.fresh ((walked_stmt e (Analysis.at_place _)).accepted h)
      have he := e.fresh h
      rw [outline_analyzeExpr] at ht
      rw [outline_analyzeStmt, outline_analyzeExpr] at he
      exact ht.append he
  | .while c body none, a, h => by
      have hbody := body.fresh (h.of_eq (a := analyzeStmt body (analyzeExpr c a).enterLoop) rfl rfl)
      rwa [Analysis.outline_enterLoop, outline_analyzeExpr] at hbody
  | .while c body (some i), a, h => by
      have hi := h.of_eq
        (a := analyzeExpr i (analyzeStmt body (analyzeExpr c a).enterLoop)) rfl rfl
      have hbody := body.fresh ((walked_expr i (Analysis.at_place _)).accepted hi)
      rwa [Analysis.outline_enterLoop, outline_analyzeExpr] at hbody
  | .break _, _, _ => .nil _
  | .continue _, _, _ => .nil _
  | .function f, a, h =>
      ((walked_function f (Analysis.at_place _)).accepted h).define.fresh
  | .return _ _, _, _ => .nil _
  | .classDecl name superclass methods statics, a, h => by
      have hmethods : (analyzeFunctions methods ((analyzeFunctions statics
          (a.declareClass name superclass).enterStatics).enterMethods name)).Accepted vs :=
        h.leaveClass
      have hstatics := ((walked_functions methods (Analysis.at_place _)).accepted hmethods).of_eq
        (a := analyzeFunctions statics (a.declareClass name superclass).enterStatics) rfl rfl
      have hclass := ((walked_functions statics (Analysis.at_place _)).accepted hstatics).of_eq
        (a := a.declareClass name superclass) rfl rfl
      exact hclass.fresh_class

theorem stmtsFresh (ss : List Stmt) {a : Analysis} (h : (analyzeStmts ss a).Accepted vs) :
    a.outline.Fresh (stmtsDeclared ss) := by
  induction ss generalizing a with
  | nil => exact .nil _
  | cons s ss ih =>
    have hs := s.fresh ((walked_stmts ss (Analysis.at_place _)).accepted h)
    have hss := ih h
    rw [outline_analyzeStmt] at hss
    exact hs.append hss

/-- A function declares each name once, among its parameters and in its body. -/
theorem nodup_function {site : Site} {params : List Token} {body : List Stmt}
    (h : (analyzeStmts body (a.enterFunction site params)).Accepted vs) :
    (params.map Token.lexeme ++ stmtsDeclared body).Nodup := by
  have hparams := ((walked_stmts body (Analysis.at_place _)).accepted h).fresh_params
  have hbody := stmtsFresh body h
  rw [Analysis.outline_enterFunction] at hbody
  exact (hparams.append hbody _ rfl).1

theorem nodup_block {site : Site} {body : List Stmt}
    (h : (analyzeStmts body (a.openScope site .empty)).Accepted vs) :
    (stmtsDeclared body).Nodup := (stmtsFresh body h _ rfl).1

end Fresh

/-! ### How often a name is declared -/

/-- How often a name is declared in the scopes of a construct. -/
def declarationCount (b : Binding) (ds : List Declaration) : Nat :=
  ds.countP fun d => d.binding = b

/-- How often a construct opens a scope. -/
def openingCount (site : Site) (os : List Occurrence) : Nat :=
  os.countP fun o => o.item = .opens site

/-- How often a name is declared by names that stand in the scope of a construct. -/
def directCount (b : Binding) (site : Site) (names : List String) : Nat :=
  if site = b.1 then names.count b.2 else 0

section Count

variable {b : Binding} {vs : List Visit}

theorem declarationCount_append (ds ds' : List Declaration) :
    declarationCount b (ds ++ ds') = declarationCount b ds + declarationCount b ds' :=
  List.countP_append

theorem declarationCount_cons (d : Declaration) (ds : List Declaration) :
    declarationCount b (d :: ds)
      = directCount b d.site [d.name.lexeme] + declarationCount b ds := by
  obtain ⟨site, x⟩ := b
  simp only [declarationCount, directCount, List.countP_cons, List.count_cons, List.count_nil,
    Declaration.binding, Prod.mk.injEq, decide_eq_true_eq, beq_iff_eq]
  by_cases hsite : d.site = site <;> simp [hsite, Nat.add_comm]

theorem openingCount_append (site : Site) (os os' : List Occurrence) :
    openingCount site (os ++ os') = openingCount site os + openingCount site os' :=
  List.countP_append

theorem openingCount_le_cons (site : Site) (o : Occurrence) (os : List Occurrence) :
    openingCount site os ≤ openingCount site (o :: os) :=
  (List.sublist_cons_self o os).countP_le

theorem directCount_append (site : Site) (names names' : List String) :
    directCount b site (names ++ names')
      = directCount b site names + directCount b site names' := by
  unfold directCount
  split
  · exact List.count_append
  · rfl

theorem declarationCount_params (site : Site) (params : List Token) :
    declarationCount b (params.map fun t => ⟨site, t, none, .parameter⟩)
      = directCount b site (params.map Token.lexeme) := by
  induction params with
  | nil => simp [declarationCount, directCount]
  | cons t params ih =>
    rw [List.map_cons, List.map_cons, declarationCount_cons, ih, ← directCount_append]
    rfl

/-- A scope that is opened declares a name once at most. -/
theorem directCount_le {site : Site} {names : List String} (h : names.Nodup) (p : Place)
    (os : List Occurrence) :
    directCount b site names + openingCount b.1 os
      ≤ openingCount b.1 (⟨p, .opens site⟩ :: os) := by
  have hcount : names.count b.2 ≤ 1 := List.nodup_iff_count_le_one.mp h b.2
  unfold directCount openingCount
  rw [List.countP_cons]
  by_cases hsite : site = b.1
  · simp only [hsite, if_true, decide_true]
    omega
  · simp [hsite]

mutual

/-- A name is declared in a construct at most as often as the construct opens a scope. -/
theorem Expr.declarationCount_le : ∀ (e : Expr) (p : Place) {a : Analysis},
    (analyzeExpr e a).Accepted vs →
    declarationCount b e.declarations ≤ openingCount b.1 (e.occurrences p)
  | .literal _, _, _, _ => Nat.le_refl 0
  | .grouping e, p, _, h => e.declarationCount_le p h
  | .unary _ e, p, _, h =>
      Nat.le_trans (e.declarationCount_le p h) (openingCount_le_cons _ _ _)
  | .binary l _ r, p, a, h => by
      have hl := l.declarationCount_le p ((walked_expr r (Analysis.at_place _)).accepted h)
      have hr := r.declarationCount_le p h
      refine Nat.le_trans ?_ (openingCount_le_cons _ _ _)
      rw [Expr.declarations, declarationCount_append, openingCount_append]
      exact Nat.add_le_add hl hr
  | .logical l _ r, p, a, h => by
      have hl := l.declarationCount_le p ((walked_expr r (Analysis.at_place _)).accepted h)
      have hr := r.declarationCount_le p h
      rw [Expr.declarations, declarationCount_append, Expr.occurrences, openingCount_append]
      exact Nat.add_le_add hl hr
  | .conditional c t e, p, a, h => by
      have ht' := (walked_expr e (Analysis.at_place _)).accepted h
      have hc := c.declarationCount_le p ((walked_expr t (Analysis.at_place _)).accepted ht')
      have ht := t.declarationCount_le p ht'
      have he := e.declarationCount_le p h
      simp only [Expr.declarations, declarationCount_append, Expr.occurrences,
        openingCount_append]
      omega
  | .assign _ e, p, a, h => by
      have he := e.declarationCount_le p ((walked_refer _ (Analysis.at_place _)).accepted h)
      rw [Expr.declarations, Expr.occurrences, openingCount_append]
      omega
  | .variable _, _, _, _ => Nat.zero_le _
  | .call callee _ arguments, p, a, h => by
      have hf := callee.declarationCount_le p
        ((walked_exprs arguments (Analysis.at_place _)).accepted h)
      have hes := exprsDeclarationCount_le arguments p h
      refine Nat.le_trans ?_ (openingCount_le_cons _ _ _)
      rw [Expr.declarations, declarationCount_append, openingCount_append]
      exact Nat.add_le_add hf hes
  | .get e _, p, _, h =>
      Nat.le_trans (e.declarationCount_le p h) (openingCount_le_cons _ _ _)
  | .set e _ v, p, a, h => by
      have hv := v.declarationCount_le p ((walked_expr e (Analysis.at_place _)).accepted h)
      have he := e.declarationCount_le p h
      refine Nat.le_trans ?_ (openingCount_le_cons _ _ _)
      rw [Expr.declarations, declarationCount_append, openingCount_append]
      omega
  | .this _, _, _, _ => Nat.zero_le _
  | .lambda keyword params body, p, a, h => by
      have hbody := stmtsDeclarationCount_le body (.function keyword.position)
        (p.enter (.function keyword.position)) h.leaveFunction
      -- the parameters and the body declare in one scope
      refine Nat.le_trans ?_ (directCount_le (nodup_function h.leaveFunction) p _)
      rw [Expr.declarations, declarationCount_append, declarationCount_params,
        directCount_append]
      omega

theorem exprsDeclarationCount_le : ∀ (es : List Expr) (p : Place) {a : Analysis},
    (analyzeExprs es a).Accepted vs →
    declarationCount b (exprsDeclarations es) ≤ openingCount b.1 (exprsOccurrences es p)
  | [], _, _, _ => Nat.le_refl 0
  | e :: es, p, a, h => by
      have he := e.declarationCount_le p ((walked_exprs es (Analysis.at_place _)).accepted h)
      have hes := exprsDeclarationCount_le es p h
      rw [exprsDeclarations, declarationCount_append, exprsOccurrences, openingCount_append]
      exact Nat.add_le_add he hes

/-- Likewise for a statement, but for what it declares in the scope it stands in. -/
theorem Stmt.declarationCount_le : ∀ (s : Stmt) (site : Site) (p : Place) {a : Analysis},
    (analyzeStmt s a).Accepted vs →
    declarationCount b (s.declarations site)
      ≤ directCount b site s.declared + openingCount b.1 (s.occurrences p)
  | .expression e, _, p, _, h => Nat.le_trans (e.declarationCount_le p h) (Nat.le_add_left _ _)
  | .print e, _, p, _, h => Nat.le_trans (e.declarationCount_le p h) (Nat.le_add_left _ _)
  | .var _ none, _, _, _, _ => Nat.le_of_eq (declarationCount_cons _ _)
  | .var _ (some e), _, p, _, h => by
      rw [Stmt.declarations, declarationCount_cons]
      exact Nat.add_le_add_left (e.declarationCount_le p h.define) _
  | .block position body, _, p, _, h => by
      have hbody := stmtsDeclarationCount_le body (.block position)
        (p.scope (.block position)) h.closeScope
      refine Nat.le_trans hbody (Nat.le_trans ?_ (Nat.le_add_left _ _))
      exact directCount_le (nodup_block h.closeScope) p _
  | .ifElse c t none, site, p, a, h => by
      have hc := c.declarationCount_le p ((walked_stmt t (Analysis.at_place _)).accepted h)
      have ht := t.declarationCount_le site p h
      rw [Stmt.declarations, declarationCount_append, Stmt.occurrences, openingCount_append,
        Stmt.declared]
      omega
  | .ifElse c t (some e), site, p, a, h => by
      have ht' := (walked_stmt e (Analysis.at_place _)).accepted h
      have hc := c.declarationCount_le p ((walked_stmt t (Analysis.at_place _)).accepted ht')
      have ht := t.declarationCount_le site p ht'
      have he := e.declarationCount_le site p h
      simp only [Stmt.declarations, declarationCount_append, Stmt.occurrences,
        openingCount_append, Stmt.declared, directCount_append]
      omega
  | .while c body none, site, p, a, h => by
      have hbody' := h.of_eq (a := analyzeStmt body (analyzeExpr c a).enterLoop) rfl rfl
      have hc' := (walked_stmt body (Analysis.at_place _)).accepted hbody'
      have hc := c.declarationCount_le p (hc'.of_eq (a := analyzeExpr c a) rfl rfl)
      have hbody := body.declarationCount_le site p.loop hbody'
      rw [Stmt.declarations, declarationCount_append, Stmt.occurrences, openingCount_append,
        Stmt.declared]
      omega
  | .while c body (some i), site, p, a, h => by
      have hi' := h.of_eq
        (a := analyzeExpr i (analyzeStmt body (analyzeExpr c a).enterLoop)) rfl rfl
      have hbody' := (walked_expr i (Analysis.at_place _)).accepted hi'
      have hc' := (walked_stmt body (Analysis.at_place _)).accepted hbody'
      have hc := c.declarationCount_le p (hc'.of_eq (a := analyzeExpr c a) rfl rfl)
      have hbody := body.declarationCount_le site p.loop hbody'
      have hi := i.declarationCount_le p.loop hi'
      simp only [Stmt.declarations, declarationCount_append, Stmt.occurrences,
        openingCount_append, Stmt.declared]
      omega
  | .break _, _, _, _, _ => Nat.zero_le _
  | .continue _, _, _, _, _ => Nat.zero_le _
  | .function f, _, p, _, h => by
      rw [Stmt.declarations, declarationCount_cons]
      exact Nat.add_le_add_left (f.declarationCount_le p h) _
  | .return _ none, _, _, _, _ => Nat.zero_le _
  | .return _ (some e), _, p, _, h =>
      Nat.le_trans (Nat.le_trans (e.declarationCount_le p h) (openingCount_le_cons _ _ _))
        (Nat.le_add_left _ _)
  | .classDecl name superclass methods statics, site, p, a, h => by
      have hmethods' : (analyzeFunctions methods ((analyzeFunctions statics
          (a.declareClass name superclass).enterStatics).enterMethods name)).Accepted vs :=
        h.leaveClass
      have hstatics' := ((walked_functions methods (Analysis.at_place _)).accepted
        hmethods').of_eq
          (a := analyzeFunctions statics (a.declareClass name superclass).enterStatics) rfl rfl
      have hstatics := functionsDeclarationCount_le statics p hstatics'
      have hmethods := functionsDeclarationCount_le methods
        (p.scope (.receiver name.position)) hmethods'
      have hopens := openingCount_le_cons b.1 ⟨p, .opens (.receiver name.position)⟩
        (superclass.toList.map (fun s => ⟨p, .name s⟩)
          ++ (functionsOccurrences statics p
            ++ functionsOccurrences methods (p.scope (.receiver name.position))))
      rw [openingCount_append, openingCount_append] at hopens
      rw [Stmt.declarations, declarationCount_cons, declarationCount_append, Stmt.occurrences,
        Stmt.declared]
      dsimp only
      omega

theorem stmtsDeclarationCount_le : ∀ (ss : List Stmt) (site : Site) (p : Place) {a : Analysis},
    (analyzeStmts ss a).Accepted vs →
    declarationCount b (stmtsDeclarations ss site)
      ≤ directCount b site (stmtsDeclared ss) + openingCount b.1 (stmtsOccurrences ss p)
  | [], _, _, _, _ => Nat.zero_le _
  | s :: ss, site, p, a, h => by
      have hs := s.declarationCount_le site p
        ((walked_stmts ss (Analysis.at_place _)).accepted h)
      have hss := stmtsDeclarationCount_le ss site p h
      rw [stmtsDeclarations, declarationCount_append, stmtsOccurrences, openingCount_append,
        stmtsDeclared, List.flatMap_cons, directCount_append]
      rw [stmtsDeclared] at hss
      omega

theorem FunctionDecl.declarationCount_le : ∀ (f : FunctionDecl) (p : Place) {a : Analysis},
    (analyzeFunction f a).Accepted vs →
    declarationCount b f.declarations ≤ openingCount b.1 (f.occurrences p)
  | .mk name params body, p, a, h => by
      have hbody := stmtsDeclarationCount_le body (.function name.position)
        (p.enter (.function name.position)) h.leaveFunction
      refine Nat.le_trans ?_ (directCount_le (nodup_function h.leaveFunction) p _)
      rw [FunctionDecl.declarations, declarationCount_append, declarationCount_params,
        directCount_append]
      omega

theorem functionsDeclarationCount_le : ∀ (fs : List FunctionDecl) (p : Place) {a : Analysis},
    (analyzeFunctions fs a).Accepted vs →
    declarationCount b (functionsDeclarations fs) ≤ openingCount b.1 (functionsOccurrences fs p)
  | [], _, _, _ => Nat.le_refl 0
  | f :: fs, p, a, h => by
      have hf := f.declarationCount_le p ((walked_functions fs (Analysis.at_place _)).accepted h)
      have hfs := functionsDeclarationCount_le fs p h
      rw [functionsDeclarations, declarationCount_append, functionsOccurrences,
        openingCount_append]
      exact Nat.add_le_add hf hfs

end

end Count

/-! ### Declarations are determined by what they bind -/

/-- At most one element of a list has a property. -/
theorem eq_of_countP_le_one {α : Type} {p : α → Bool} {xs : List α} (h : xs.countP p ≤ 1)
    {x y : α} (hx : x ∈ xs) (hy : y ∈ xs) (hpx : p x) (hpy : p y) : x = y := by
  rw [List.countP_eq_length_filter] at h
  have hx' := List.mem_filter.mpr ⟨hx, hpx⟩
  have hy' := List.mem_filter.mpr ⟨hy, hpy⟩
  match hfilter : xs.filter p, h with
  | [], _ => simp [hfilter] at hx'
  | [z], _ =>
    rw [hfilter, List.mem_singleton] at hx' hy'
    rw [hx', hy']

/-- In a program without fault, a construct and a name determine the declaration. -/
theorem Program.declaration_unique {program : Program} {known : Distances}
    (hclean : (Analysis.ofProgram program known).Clean)
    (hpositions : (program.occurrences.map fun o => o.item.position).Nodup) {d d' : Declaration}
    (hd : d ∈ program.declarations) (hd' : d' ∈ program.declarations)
    (hglobals : d.site ≠ .globals) (hbinding : d'.binding = d.binding) : d' = d := by
  have hcount : declarationCount d.binding program.declarations
      ≤ openingCount d.site program.occurrences := by
    have hle := stmtsDeclarationCount_le (b := d.binding) program .globals .top
      (⟨List.Subset.refl _, hclean⟩ : (Analysis.ofProgram program known).Accepted _)
    have hdirect : directCount d.binding .globals (stmtsDeclared program) = 0 :=
      if_neg (Ne.symm hglobals)
    rwa [hdirect, Nat.zero_add] at hle
  -- a construct opens a single scope, as its position is used once
  have hopening : openingCount d.site program.occurrences ≤ 1 := by
    have hmap : openingCount d.site program.occurrences
        ≤ (program.occurrences.map fun o => o.item.position).count d.site.position := by
      rw [openingCount, List.count, List.countP_map]
      refine List.countP_mono_left fun o _ ho => ?_
      simp only [decide_eq_true_eq] at ho
      simp [ho, Item.position]
    exact Nat.le_trans hmap (List.nodup_iff_count_le_one.mp hpositions _)
  exact eq_of_countP_le_one (Nat.le_trans hcount hopening) hd' hd (decide_eq_true hbinding)
    (decide_eq_true rfl)

end LoxLang
