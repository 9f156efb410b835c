import LoxLang.Proofs.Program.Exposure
import LoxLang.Proofs.Scope.Settled

/-!
# Variables that are read in their own initializers

The analysis finds fault with a local variable that is read in its own initializer, if it has
not completed the declaration by then.  The end of the declaration completes it, but so does
the first assignment to the variable that the walk comes to, even if the program may pass this
assignment over when it runs.  So in a program without fault a variable is read in its own
initializer, outside of the functions that are made there, only behind an assignment to it.

## Main definitions

* `Declaration.AssignsItself` — a visit to an assignment to a variable in its initializer.
* `Declaration.AssignedBefore` — the analysis came to such an assignment before it came to a
  reading of the variable.
* `Declaration.initializerAccesses` — the names that an initializer uses.
* `Analysis.Initializes` — the declaration of a variable is complete only if the variable was
  assigned to.

## Main results

* `initializes_analyzeExpr`, `initializes_analyzeStmt` — what the walk over a part of an
  initializer preserves.
* `Program.assignedBefore` — all variables that are read in their own initializers are
  assigned to there before.
-/

namespace LoxLang

/-- A visit was to an assignment to a variable that stands in the initializer of the variable,
perhaps in a function. -/
def Declaration.AssignsItself (δ : Declaration) (w : Visit) : Prop :=
  w.site? = some δ.site ∧ δ.UsesItself (.write, w.name)

/-- Among visits, one to a reading of a variable in the innermost scope comes after one to an
assignment to the variable in its own initializer. -/
def Declaration.AssignedBefore (δ : Declaration) (t : Token) (vs : List Visit) : Prop :=
  ∃ w v, [w, v].Sublist vs ∧ δ.AssignsItself w
    ∧ v.name = t ∧ v.distance = some 0 ∧ v.site? = some δ.site

/-- The walk is in the initializer of a variable that is declared in one of the open scopes,
counted from within.  If the declaration is complete, the variable was assigned to. -/
def Analysis.Initializes (δ : Declaration) (n : Nat) (a : Analysis) : Prop :=
  ∃ s l, a.scopes[n]? = some s ∧ s.site = δ.site ∧ s.names.find? δ.name.lexeme = some l
    ∧ (l.defined = true → ∃ w ∈ a.visits.toList, δ.AssignsItself w)

/-! ### The steps of the walk -/

/-- Looking for a name changes what is known about it in the scope where it is found, and
nothing else. -/
theorem getElem?_of_touch {name : String} {f : Local → Local} {ss ss' : List Scope} {d : Nat}
    (h : Analysis.touch name f ss = some (d, ss')) :
    (∀ n, n ≠ d → ss'[n]? = ss[n]?) ∧ ∃ s l, ss[d]? = some s ∧ s.names.find? name = some l
      ∧ ss'[d]? = some { s with names := s.names.insert name (f l) } := by
  induction ss generalizing d ss' with
  | nil => cases h
  | cons s ss ih =>
    rw [Analysis.touch] at h
    split at h
    · next l hl =>
      cases h
      refine ⟨fun n hn => ?_, s, l, rfl, hl, rfl⟩
      cases n with
      | zero => exact absurd rfl hn
      | succ n => rfl
    · obtain ⟨⟨d', ss''⟩, htouch, heq⟩ := Option.map_eq_some_iff.mp h
      cases heq
      obtain ⟨hother, hfound⟩ := ih htouch
      refine ⟨fun n hn => ?_, hfound⟩
      cases n with
      | zero => rfl
      | succ n => exact hother n fun heq => hn (heq ▸ rfl)

namespace Analysis

variable {a b : Analysis} {δ : Declaration} {n : Nat}

theorem scopes_faultIf (a : Analysis) (condition : Bool) (cause : ScopeCause) (token : Token) :
    (a.faultIf condition cause token).scopes = a.scopes := by
  unfold faultIf
  split <;> rfl

theorem visits_refer (a : Analysis) (name : Token) (f : Local → Local) :
    (a.refer name f).visits = a.visits.push ⟨name, a.scopes⟩ := by
  unfold refer
  dsimp only
  split <;> rfl

/-- Declaring a name leaves the outer scopes as they are. -/
theorem getElem?_scopes_declare (a : Analysis) (name : Token) (n : Nat) :
    (a.declare name).scopes[n + 1]? = a.scopes[n + 1]? := by
  unfold declare
  split
  · rfl
  · next h => rw [h]; rfl

theorem getElem?_scopes_update (a : Analysis) (name : Token) (f : Local → Local) (n : Nat) :
    (a.update name f).scopes[n + 1]? = a.scopes[n + 1]? := by
  unfold update
  split
  · rfl
  · next h =>
    split
    · rw [h]; rfl
    · rfl

theorem getElem?_scopes_closeScope (a : Analysis) (n : Nat) :
    a.closeScope.scopes[n]? = a.scopes[n + 1]? := by
  unfold closeScope
  split
  · next h => rw [h]; rfl
  · next h => rw [h]; rfl

namespace Initializes

/-- A step that visits nothing and leaves the scope of the variable as it is. -/
theorem quiet (h : a.Initializes δ n) {k : Nat} (hscopes : b.scopes[k]? = a.scopes[n]?)
    (hvisits : b.visits = a.visits) : b.Initializes δ k := by
  obtain ⟨s, l, hs, hsite, hl, hassigned⟩ := h
  refine ⟨s, l, hscopes.trans hs, hsite, hl, ?_⟩
  rw [hvisits]
  exact hassigned

theorem faultIf (h : a.Initializes δ n) (condition : Bool) (cause : ScopeCause)
    (token : Token) : (a.faultIf condition cause token).Initializes δ n :=
  h.quiet (by rw [scopes_faultIf]) (visits_faultIf a _ _ _)

theorem declare (h : a.Initializes δ (n + 1)) (name : Token) :
    (a.declare name).Initializes δ (n + 1) :=
  h.quiet (a.getElem?_scopes_declare name n) (visits_declare a name)

theorem update (h : a.Initializes δ (n + 1)) (name : Token) (f : Local → Local) :
    (a.update name f).Initializes δ (n + 1) :=
  h.quiet (a.getElem?_scopes_update name f n) (visits_update a name f)

theorem openScope (h : a.Initializes δ n) (site : Site) (names : Table String Local) :
    (a.openScope site names).Initializes δ (n + 1) := h.quiet rfl rfl

theorem closeScope (h : a.Initializes δ (n + 1)) : a.closeScope.Initializes δ n :=
  h.quiet (a.getElem?_scopes_closeScope n) (visits_closeScope a)

theorem declareParams (h : a.Initializes δ (n + 1)) (params : List Token) :
    (params.foldl declareParam a).Initializes δ (n + 1) := by
  induction params generalizing a with
  | nil => exact h
  | cons name params ih => exact ih ((h.declare name).update name _)

theorem enterFunction (h : a.Initializes δ n) (site : Site) (params : List Token) :
    (a.enterFunction site params).Initializes δ (n + 1) := by
  refine declareParams ?_ params
  exact h.quiet rfl rfl

theorem leaveFunction (h : a.Initializes δ (n + 1)) (outer : Analysis) :
    (a.leaveFunction outer).Initializes δ n := h.closeScope.quiet rfl rfl

theorem leaveClass (h : a.Initializes δ (n + 1)) (outer : Analysis) :
    (a.leaveClass outer).Initializes δ n := h.closeScope.quiet rfl rfl

/-- A visit to a name may complete the declaration of the variable only if it is to an
assignment in the initializer. -/
theorem refer (h : a.Initializes δ n) {name : Token} {f : Local → Local}
    (hf : ∀ l, (f l).defined = true → l.defined = true
      ∨ (δ.name.lexeme = name.lexeme → δ.UsesItself (.write, name))) :
    (a.refer name f).Initializes δ n := by
  obtain ⟨s, l, hs, hsite, hl, hassigned⟩ := h
  have hkept : l.defined = true →
      ∃ w ∈ (a.refer name f).visits.toList, δ.AssignsItself w := by
    intro hdefined
    obtain ⟨w, hw, hassigns⟩ := hassigned hdefined
    rw [visits_refer, Array.toList_push]
    exact ⟨w, List.mem_append_left _ hw, hassigns⟩
  rcases touch_eq name.lexeme f a.scopes with ⟨htouch, -⟩ | ⟨d, ss, htouch, -, hidx⟩
  · have hscopes : (a.refer name f).scopes = a.scopes := by
      simp only [Analysis.refer, visit, htouch]
    exact ⟨s, l, by rw [hscopes]; exact hs, hsite, hl, hkept⟩
  have hscopes : (a.refer name f).scopes = ss := by
    simp only [Analysis.refer, visit, htouch]
  obtain ⟨hother, s', l', hs', hl', hchanged⟩ := getElem?_of_touch htouch
  by_cases hn : n = d
  · -- the name was found in the scope of the variable
    subst hn
    cases hs.symm.trans hs'
    rw [← hscopes] at hchanged
    by_cases hname : name.lexeme = δ.name.lexeme
    · rw [hname] at hl'
      cases hl.symm.trans hl'
      refine ⟨_, f l, hchanged, hsite, by rw [hname, Table.find?_insert_self], fun hdefined => ?_⟩
      rcases hf l hdefined with hdefined | huses
      · exact hkept hdefined
      · have hsite? : Visit.site? ⟨name, a.scopes⟩ = some δ.site := by
          rw [Visit.site?, Visit.distance, hidx, Option.bind_some, hs, Option.map_some, hsite]
        refine ⟨⟨name, a.scopes⟩, ?_, hsite?, huses hname.symm⟩
        rw [visits_refer, Array.toList_push]
        exact List.mem_append_right _ (List.mem_singleton_self _)
    · exact ⟨_, l, hchanged, hsite, by rw [Table.find?_insert_of_ne _ _ hname, hl], hkept⟩
  · exact ⟨s, l, by rw [hscopes, hother n hn]; exact hs, hsite, hl, hkept⟩

theorem use (h : a.Initializes δ n) (name : Token) : (a.use name).Initializes δ n :=
  h.refer fun _ hdefined => .inl hdefined

theorem read (h : a.Initializes δ n) (name : Token) : (a.read name).Initializes δ n :=
  (h.faultIf _ _ _).use name

theorem this (h : a.Initializes δ n) (keyword : Token) : (a.this keyword).Initializes δ n := by
  unfold Analysis.this
  split
  · exact h.quiet rfl rfl
  · exact h.quiet rfl rfl
  · exact h.use keyword

theorem declareClass (h : a.Initializes δ (n + 1)) (name : Token) (superclass : Option Token) :
    (a.declareClass name superclass).Initializes δ (n + 1) := by
  cases superclass with
  | none => exact (h.declare name).update name _
  | some t => exact (((h.declare name).update name _).faultIf _ _ _).read t

end Initializes

end Analysis

/-! ### The walk over an initializer -/

/-- The names that the initializer of a variable uses. -/
def Declaration.initializerAccesses (δ : Declaration) : List (Access × Token) :=
  δ.initializer.elim [] Expr.accesses

theorem Declaration.usesItself_of_mem {δ : Declaration} {u : Access × Token}
    (hname : δ.name.lexeme = u.2.lexeme) (hu : u ∈ δ.initializerAccesses) : δ.UsesItself u := by
  unfold initializerAccesses at hu
  cases hδ : δ.initializer with
  | none =>
    rw [hδ] at hu
    exact absurd hu List.not_mem_nil
  | some e =>
    rw [hδ] at hu
    exact ⟨hname, e, hδ, hu⟩

section Initializer

variable {δ : Declaration}

mutual

/-- The walk over a part of the initializer completes the declaration of the variable only
with an assignment. -/
theorem initializes_analyzeExpr : ∀ (e : Expr) {a : Analysis} {n : Nat}, a.Initializes δ n →
    e.accesses ⊆ δ.initializerAccesses → (analyzeExpr e a).Initializes δ n
  | .literal _, _, _, h, _ => h
  | .grouping e, _, _, h, hu => initializes_analyzeExpr e h hu
  | .unary _ e, _, _, h, hu => initializes_analyzeExpr e h hu
  | .binary l _ r, _, _, h, hu => by
      rw [Expr.accesses, List.append_subset] at hu
      exact initializes_analyzeExpr r (initializes_analyzeExpr l h hu.1) hu.2
  | .logical l _ r, _, _, h, hu => by
      rw [Expr.accesses, List.append_subset] at hu
      exact initializes_analyzeExpr r (initializes_analyzeExpr l h hu.1) hu.2
  | .conditional c t e, _, _, h, hu => by
      simp only [Expr.accesses, List.append_subset] at hu
      exact initializes_analyzeExpr e
        (initializes_analyzeExpr t (initializes_analyzeExpr c h hu.1) hu.2.1) hu.2.2
  | .assign name e, _, _, h, hu => by
      rw [Expr.accesses, List.cons_subset] at hu
      exact (initializes_analyzeExpr e h hu.2).refer fun _ _ => .inr fun hname =>
        δ.usesItself_of_mem hname hu.1
  | .variable name, _, _, h, _ => h.read name
  | .call callee _ arguments, _, _, h, hu => by
      rw [Expr.accesses, List.append_subset] at hu
      exact initializes_analyzeExprs arguments (initializes_analyzeExpr callee h hu.1) hu.2
  | .get e _, _, _, h, hu => initializes_analyzeExpr e h hu
  | .set e _ v, _, _, h, hu => by
      rw [Expr.accesses, List.append_subset] at hu
      exact initializes_analyzeExpr e (initializes_analyzeExpr v h hu.2) hu.1
  | .this keyword, _, _, h, _ => h.this keyword
  | .lambda _ params body, a, _, h, hu =>
      (initializes_analyzeStmts body (h.enterFunction _ params) hu).leaveFunction a

theorem initializes_analyzeExprs : ∀ (es : List Expr) {a : Analysis} {n : Nat},
    a.Initializes δ n → exprsAccesses es ⊆ δ.initializerAccesses →
    (analyzeExprs es a).Initializes δ n
  | [], _, _, h, _ => h
  | e :: es, _, _, h, hu => by
      rw [exprsAccesses, List.append_subset] at hu
      exact initializes_analyzeExprs es (initializes_analyzeExpr e h hu.1) hu.2

/-- The same for a statement, which stands in a function and so in a scope further in. -/
theorem initializes_analyzeStmt : ∀ (s : Stmt) {a : Analysis} {n : Nat},
    a.Initializes δ (n + 1) → s.accesses ⊆ δ.initializerAccesses →
    (analyzeStmt s a).Initializes δ (n + 1)
  | .expression e, _, _, h, hu => initializes_analyzeExpr e h hu
  | .print e, _, _, h, hu => initializes_analyzeExpr e h hu
  | .var name none, _, _, h, _ => (h.declare name).update name _
  | .var name (some e), _, _, h, hu =>
      (initializes_analyzeExpr e (h.declare name) hu).update name _
  | .block _ body, _, _, h, hu =>
      (initializes_analyzeStmts body (h.openScope _ .empty) hu).closeScope
  | .ifElse c t none, _, _, h, hu => by
      rw [Stmt.accesses, List.append_subset] at hu
      exact initializes_analyzeStmt t (initializes_analyzeExpr c h hu.1) hu.2
  | .ifElse c t (some e), _, _, h, hu => by
      simp only [Stmt.accesses, List.append_subset] at hu
      exact initializes_analyzeStmt e
        (initializes_analyzeStmt t (initializes_analyzeExpr c h hu.1) hu.2.1) hu.2.2
  | .while c body none, _, _, h, hu => by
      rw [Stmt.accesses, List.append_subset] at hu
      have hc := initializes_analyzeExpr c h hu.1
      have hbody := initializes_analyzeStmt body
        (hc.quiet (b := (analyzeExpr c _).enterLoop) rfl rfl) hu.2
      exact hbody.quiet rfl rfl
  | .while c body (some i), _, _, h, hu => by
      simp only [Stmt.accesses, List.append_subset] at hu
      have hc := initializes_analyzeExpr c h hu.1
      have hbody := initializes_analyzeStmt body
        (hc.quiet (b := (analyzeExpr c _).enterLoop) rfl rfl) hu.2.1
      exact (initializes_analyzeExpr i hbody hu.2.2).quiet rfl rfl
  | .break _, _, _, h, _ => h.faultIf _ _ _
  | .continue _, _, _, h, _ => h.faultIf _ _ _
  | .function f, _, _, h, hu =>
      initializes_analyzeFunction f ((h.declare f.name).update f.name _) hu
  | .return _ none, _, _, h, _ => h.faultIf _ _ _
  | .return _ (some e), _, _, h, hu => initializes_analyzeExpr e (h.faultIf _ _ _) hu
  | .classDecl name superclass methods statics, a, n, h, hu => by
      simp only [Stmt.accesses, List.append_subset] at hu
      have hclass := h.declareClass name superclass
      have hstatics := initializes_analyzeFunctions statics
        (hclass.quiet (b := (a.declareClass name superclass).enterStatics) rfl rfl) hu.2.1
      have hthis : Analysis.Initializes δ (n + 2) (Analysis.enterMethods _ name) :=
        hstatics.quiet rfl rfl
      exact (initializes_analyzeFunctions methods hthis hu.2.2).leaveClass a

theorem initializes_analyzeStmts : ∀ (ss : List Stmt) {a : Analysis} {n : Nat},
    a.Initializes δ (n + 1) → stmtsAccesses ss ⊆ δ.initializerAccesses →
    (analyzeStmts ss a).Initializes δ (n + 1)
  | [], _, _, h, _ => h
  | s :: ss, _, _, h, hu => by
      rw [stmtsAccesses, List.append_subset] at hu
      exact initializes_analyzeStmts ss (initializes_analyzeStmt s h hu.1) hu.2

theorem initializes_analyzeFunction : ∀ (f : FunctionDecl) {a : Analysis} {n : Nat},
    a.Initializes δ n → f.accesses ⊆ δ.initializerAccesses → (analyzeFunction f a).Initializes δ n
  | .mk _ params body, a, _, h, hu =>
      (initializes_analyzeStmts body (h.enterFunction _ params) hu).leaveFunction a

theorem initializes_analyzeFunctions : ∀ (fs : List FunctionDecl) {a : Analysis} {n : Nat},
    a.Initializes δ n → functionsAccesses fs ⊆ δ.initializerAccesses →
    (analyzeFunctions fs a).Initializes δ n
  | [], _, _, h, _ => h
  | f :: fs, _, _, h, hu => by
      rw [functionsAccesses, List.append_subset] at hu
      exact initializes_analyzeFunctions fs (initializes_analyzeFunction f h hu.1) hu.2

end

end Initializer

/-! ### Readings of the variable -/

/-- The walk has found no fault so far, and what it visited is the beginning of some visits. -/
structure Analysis.Leads (vs : List Visit) (a : Analysis) : Prop where
  /-- The visits. -/
  visits : a.visits.toList <+: vs
  /-- There is no fault. -/
  clean : a.Clean

section Reading

variable {vs : List Visit} {a b : Analysis} {δ : Declaration}
  {occs : List Occurrence} {site : Site}

theorem Walked.leads (h : Walked a occs b) (hb : b.Leads vs) : a.Leads vs := by
  obtain ⟨vs', h⟩ := h
  refine ⟨?_, h.clean hb.clean⟩
  have hvisits := hb.visits
  rw [h.visits_eq] at hvisits
  exact (List.prefix_append _ _).trans hvisits

namespace Analysis.Leads

/-- A step that visits nothing and finds no more fault. -/
theorem quiet (h : b.Leads vs) (hvisits : b.visits = a.visits)
    (haccepted : b.Accepted vs → a.Accepted vs) : a.Leads vs :=
  ⟨hvisits ▸ h.visits, (haccepted ⟨h.visits.subset, h.clean⟩).clean⟩

theorem of_eq (h : b.Leads vs) (hvisits : b.visits = a.visits)
    (hfindings : b.findings = a.findings) : a.Leads vs :=
  h.quiet hvisits fun haccepted => haccepted.of_eq hvisits hfindings

theorem closeScope (h : a.closeScope.Leads vs) : a.Leads vs :=
  h.quiet (visits_closeScope a) .closeScope

theorem leaveFunction {outer : Analysis} (h : (a.leaveFunction outer).Leads vs) : a.Leads vs :=
  closeScope (h.of_eq rfl rfl)

theorem leaveClass {outer : Analysis} (h : (a.leaveClass outer).Leads vs) : a.Leads vs :=
  closeScope (h.of_eq rfl rfl)

theorem define {name : Token} (h : (a.define name).Leads vs) : a.Leads vs :=
  h.quiet (visits_update a name _) .define

end Analysis.Leads

/-- If the analysis finds no fault with a reading of the variable in the innermost scope, then
the variable was assigned to before. -/
theorem Analysis.Initializes.assignedBefore (h : a.Initializes δ 0) {t : Token}
    (hname : t.lexeme = δ.name.lexeme) (hv : (a.read t).Leads vs) : δ.AssignedBefore t vs := by
  obtain ⟨s, l, hs, hsite, hl, hassigned⟩ := h
  rw [← List.head?_eq_getElem?] at hs
  obtain ⟨ss, hscopes⟩ := List.head?_eq_some_iff.mp hs
  have hdeclaring : a.isDeclaring t.lexeme = !l.defined := by
    simp only [isDeclaring, hscopes, hname, hl]
  have hclean := ((walked_refer _ (at_place _)).leads hv).clean
  rw [hdeclaring] at hclean
  have hdefined : l.defined = true := by simpa using eq_false_of_clean_faultIf hclean
  obtain ⟨w, hw, hassigns⟩ := hassigned hdefined
  have hdistance : Visit.distance ⟨t, a.scopes⟩ = some 0 := by
    rw [Visit.distance, hscopes, List.findIdx?_cons, hname]
    simp [Table.contains, hl]
  refine ⟨w, ⟨t, a.scopes⟩, ?_, hassigns, rfl, hdistance, ?_⟩
  · have hvisits := hv.visits.sublist
    rw [Analysis.read, Analysis.use, visits_refer, Array.toList_push, visits_faultIf,
      scopes_faultIf] at hvisits
    exact ((List.singleton_sublist.mpr hw).append (List.Sublist.refl [_])).trans hvisits
  · rw [Visit.site?, hdistance, Option.bind_some, hscopes]
    exact congrArg some hsite

mutual

/-- Where the initializer reads the variable, the variable was assigned to before. -/
theorem Expr.assignedBefore : ∀ (e : Expr) {a : Analysis}, a.Initializes δ 0 →
    e.accesses ⊆ δ.initializerAccesses → (analyzeExpr e a).Leads vs →
    ∀ t ∈ e.directReads, t.lexeme = δ.name.lexeme → δ.AssignedBefore t vs
  | .literal _, _, _, _, _ => fun _ ht => absurd ht List.not_mem_nil
  | .grouping e, _, h, hu, hv => e.assignedBefore h hu hv
  | .unary _ e, _, h, hu, hv => e.assignedBefore h hu hv
  | .binary l _ r, a, h, hu, hv => by
      rw [Expr.accesses, List.append_subset] at hu
      have hl := (walked_expr r (analyzeExpr l a).at_place).leads hv
      rw [Expr.directReads, List.forall_mem_append]
      exact ⟨l.assignedBefore h hu.1 hl,
        r.assignedBefore (initializes_analyzeExpr l h hu.1) hu.2 hv⟩
  | .logical l _ r, a, h, hu, hv => by
      rw [Expr.accesses, List.append_subset] at hu
      have hl := (walked_expr r (analyzeExpr l a).at_place).leads hv
      rw [Expr.directReads, List.forall_mem_append]
      exact ⟨l.assignedBefore h hu.1 hl,
        r.assignedBefore (initializes_analyzeExpr l h hu.1) hu.2 hv⟩
  | .conditional c t e, a, h, hu, hv => by
      simp only [Expr.accesses, List.append_subset] at hu
      have ht := (walked_expr e (analyzeExpr t (analyzeExpr c a)).at_place).leads hv
      have hc := (walked_expr t (analyzeExpr c a).at_place).leads ht
      have hafter := initializes_analyzeExpr c h hu.1
      simp only [Expr.directReads, List.forall_mem_append]
      exact ⟨c.assignedBefore h hu.1 hc, t.assignedBefore hafter hu.2.1 ht,
        e.assignedBefore (initializes_analyzeExpr t hafter hu.2.1) hu.2.2 hv⟩
  | .assign _ e, a, h, hu, hv => by
      rw [Expr.accesses, List.cons_subset] at hu
      exact e.assignedBefore h hu.2 ((walked_refer _ (analyzeExpr e a).at_place).leads hv)
  | .variable name, _, h, _, hv => by
      intro t ht hname
      cases List.mem_singleton.mp ht
      exact h.assignedBefore hname hv
  | .call callee _ arguments, a, h, hu, hv => by
      rw [Expr.accesses, List.append_subset] at hu
      have hcallee := (walked_exprs arguments (analyzeExpr callee a).at_place).leads hv
      rw [Expr.directReads, List.forall_mem_append]
      exact ⟨callee.assignedBefore h hu.1 hcallee,
        exprsAssignedBefore arguments (initializes_analyzeExpr callee h hu.1) hu.2 hv⟩
  | .get e _, _, h, hu, hv => e.assignedBefore h hu hv
  | .set e _ v, a, h, hu, hv => by
      rw [Expr.accesses, List.append_subset] at hu
      have he := (walked_expr e (analyzeExpr v a).at_place).leads hv
      rw [Expr.directReads, List.forall_mem_append]
      exact ⟨e.assignedBefore (initializes_analyzeExpr v h hu.2) hu.1 hv,
        v.assignedBefore h hu.2 he⟩
  | .this _, _, _, _, _ => fun _ ht => absurd ht List.not_mem_nil
  | .lambda _ _ _, _, _, _, _ => fun _ ht => absurd ht List.not_mem_nil

theorem exprsAssignedBefore : ∀ (es : List Expr) {a : Analysis}, a.Initializes δ 0 →
    exprsAccesses es ⊆ δ.initializerAccesses → (analyzeExprs es a).Leads vs →
    ∀ t ∈ exprsDirectReads es, t.lexeme = δ.name.lexeme → δ.AssignedBefore t vs
  | [], _, _, _, _ => fun _ ht => absurd ht List.not_mem_nil
  | e :: es, a, h, hu, hv => by
      rw [exprsAccesses, List.append_subset] at hu
      have he := (walked_exprs es (analyzeExpr e a).at_place).leads hv
      rw [exprsDirectReads, List.forall_mem_append]
      exact ⟨e.assignedBefore h hu.1 he,
        exprsAssignedBefore es (initializes_analyzeExpr e h hu.1) hu.2 hv⟩

end

/-! ### All initializers of a program -/

/-- A local variable that is read in its own initializer, outside of functions, is assigned to
there before. -/
def Declaration.ReadsLate (vs : List Visit) (δ : Declaration) : Prop :=
  δ.site ≠ .globals → δ.kind = .variable → ∀ e ∈ δ.initializer, ∀ t ∈ e.directReads,
    t.lexeme = δ.name.lexeme → δ.AssignedBefore t vs

/-- The innermost scope is that of a construct, if it is not the whole program. -/
def Outline.Within (site : Site) (o : Outline) : Prop :=
  site ≠ .globals → ∃ s ∈ o.head?, s.1 = site

theorem Outline.Within.cons (site : Site) (holds : String → Bool) (o : Outline) :
    Outline.Within site ((site, holds) :: o) := fun _ => ⟨_, rfl, rfl⟩

theorem Outline.Within.declare {o : Outline} (h : o.Within site) (names : List String) :
    (o.declare names).Within site := by
  intro hne
  obtain ⟨s, hs, hsite⟩ := h hne
  obtain ⟨rest, rfl⟩ := List.head?_eq_some_iff.mp hs
  exact ⟨_, rfl, hsite⟩

theorem Analysis.within_enterFunction (a : Analysis) (site : Site) (params : List Token) :
    (a.enterFunction site params).outline.Within site := by
  rw [outline_enterFunction]
  exact Outline.Within.declare (.cons _ _ _) _

/-- The initializer of a local variable begins with the variable declared, but not complete. -/
theorem Outline.Within.initializes (h : a.outline.Within site) (hsite : site ≠ .globals)
    (name : Token) (initializer : Option Expr) :
    (a.declare name).Initializes ⟨site, name, initializer, .variable⟩ 0 := by
  obtain ⟨s, hs, hs'⟩ := h hsite
  unfold Analysis.declare
  cases hscopes : a.scopes with
  | nil =>
    rw [Analysis.outline, LoxLang.outline, hscopes] at hs
    cases hs
  | cons s₀ ss =>
    rw [Analysis.outline, LoxLang.outline, hscopes] at hs
    cases hs
    exact ⟨_, _, rfl, hs', Table.find?_insert_self _ _ _, fun hdefined => by cases hdefined⟩

mutual

theorem Expr.readsLate : ∀ (e : Expr) {a : Analysis}, (analyzeExpr e a).Leads vs →
    ∀ δ ∈ e.declarations, δ.ReadsLate vs
  | .literal _, _, _ => fun _ hδ => absurd hδ List.not_mem_nil
  | .grouping e, _, hv => e.readsLate hv
  | .unary _ e, _, hv => e.readsLate hv
  | .binary l _ r, a, hv => by
      rw [Expr.declarations, List.forall_mem_append]
      exact ⟨l.readsLate ((walked_expr r (analyzeExpr l a).at_place).leads hv), r.readsLate hv⟩
  | .logical l _ r, a, hv => by
      rw [Expr.declarations, List.forall_mem_append]
      exact ⟨l.readsLate ((walked_expr r (analyzeExpr l a).at_place).leads hv), r.readsLate hv⟩
  | .conditional c t e, a, hv => by
      simp only [Expr.declarations, List.forall_mem_append]
      have ht := (walked_expr e (analyzeExpr t (analyzeExpr c a)).at_place).leads hv
      have hc := (walked_expr t (analyzeExpr c a).at_place).leads ht
      exact ⟨c.readsLate hc, t.readsLate ht, e.readsLate hv⟩
  | .assign _ e, a, hv => e.readsLate ((walked_refer _ (analyzeExpr e a).at_place).leads hv)
  | .variable _, _, _ => fun _ hδ => absurd hδ List.not_mem_nil
  | .call callee _ arguments, a, hv => by
      rw [Expr.declarations, List.forall_mem_append]
      exact ⟨callee.readsLate ((walked_exprs arguments (analyzeExpr callee a).at_place).leads hv),
        exprsReadLate arguments hv⟩
  | .get e _, _, hv => e.readsLate hv
  | .set e _ v, a, hv => by
      rw [Expr.declarations, List.forall_mem_append]
      exact ⟨e.readsLate hv, v.readsLate ((walked_expr e (analyzeExpr v a).at_place).leads hv)⟩
  | .this _, _, _ => fun _ hδ => absurd hδ List.not_mem_nil
  | .lambda keyword params body, a, hv => by
      rw [Expr.declarations, List.forall_mem_append]
      refine ⟨fun δ hδ => ?_, stmtsReadLate body (a.within_enterFunction _ params)
        hv.leaveFunction⟩
      obtain ⟨t, -, rfl⟩ := List.mem_map.mp hδ
      exact fun _ hkind => nomatch hkind

theorem exprsReadLate : ∀ (es : List Expr) {a : Analysis}, (analyzeExprs es a).Leads vs →
    ∀ δ ∈ exprsDeclarations es, δ.ReadsLate vs
  | [], _, _ => fun _ hδ => absurd hδ List.not_mem_nil
  | e :: es, a, hv => by
      rw [exprsDeclarations, List.forall_mem_append]
      exact ⟨e.readsLate ((walked_exprs es (analyzeExpr e a).at_place).leads hv),
        exprsReadLate es hv⟩

theorem Stmt.readsLate : ∀ (s : Stmt) {a : Analysis} {site : Site}, a.outline.Within site →
    (analyzeStmt s a).Leads vs → ∀ δ ∈ s.declarations site, δ.ReadsLate vs
  | .expression e, _, _, _, hv => e.readsLate hv
  | .print e, _, _, _, hv => e.readsLate hv
  | .var _ none, _, _, _, _ => by
      intro δ hδ
      cases List.mem_singleton.mp hδ
      exact fun _ _ _ he => nomatch he
  | .var name (some e), _, _, hs, hv => by
      rw [Stmt.declarations, List.forall_mem_cons]
      refine ⟨fun hsite _ e' he' => ?_, e.readsLate hv.define⟩
      cases he'
      exact e.assignedBefore (hs.initializes hsite name (some e)) (List.Subset.refl _)
        hv.define
  | .block position body, a, _, _, hv =>
      stmtsReadLate body (a := a.openScope (.block position) .empty) (.cons _ _ _) hv.closeScope
  | .ifElse c t none, a, _, hs, hv => by
      rw [Stmt.declarations, List.forall_mem_append]
      exact ⟨c.readsLate ((walked_stmt t (analyzeExpr c a).at_place).leads hv),
        t.readsLate (by rw [outline_analyzeExpr]; exact hs) hv⟩
  | .ifElse c t (some e), a, _, hs, hv => by
      simp only [Stmt.declarations, List.forall_mem_append]
      have ht := (walked_stmt e (analyzeStmt t (analyzeExpr c a)).at_place).leads hv
      have hc := (walked_stmt t (analyzeExpr c a).at_place).leads ht
      exact ⟨c.readsLate hc, t.readsLate (by rw [outline_analyzeExpr]; exact hs) ht,
        e.readsLate (by rw [outline_analyzeStmt, outline_analyzeExpr]; exact hs.declare _) hv⟩
  | .while c body none, a, _, hs, hv => by
      rw [Stmt.declarations, List.forall_mem_append]
      have hbody := hv.of_eq (a := analyzeStmt body (analyzeExpr c a).enterLoop) rfl rfl
      have hc := (walked_stmt body (analyzeExpr c a).enterLoop.at_place).leads hbody
      exact ⟨c.readsLate (hc.of_eq rfl rfl), body.readsLate
        (by rw [Analysis.outline_enterLoop, outline_analyzeExpr]; exact hs) hbody⟩
  | .while c body (some i), a, _, hs, hv => by
      simp only [Stmt.declarations, List.forall_mem_append]
      have hi := hv.of_eq
        (a := analyzeExpr i (analyzeStmt body (analyzeExpr c a).enterLoop)) rfl rfl
      have hbody := (walked_expr i
        (analyzeStmt body (analyzeExpr c a).enterLoop).at_place).leads hi
      have hc := (walked_stmt body (analyzeExpr c a).enterLoop.at_place).leads hbody
      exact ⟨c.readsLate (hc.of_eq rfl rfl), body.readsLate
        (by rw [Analysis.outline_enterLoop, outline_analyzeExpr]; exact hs) hbody,
        i.readsLate hi⟩
  | .break _, _, _, _, _ => fun _ hδ => absurd hδ List.not_mem_nil
  | .continue _, _, _, _, _ => fun _ hδ => absurd hδ List.not_mem_nil
  | .function f, _, _, _, hv => by
      rw [Stmt.declarations, List.forall_mem_cons]
      exact ⟨fun _ hkind => (nomatch hkind), f.readsLate hv⟩
  | .return _ none, _, _, _, _ => fun _ hδ => absurd hδ List.not_mem_nil
  | .return _ (some e), _, _, _, hv => e.readsLate hv
  | .classDecl name superclass methods statics, a, _, _, hv => by
      simp only [Stmt.declarations, List.forall_mem_cons, List.forall_mem_append]
      have hmethods : (analyzeFunctions methods ((analyzeFunctions statics
          (a.declareClass name superclass).enterStatics).enterMethods name)).Leads vs :=
        hv.leaveClass
      have hstatics := ((walked_functions methods (Analysis.at_place _)).leads hmethods).of_eq
        (a := analyzeFunctions statics (a.declareClass name superclass).enterStatics) rfl rfl
      exact ⟨fun _ hkind => (nomatch hkind), functionsReadLate statics hstatics,
        functionsReadLate methods hmethods⟩

theorem stmtsReadLate : ∀ (ss : List Stmt) {a : Analysis} {site : Site},
    a.outline.Within site → (analyzeStmts ss a).Leads vs →
    ∀ δ ∈ stmtsDeclarations ss site, δ.ReadsLate vs
  | [], _, _, _, _ => fun _ hδ => absurd hδ List.not_mem_nil
  | s :: ss, a, _, hs, hv => by
      rw [stmtsDeclarations, List.forall_mem_append]
      exact ⟨s.readsLate hs ((walked_stmts ss (analyzeStmt s a).at_place).leads hv),
        stmtsReadLate ss (by rw [outline_analyzeStmt]; exact hs.declare _) hv⟩

theorem FunctionDecl.readsLate : ∀ (f : FunctionDecl) {a : Analysis},
    (analyzeFunction f a).Leads vs → ∀ δ ∈ f.declarations, δ.ReadsLate vs
  | .mk name params body, a, hv => by
      rw [FunctionDecl.declarations, List.forall_mem_append]
      refine ⟨fun δ hδ => ?_, stmtsReadLate body (a.within_enterFunction _ params)
        hv.leaveFunction⟩
      obtain ⟨t, -, rfl⟩ := List.mem_map.mp hδ
      exact fun _ hkind => nomatch hkind

theorem functionsReadLate : ∀ (fs : List FunctionDecl) {a : Analysis},
    (analyzeFunctions fs a).Leads vs → ∀ δ ∈ functionsDeclarations fs, δ.ReadsLate vs
  | [], _, _ => fun _ hδ => absurd hδ List.not_mem_nil
  | f :: fs, a, hv => by
      rw [functionsDeclarations, List.forall_mem_append]
      exact ⟨f.readsLate ((walked_functions fs (analyzeFunction f a).at_place).leads hv),
        functionsReadLate fs hv⟩

end

end Reading

/-- In a program without fault, a local variable that is read in its own initializer, outside
of functions, is assigned to there before. -/
theorem Program.assignedBefore {program : Program} {known : Distances}
    (h : (Analysis.ofProgram program known).Clean) :
    ∀ δ ∈ program.declarations,
      δ.ReadsLate (Analysis.ofProgram program known).visits.toList :=
  stmtsReadLate program (fun hsite => absurd rfl hsite) ⟨List.prefix_rfl, h⟩

end LoxLang
