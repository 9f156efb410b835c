import LoxLang.Proofs.Scope.Names

/-!
# Names that are bound where they were found

The analysis finds a name in the scope of some construct.  When the name is used, the
construct has bound it, since all that is in scope was declared before; only a variable in
whose initializer the use stands is in scope but not yet bound.  A class, whose superclass is
read before the class is bound, cannot inherit from itself.

## Main definitions

* `Visit.site?` — the construct in whose scope a visited name was found.
* `Declaration.UsesItself` — the initializer of a variable uses the variable.
* `Settled` — a use of a name is bound where it was found, or the variable uses itself.
* `Suffices` — what is required of uses follows from this.

## Main results

* `Program.settled` — all uses of names in a program without fault are settled.
-/

namespace LoxLang

/-- The construct in whose scope a visited name was found. -/
def Visit.site? (v : Visit) : Option Site :=
  v.distance.bind fun d => v.scopes[d]?.map Scope.site

/-- What is evaluated before a name is bound makes a use of that name. -/
def Declaration.UsesItself (d : Declaration) (u : Access × Token) : Prop :=
  d.name.lexeme = u.2.lexeme ∧ ∃ e ∈ d.initializer, u ∈ e.accesses

instance (d : Declaration) (u : Access × Token) : Decidable (d.UsesItself u) :=
  inferInstanceAs (Decidable (_ ∧ _))

/-- A use of a name was visited, and where the name was found it is bound, unless the use
stands in the initializer of the variable that was found.  Nothing is said about `this`. -/
def Settled (ds : List Declaration) (vs : List Visit) (k : Access) (t : Token)
    (env : List Binding) : Prop :=
  ∃ v ∈ vs, v.name = t ∧ (t.lexeme ≠ "this" → ∀ site ∈ v.site?,
    (site, t.lexeme) ∈ env ∨ ∃ d ∈ ds, d.site = site ∧ d.kind = .variable ∧ d.UsesItself (k, t))

/-- A visited name was found in a scope that had declared it. -/
theorem Visit.exists_of_site? {v : Visit} {site : Site} (h : v.site? = some site) :
    ∃ s ∈ v.scopes, s.site = site ∧ s.names.contains v.name.lexeme := by
  obtain ⟨d, hd, hs⟩ := Option.bind_eq_some_iff.mp h
  obtain ⟨s, hget, rfl⟩ := Option.map_eq_some_iff.mp hs
  obtain ⟨hlt, hnames, -⟩ := List.findIdx?_eq_some_iff_getElem.mp hd
  obtain ⟨_, rfl⟩ := List.getElem?_eq_some_iff.mp hget
  exact ⟨_, List.getElem_mem hlt, rfl, hnames⟩

/-! ### What is in scope -/

/-- The names in scopes are bound, or they are pending. -/
def Outline.Covered (env pending : List Binding) (o : Outline) : Prop :=
  ∀ s ∈ o, ∀ x, s.2 x → (s.1, x) ∈ env ∨ (s.1, x) ∈ pending

/-- What is pending at a use is `this`, or has another name, or is a variable that uses
itself. -/
def Awaits (ds : List Declaration) (pending : List Binding) (u : Access × Token) : Prop :=
  ∀ b ∈ pending, b.2 = u.2.lexeme →
    b.2 = "this" ∨ ∃ d ∈ ds, d.site = b.1 ∧ d.kind = .variable ∧ d.UsesItself u

/-- The walk has found no fault so far, and its visits are among some visits. -/
structure Analysis.Accepted (vs : List Visit) (a : Analysis) : Prop where
  /-- The visits. -/
  visits : a.visits.toList ⊆ vs
  /-- There is no fault. -/
  clean : a.Clean

section Covered

variable {ds : List Declaration} {vs : List Visit} {env pending : List Binding} {o : Outline}
  {a b : Analysis} {site : Site} {occs : List Occurrence}

theorem Outline.Covered.declare (h : o.Covered env pending) (hsite : o.In site)
    (names : List String) :
    (o.declare names).Covered (names.map (fun x => (site, x)) ++ env) pending := by
  cases o with
  | nil => exact fun s hs => absurd hs List.not_mem_nil
  | cons s rest =>
    intro s' hs' x hx
    rcases List.mem_cons.mp hs' with rfl | hs'
    · rcases Bool.or_eq_true_iff.mp hx with hx | hx
      · exact (h s List.mem_cons_self x hx).imp_left (List.mem_append_right _)
      · have hmem : (s.1, x) ∈ names.map fun x => (site, x) := by
          rw [hsite s rfl]
          exact List.mem_map_of_mem (List.contains_iff_mem.mp hx)
        exact .inl (List.mem_append_left _ hmem)
    · exact (h s' (List.mem_cons_of_mem s hs') x hx).imp_left (List.mem_append_right _)

/-- A name that is declared but not yet bound is pending. -/
theorem Outline.Covered.declare_pending (h : o.Covered env pending) (hsite : o.In site)
    (name : String) : (o.declare [name]).Covered env ((site, name) :: pending) := by
  intro s hs x hx
  rcases h.declare hsite [name] s hs x hx with hmem | hmem
  · rcases List.mem_append.mp hmem with hmem | hmem
    · exact .inr (List.mem_singleton.mp hmem ▸ List.mem_cons_self)
    · exact .inl hmem
  · exact .inr (List.mem_cons_of_mem _ hmem)

/-- A new scope without names. -/
theorem Outline.Covered.cons (h : o.Covered env pending) (site : Site) :
    Outline.Covered env pending ((site, fun _ => false) :: o) := by
  intro s hs x hx
  rcases List.mem_cons.mp hs with rfl | hs
  · exact absurd hx Bool.false_ne_true
  · exact h s hs x hx

theorem Outline.Covered.enterFunction (h : a.outline.Covered env pending) (site : Site)
    (params : List Token) :
    (a.enterFunction site params).outline.Covered
      (params.map (fun t => (site, t.lexeme)) ++ env) pending := by
  have hdeclare := (h.cons site).declare (.cons site _ _) (params.map Token.lexeme)
  rw [List.map_map] at hdeclare
  rw [Analysis.outline_enterFunction]
  exact hdeclare

/-- The scope around methods declares `this` alone. -/
theorem Outline.Covered.enterMethods (h : a.outline.Covered env pending) (name : Token) :
    (a.enterMethods name).outline.Covered env
      ((.receiver name.position, "this") :: pending) := by
  rw [Analysis.outline_enterMethods]
  intro s hs x hx
  rcases List.mem_cons.mp hs with rfl | hs
  · exact .inr (of_decide_eq_true hx ▸ List.mem_cons_self)
  · exact (h s hs x hx).imp_right (List.mem_cons_of_mem _)

/-- A name that is looked for in scopes that are covered. -/
theorem Outline.Covered.settled {k : Access} {v : Visit} (h : v.outline.Covered env pending)
    (hv : v ∈ vs) (hawaits : Awaits ds pending (k, v.name)) : Settled ds vs k v.name env := by
  refine ⟨v, hv, rfl, fun hthis site hsite => ?_⟩
  obtain ⟨s, hs, rfl, hcontains⟩ := v.exists_of_site? hsite
  rcases h (s.site, s.names.contains) (List.mem_map_of_mem hs) _ hcontains with hmem | hmem
  · exact .inl hmem
  · exact .inr ((hawaits _ hmem rfl).resolve_left hthis)

/-- What is accepted in the end was accepted before. -/
theorem Walked.accepted (h : Walked a occs b) (hb : b.Accepted vs) : a.Accepted vs := by
  obtain ⟨vs', h⟩ := h
  refine ⟨fun v hv => hb.visits ?_, h.clean hb.clean⟩
  rw [h.visits_eq]
  exact List.mem_append_left _ hv

namespace Analysis.Accepted

/-- What has the same visits and findings is accepted, too. -/
theorem of_eq (h : b.Accepted vs) (hvisits : b.visits = a.visits)
    (hfindings : b.findings = a.findings) : a.Accepted vs := by
  refine ⟨hvisits ▸ h.visits, fun f hf => h.clean f ?_⟩
  rw [hfindings]
  exact hf

theorem closeScope (h : a.closeScope.Accepted vs) : a.Accepted vs := by
  refine ⟨fun v hv => h.visits (by rw [visits_closeScope]; exact hv), fun f hf => h.clean f ?_⟩
  unfold Analysis.closeScope
  split
  · exact hf
  · rw [Array.toList_append]
    exact List.mem_append_left _ hf

theorem leaveFunction {outer : Analysis} (h : (a.leaveFunction outer).Accepted vs) :
    a.Accepted vs := closeScope (h.of_eq rfl rfl)

theorem leaveClass {outer : Analysis} (h : (a.leaveClass outer).Accepted vs) :
    a.Accepted vs := closeScope (h.of_eq rfl rfl)

theorem define {name : Token} (h : (a.define name).Accepted vs) : a.Accepted vs := by
  refine h.of_eq (visits_update a name _) ?_
  unfold Analysis.define Analysis.update
  split
  · rfl
  · split <;> rfl

theorem refer {name : Token} {f : Local → Local} (h : (a.refer name f).Accepted vs) :
    ⟨name, a.scopes⟩ ∈ vs := by
  apply h.visits
  unfold Analysis.refer
  dsimp only
  split <;> simp [Analysis.visit]

theorem read {name : Token} (h : (a.read name).Accepted vs) : ⟨name, a.scopes⟩ ∈ vs := by
  have hvisit := refer (h : ((a.faultIf _ _ _).refer name _).Accepted vs)
  have hscopes : ∀ condition cause token,
      (a.faultIf condition cause token).scopes = a.scopes := by
    intro condition cause token
    unfold Analysis.faultIf
    split <;> rfl
  rwa [hscopes] at hvisit

end Analysis.Accepted

/-- The place to which the walk has come. -/
def Analysis.place (a : Analysis) : Place :=
  ⟨a.scopes.map Scope.site ++ [.globals], if a.inFunction then some .globals else none,
    a.loopDepth⟩

theorem Analysis.at_place (a : Analysis) : a.At a.place :=
  ⟨rfl, rfl, by unfold place; cases a.inFunction <;> rfl⟩

/-- The superclass of a class is visited when the class is declared, and it has another
name. -/
theorem Analysis.Accepted.declareClass {name t : Token}
    (h : (a.declareClass name (some t)).Accepted vs) :
    t.lexeme ≠ name.lexeme
      ∧ ∃ v ∈ vs, v.name = t ∧ v.outline = a.outline.declare [name.lexeme] := by
  have hread : ((((a.declare name).define name).faultIf (t.lexeme == name.lexeme)
    .inheritsItself t).read t).Accepted vs := h
  refine ⟨?_, _, hread.read, rfl, ?_⟩
  · have hfault := (walked_read (Analysis.at_place _)).accepted hread
    exact beq_eq_false_iff_ne.mp (eq_false_of_clean_faultIf hfault.clean)
  · show (((a.declare name).define name).faultIf _ _ _).outline = _
    rw [outline_faultIf, outline_define, outline_declare]

end Covered

/-! ### All uses are settled -/

section Settled

variable {ds : List Declaration} {vs : List Visit} {w : Access → Token → List Binding → Prop}

/-- It is enough for what is required of the uses of names that they are settled. -/
def Suffices (ds : List Declaration) (vs : List Visit)
    (w : Access → Token → List Binding → Prop) : Prop :=
  ∀ {k : Access} {t : Token} {env : List Binding}, Settled ds vs k t env → w k t env

mutual

/-- The uses of names in an expression are settled, if what is in scope where it stands is
bound or awaited.  They are as required, then, if that is enough. -/
theorem Expr.settled (hw : Suffices ds vs w) : ∀ (e : Expr) {a : Analysis}
    {env pending : List Binding},
    e.wellFormed = true → a.outline.Covered env pending →
    (∀ u ∈ e.accesses, Awaits ds pending u) → e.declarations ⊆ ds →
    (analyzeExpr e a).Accepted vs → e.Scoped w env
  | .literal _, _, _, _, _, _, _, _, _ => trivial
  | .grouping e, _, _, _, hwf, hc, hu, hd, hv => e.settled hw hwf hc hu hd hv
  | .unary _ e, _, _, _, hwf, hc, hu, hd, hv => by
      simp only [Expr.wellFormed, Bool.and_eq_true] at hwf
      exact e.settled hw hwf.1.2 hc hu hd hv
  | .binary l _ r, a, _, _, hwf, hc, hu, hd, hv => by
      simp only [Expr.wellFormed, Bool.and_eq_true] at hwf
      simp only [Expr.accesses, Expr.declarations, List.forall_mem_append,
        List.append_subset] at hu hd
      have hr := walked_expr r (analyzeExpr l a).at_place
      exact ⟨l.settled hw hwf.1.1.1.2 hc hu.1 hd.1 (hr.accepted hv),
        r.settled hw hwf.1.2 (by rw [outline_analyzeExpr]; exact hc) hu.2 hd.2 hv⟩
  | .logical l _ r, a, _, _, hwf, hc, hu, hd, hv => by
      simp only [Expr.wellFormed, Bool.and_eq_true] at hwf
      simp only [Expr.accesses, Expr.declarations, List.forall_mem_append,
        List.append_subset] at hu hd
      have hr := walked_expr r (analyzeExpr l a).at_place
      exact ⟨l.settled hw hwf.1.1.1.2 hc hu.1 hd.1 (hr.accepted hv),
        r.settled hw hwf.1.2 (by rw [outline_analyzeExpr]; exact hc) hu.2 hd.2 hv⟩
  | .conditional c t e, a, _, _, hwf, hc, hu, hd, hv => by
      simp only [Expr.wellFormed, Bool.and_eq_true] at hwf
      simp only [Expr.accesses, Expr.declarations, List.forall_mem_append,
        List.append_subset] at hu hd
      have he := (walked_expr e (analyzeExpr t (analyzeExpr c a)).at_place).accepted hv
      have ht := (walked_expr t (analyzeExpr c a).at_place).accepted he
      exact ⟨c.settled hw hwf.1.1.1.1.1 hc hu.1 hd.1 ht,
        t.settled hw hwf.1.1.1.2 (by rw [outline_analyzeExpr]; exact hc) hu.2.1 hd.2.1 he,
        e.settled hw hwf.1.2 (by rw [outline_analyzeExpr, outline_analyzeExpr]; exact hc)
          hu.2.2 hd.2.2 hv⟩
  | .assign name e, a, _, _, hwf, hc, hu, hd, hv => by
      simp only [Expr.wellFormed, Bool.and_eq_true] at hwf
      simp only [Expr.accesses, List.forall_mem_cons] at hu
      have he := (walked_refer _ (analyzeExpr e a).at_place).accepted hv
      refine ⟨e.settled hw hwf.1.2 hc hu.2 hd he, ?_⟩
      have hcovered := hc
      rw [← outline_analyzeExpr e a] at hcovered
      exact hw (Outline.Covered.settled hcovered hv.refer hu.1)
  | .variable name, _, _, _, _, hc, hu, _, hv =>
      hw (Outline.Covered.settled hc hv.read (hu _ List.mem_cons_self))
  | .call callee _ arguments, a, _, _, hwf, hc, hu, hd, hv => by
      simp only [Expr.wellFormed, Bool.and_eq_true] at hwf
      simp only [Expr.accesses, Expr.declarations, List.forall_mem_append,
        List.append_subset] at hu hd
      have hes := walked_exprs arguments (analyzeExpr callee a).at_place
      exact ⟨callee.settled hw hwf.1.1.1.1 hc hu.1 hd.1 (hes.accepted hv),
        exprsSettled hw arguments hwf.2 (by rw [outline_analyzeExpr]; exact hc) hu.2 hd.2 hv⟩
  | .get e _, _, _, _, hwf, hc, hu, hd, hv => by
      simp only [Expr.wellFormed, Bool.and_eq_true] at hwf
      exact e.settled hw hwf.1.1 hc hu hd hv
  | .set e _ v, a, _, _, hwf, hc, hu, hd, hv => by
      simp only [Expr.wellFormed, Bool.and_eq_true] at hwf
      simp only [Expr.accesses, Expr.declarations, List.forall_mem_append,
        List.append_subset] at hu hd
      have he := walked_expr e (analyzeExpr v a).at_place
      exact ⟨e.settled hw hwf.1.1.1.1 (by rw [outline_analyzeExpr]; exact hc) hu.1 hd.1 hv,
        v.settled hw hwf.1.2 hc hu.2 hd.2 (he.accepted hv)⟩
  | .this t, _, _, _, hwf, _, _, _, _ => beq_iff_eq.mp hwf
  | .lambda keyword params body, a, _, _, hwf, hc, hu, hd, hv => by
      simp only [Expr.wellFormed, Bool.and_eq_true] at hwf
      rw [Expr.declarations, List.append_subset] at hd
      exact stmtsSettled hw body hwf.2 (hc.enterFunction _ params) (a.in_enterFunction _ params) hu
        hd.2 hv.leaveFunction

theorem exprsSettled (hw : Suffices ds vs w) : ∀ (es : List Expr) {a : Analysis}
    {env pending : List Binding},
    exprsWellFormed es = true → a.outline.Covered env pending →
    (∀ u ∈ exprsAccesses es, Awaits ds pending u) → exprsDeclarations es ⊆ ds →
    (analyzeExprs es a).Accepted vs → exprsScoped w es env
  | [], _, _, _, _, _, _, _, _ => trivial
  | e :: es, a, _, _, hwf, hc, hu, hd, hv => by
      simp only [exprsWellFormed, Bool.and_eq_true] at hwf
      simp only [exprsAccesses, exprsDeclarations, List.forall_mem_append,
        List.append_subset] at hu hd
      have hes := walked_exprs es (analyzeExpr e a).at_place
      exact ⟨e.settled hw hwf.1.1 hc hu.1 hd.1 (hes.accepted hv),
        exprsSettled hw es hwf.2 (by rw [outline_analyzeExpr]; exact hc) hu.2 hd.2 hv⟩

/-- The uses of names in a statement are settled. -/
theorem Stmt.settled (hw : Suffices ds vs w) : ∀ (s : Stmt) {a : Analysis}
    {env pending : List Binding} {site : Site},
    s.wellFormed = true → a.outline.Covered env pending → a.outline.In site →
    (∀ u ∈ s.accesses, Awaits ds pending u) → s.declarations site ⊆ ds →
    (analyzeStmt s a).Accepted vs → s.Scoped w site env
  | .expression e, _, _, _, _, hwf, hc, _, hu, hd, hv => e.settled hw hwf hc hu hd hv
  | .print e, _, _, _, _, hwf, hc, _, hu, hd, hv => e.settled hw hwf hc hu hd hv
  | .var _ none, _, _, _, _, _, _, _, _, _, _ => trivial
  | .var name (some e), a, _, pending, site, hwf, hc, hs, hu, hd, hv => by
      simp only [Stmt.wellFormed, Bool.and_eq_true] at hwf
      rw [Stmt.declarations, List.cons_subset] at hd
      -- in the initializer, the variable is declared but not bound
      have hawaits : ∀ u ∈ e.accesses, Awaits ds ((site, name.lexeme) :: pending) u := by
        intro u hmem b hb heq
        rcases List.mem_cons.mp hb with rfl | hb
        · exact .inr ⟨_, hd.1, rfl, rfl, heq, e, rfl, hmem⟩
        · exact hu u hmem b hb heq
      refine e.settled hw hwf.2 ?_ hawaits hd.2 hv.define
      rw [Analysis.outline_declare]
      exact hc.declare_pending hs name.lexeme
  | .block position body, _, _, _, _, hwf, hc, _, hu, hd, hv =>
      stmtsSettled hw body hwf (hc.cons (.block position)) (.cons _ _ _) hu hd hv.closeScope
  | .ifElse c t none, a, _, _, _, hwf, hc, hs, hu, hd, hv => by
      simp only [Stmt.wellFormed, Bool.and_eq_true] at hwf
      simp only [Stmt.accesses, Stmt.declarations, List.forall_mem_append,
        List.append_subset] at hu hd
      have ht := walked_stmt t (analyzeExpr c a).at_place
      exact ⟨c.settled hw hwf.1.1 hc hu.1 hd.1 (ht.accepted hv),
        t.settled hw hwf.1.2 (by rw [outline_analyzeExpr]; exact hc)
          (by rw [outline_analyzeExpr]; exact hs) hu.2 hd.2 hv,
        t.declared_eq_nil hwf.1.2 hwf.2⟩
  | .ifElse c t (some e), a, _, _, _, hwf, hc, hs, hu, hd, hv => by
      simp only [Stmt.wellFormed, Bool.and_eq_true] at hwf
      simp only [Stmt.accesses, Stmt.declarations, List.forall_mem_append,
        List.append_subset] at hu hd
      have he := (walked_stmt e (analyzeStmt t (analyzeExpr c a)).at_place).accepted hv
      have ht := (walked_stmt t (analyzeExpr c a).at_place).accepted he
      have htnil := t.declared_eq_nil hwf.1.1.1.1.2 hwf.1.1.1.2
      have houtline : (analyzeStmt t (analyzeExpr c a)).outline = a.outline := by
        rw [outline_analyzeStmt, outline_analyzeExpr, htnil, Outline.declare_nil]
      exact ⟨c.settled hw hwf.1.1.1.1.1 hc hu.1 hd.1 ht,
        ⟨t.settled hw hwf.1.1.1.1.2 (by rw [outline_analyzeExpr]; exact hc)
          (by rw [outline_analyzeExpr]; exact hs) hu.2.1 hd.2.1 he, htnil⟩,
        e.settled hw hwf.1.2 (by rw [houtline]; exact hc) (by rw [houtline]; exact hs) hu.2.2 hd.2.2
          hv,
        e.declared_eq_nil hwf.1.2 hwf.2⟩
  | .while c body none, a, _, _, _, hwf, hc, hs, hu, hd, hv => by
      simp only [Stmt.wellFormed, Bool.and_eq_true] at hwf
      simp only [Stmt.accesses, Stmt.declarations, List.forall_mem_append,
        List.append_subset] at hu hd
      have hbody := hv.of_eq (a := analyzeStmt body (analyzeExpr c a).enterLoop) rfl rfl
      have hc' := (walked_stmt body (analyzeExpr c a).enterLoop.at_place).accepted hbody
      exact ⟨c.settled hw hwf.1.1 hc hu.1 hd.1 (hc'.of_eq rfl rfl),
        body.settled hw hwf.1.2 (by rw [Analysis.outline_enterLoop, outline_analyzeExpr]; exact hc)
          (by rw [Analysis.outline_enterLoop, outline_analyzeExpr]; exact hs) hu.2 hd.2 hbody,
        body.declared_eq_nil hwf.1.2 hwf.2⟩
  | .while c body (some i), a, _, _, _, hwf, hc, hs, hu, hd, hv => by
      simp only [Stmt.wellFormed, Bool.and_eq_true] at hwf
      simp only [Stmt.accesses, Stmt.declarations, List.forall_mem_append,
        List.append_subset] at hu hd
      have hi' := hv.of_eq
        (a := analyzeExpr i (analyzeStmt body (analyzeExpr c a).enterLoop)) rfl rfl
      have hi := (walked_expr i
        (analyzeStmt body (analyzeExpr c a).enterLoop).at_place).accepted hi'
      have hbody := (walked_stmt body (analyzeExpr c a).enterLoop.at_place).accepted hi
      have hnil := body.declared_eq_nil hwf.1.1.2 hwf.1.2
      refine ⟨c.settled hw hwf.1.1.1 hc hu.1 hd.1 (hbody.of_eq rfl rfl),
        ⟨body.settled hw hwf.1.1.2
          (by rw [Analysis.outline_enterLoop, outline_analyzeExpr]; exact hc)
          (by rw [Analysis.outline_enterLoop, outline_analyzeExpr]; exact hs) hu.2.1 hd.2.1 hi,
          hnil⟩, i.settled hw hwf.2 ?_ hu.2.2 hd.2.2 hi'⟩
      rw [outline_analyzeStmt, Analysis.outline_enterLoop, outline_analyzeExpr, hnil,
        Outline.declare_nil]
      exact hc
  | .break _, _, _, _, _, _, _, _, _, _, _ => trivial
  | .continue _, _, _, _, _, _, _, _, _, _, _ => trivial
  | .function f, a, _, _, _, hwf, hc, hs, hu, hd, hv => by
      rw [Stmt.declarations, List.cons_subset] at hd
      refine f.settled hw hwf ?_ hu hd.2 hv
      rw [Analysis.outline_define, Analysis.outline_declare]
      exact hc.declare hs [f.name.lexeme]
  | .return _ none, _, _, _, _, _, _, _, _, _, _ => trivial
  | .return _ (some e), a, _, _, _, hwf, hc, _, hu, hd, hv => by
      simp only [Stmt.wellFormed, Bool.and_eq_true] at hwf
      exact e.settled hw hwf.2 (by rw [Analysis.outline_faultIf]; exact hc) hu hd hv
  | .classDecl name superclass methods statics, a, env, pending, site, hwf, hc, hs, hu, hd,
      hv => by
      simp only [Stmt.wellFormed, Bool.and_eq_true] at hwf
      simp only [Stmt.accesses, Stmt.declarations, List.forall_mem_append, List.cons_subset,
        List.append_subset] at hu hd
      have hcovered : (a.declareClass name superclass).outline.Covered
          ((site, name.lexeme) :: env) pending := by
        rw [Analysis.outline_declareClass]
        exact hc.declare hs [name.lexeme]
      have hmethods : (analyzeFunctions methods ((analyzeFunctions statics
          (a.declareClass name superclass).enterStatics).enterMethods name)).Accepted vs :=
        hv.leaveClass
      have hstatics := ((walked_functions methods (Analysis.at_place _)).accepted hmethods).of_eq
        (a := analyzeFunctions statics (a.declareClass name superclass).enterStatics) rfl rfl
      have hclass := ((walked_functions statics (Analysis.at_place _)).accepted hstatics).of_eq
        (a := a.declareClass name superclass) rfl rfl
      have hthis : ((analyzeFunctions statics
          (a.declareClass name superclass).enterStatics).enterMethods name).outline.Covered
          ((site, name.lexeme) :: env) ((.receiver name.position, "this") :: pending) := by
        refine Outline.Covered.enterMethods ?_ name
        rw [outline_analyzeFunctions]
        exact hcovered
      have hawaits : ∀ u ∈ functionsAccesses methods,
          Awaits ds ((.receiver name.position, "this") :: pending) u := by
        intro u hmem b hb heq
        rcases List.mem_cons.mp hb with rfl | hb
        · exact .inl rfl
        · exact hu.2.2 u hmem b hb heq
      refine ⟨?_, functionsSettled hw statics
        (a := (a.declareClass name superclass).enterStatics) hwf.2 hcovered hu.2.1 hd.2.1 hstatics,
        functionsSettled hw methods hwf.1.2 hthis hawaits hd.2.2 hmethods⟩
      -- the superclass is read when the class is declared but not bound
      rintro t rfl
      obtain ⟨hne, v, hmem, rfl, houtline⟩ := Analysis.Accepted.declareClass hclass
      have hpending := hc.declare_pending hs name.lexeme
      rw [← houtline] at hpending
      refine hw (hpending.settled hmem ?_)
      intro b hb heq
      rcases List.mem_cons.mp hb with rfl | hb
      · exact absurd heq.symm hne
      · exact hu.1 _ List.mem_cons_self b hb heq

theorem stmtsSettled (hw : Suffices ds vs w) : ∀ (ss : List Stmt) {a : Analysis}
    {env pending : List Binding} {site : Site}, stmtsWellFormed ss = true →
    a.outline.Covered env pending → a.outline.In site →
    (∀ u ∈ stmtsAccesses ss, Awaits ds pending u) →
    stmtsDeclarations ss site ⊆ ds → (analyzeStmts ss a).Accepted vs →
    stmtsScoped w ss site env
  | [], _, _, _, _, _, _, _, _, _, _ => trivial
  | s :: ss, a, _, _, _, hwf, hc, hs, hu, hd, hv => by
      simp only [stmtsWellFormed, Bool.and_eq_true] at hwf
      simp only [stmtsAccesses, stmtsDeclarations, List.forall_mem_append,
        List.append_subset] at hu hd
      have hss := walked_stmts ss (analyzeStmt s a).at_place
      exact ⟨s.settled hw hwf.1 hc hs hu.1 hd.1 (hss.accepted hv),
        stmtsSettled hw ss hwf.2 (by rw [outline_analyzeStmt]; exact hc.declare hs _)
          (by rw [outline_analyzeStmt]; exact hs.declare _) hu.2 hd.2 hv⟩

theorem FunctionDecl.settled (hw : Suffices ds vs w) : ∀ (f : FunctionDecl) {a : Analysis}
    {env pending : List Binding},
    f.wellFormed = true → a.outline.Covered env pending →
    (∀ u ∈ f.accesses, Awaits ds pending u) → f.declarations ⊆ ds →
    (analyzeFunction f a).Accepted vs → f.Scoped w env
  | .mk name params body, a, _, _, hwf, hc, hu, hd, hv => by
      simp only [FunctionDecl.wellFormed, Bool.and_eq_true] at hwf
      rw [FunctionDecl.declarations, List.append_subset] at hd
      exact stmtsSettled hw body hwf.2 (hc.enterFunction _ params) (a.in_enterFunction _ params) hu
        hd.2 hv.leaveFunction

theorem functionsSettled (hw : Suffices ds vs w) : ∀ (fs : List FunctionDecl) {a : Analysis}
    {env pending : List Binding}, functionsWellFormed fs = true →
    a.outline.Covered env pending → (∀ u ∈ functionsAccesses fs, Awaits ds pending u) →
    functionsDeclarations fs ⊆ ds → (analyzeFunctions fs a).Accepted vs →
    functionsScoped w fs env
  | [], _, _, _, _, _, _, _, _ => trivial
  | f :: fs, a, _, _, hwf, hc, hu, hd, hv => by
      simp only [functionsWellFormed, Bool.and_eq_true] at hwf
      simp only [functionsAccesses, functionsDeclarations, List.forall_mem_append,
        List.append_subset] at hu hd
      have hfs := walked_functions fs (analyzeFunction f a).at_place
      exact ⟨f.settled hw hwf.1 hc hu.1 hd.1 (hfs.accepted hv),
        functionsSettled hw fs hwf.2 (by rw [outline_analyzeFunction]; exact hc) hu.2 hd.2 hv⟩

end

/-- All uses of names in a program without fault are settled. -/
theorem Program.settled (hw : Suffices ds vs w) {program : Program} {known : Distances}
    (hwf : program.wellFormed = true) (hd : program.declarations ⊆ ds)
    (hv : (Analysis.ofProgram program known).Accepted vs) :
    stmtsScoped w program .globals [] := by
  -- outside of all scopes nothing is declared, and nothing is pending
  have hcovered : ({ distances := known } : Analysis).outline.Covered [] [] :=
    fun _ hs => absurd hs List.not_mem_nil
  exact stmtsSettled hw program hwf hcovered (fun _ hs => nomatch hs)
    (fun _ _ _ hb => absurd hb List.not_mem_nil) hd hv

end Settled

end LoxLang
