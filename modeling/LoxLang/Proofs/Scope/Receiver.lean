import LoxLang.Proofs.Scope.Settled

/-!
# Where `this` is looked for

The analysis looks for `this` only inside of methods.  The innermost scope that declares it is
that around the methods of a class, and the scope within it is that of the method.

## Main definitions

* `InMethod` — some constructs, innermost first, lead out of a method.
* `Analysis.Seated` — `this` was looked for in methods only.

## Main results

* `Analysis.seated_ofProgram` — `this` is looked for in methods only.
* `InMethod.exists_distance` — in a method, `this` is found right outside of the method.
-/

namespace LoxLang

/-- Constructs that lead out of a method: blocks and functions within it, the method itself, and
then the class. -/
inductive InMethod : List Site → Prop
  /-- The method. -/
  | method (j k : Nat) (outer : List Site) : InMethod (.function j :: .receiver k :: outer)
  /-- A block. -/
  | block (j : Nat) {sites : List Site} (h : InMethod sites) : InMethod (.block j :: sites)
  /-- A function. -/
  | function (j : Nat) {sites : List Site} (h : InMethod sites) : InMethod (.function j :: sites)

/-- The constructs around a method, in parts. -/
theorem InMethod.exists_eq {sites : List Site} (h : InMethod sites) :
    ∃ inner j k outer, sites = inner ++ .function j :: .receiver k :: outer
      ∧ ∀ site ∈ inner, ∀ l, site ≠ .receiver l := by
  induction h with
  | method j k outer => exact ⟨[], j, k, outer, rfl, fun _ h => absurd h List.not_mem_nil⟩
  | block l _ ih =>
    obtain ⟨inner, j, k, outer, rfl, hinner⟩ := ih
    refine ⟨.block l :: inner, j, k, outer, rfl, List.forall_mem_cons.mpr ⟨fun _ h => ?_, hinner⟩⟩
    cases h
  | function l _ ih =>
    obtain ⟨inner, j, k, outer, rfl, hinner⟩ := ih
    refine ⟨.function l :: inner, j, k, outer, rfl,
      List.forall_mem_cons.mpr ⟨fun _ h => ?_, hinner⟩⟩
    cases h

/-- Of scopes that hold what their constructs declare, those around methods hold `this`. -/
theorem Visit.contains_this_iff {ds : List Declaration} {v : Visit} (hproper : v.outline.Proper ds)
    (hds : ∀ d ∈ ds, d.name.lexeme ≠ "this") {s : Scope} (hs : s ∈ v.scopes) :
    s.names.contains "this" = true ↔ ∃ k, s.site = .receiver k := by
  obtain ⟨hheld, hthis⟩ := hproper (s.site, s.names.contains) (List.mem_map_of_mem hs)
  refine ⟨fun hcontains => ?_, fun ⟨k, hk⟩ => hthis k hk⟩
  rcases hheld "this" hcontains with ⟨d, hd, -, heq⟩ | ⟨k, hk, -⟩ | ⟨-, heq⟩
  · exact absurd heq (hds d hd)
  · exact ⟨k, hk⟩
  · exact absurd heq (by decide)

/-- In a method, `this` is found right outside of the method. -/
theorem InMethod.exists_distance {ds : List Declaration} {v : Visit}
    (h : InMethod (v.scopes.map Scope.site)) (hproper : v.outline.Proper ds)
    (hds : ∀ d ∈ ds, d.name.lexeme ≠ "this") (hname : v.name.lexeme = "this") :
    ∃ inner j k outer, v.scopes.map Scope.site = inner ++ .function j :: .receiver k :: outer
      ∧ (∀ site ∈ inner, ∀ l, site ≠ .receiver l) ∧ v.distance = some (inner.length + 1) := by
  obtain ⟨inner, j, k, outer, hsites, hinner⟩ := h.exists_eq
  refine ⟨inner, j, k, outer, hsites, hinner, ?_⟩
  have hlength : v.scopes.length = inner.length + (outer.length + 2) := by
    simpa using congrArg List.length hsites
  have hsite : ∀ i (hi : i < v.scopes.length), some v.scopes[i].site
      = (inner ++ .function j :: .receiver k :: outer)[i]? := by
    intro i hi
    rw [← hsites, List.getElem?_map, List.getElem?_eq_getElem hi]
    rfl
  rw [Visit.distance, hname, List.findIdx?_eq_some_iff_getElem]
  refine ⟨by omega, ?_, fun i hi hcontains => ?_⟩
  · rw [Visit.contains_this_iff hproper hds (List.getElem_mem _)]
    refine ⟨k, Option.some.inj ?_⟩
    rw [hsite, List.getElem?_append_right (Nat.le_add_right _ 1), Nat.add_sub_cancel_left]
    rfl
  · obtain ⟨l, hl⟩ := (Visit.contains_this_iff hproper hds (List.getElem_mem _)).mp hcontains
    have hat := hsite i (by omega)
    rw [hl] at hat
    rcases Nat.lt_succ_iff_lt_or_eq.mp hi with hlt | rfl
    · rw [List.getElem?_append_left hlt, List.getElem?_eq_getElem hlt] at hat
      exact hinner _ (List.getElem_mem hlt) l (Option.some.inj hat).symm
    · rw [List.getElem?_append_right (Nat.le_refl _), Nat.sub_self] at hat
      cases hat

/-! ### Methods on the walk -/

/-- The constructs whose scopes are open. -/
def Analysis.sites (a : Analysis) : List Site := a.scopes.map Scope.site

/-- `this` was looked for in methods only. -/
def Analysis.SeatedVisits (a : Analysis) : Prop :=
  ∀ v ∈ a.visits.toList, v.name.kind = .kwThis → InMethod (v.scopes.map Scope.site)

/-- `this` was looked for in methods only, and the walk is in a method if it takes itself to be
in one. -/
structure Analysis.Seated (a : Analysis) : Prop where
  /-- The walk is in a method. -/
  place : a.classPlace = .method → InMethod a.sites
  /-- The visits. -/
  visits : a.SeatedVisits

namespace Analysis

variable {a b : Analysis} {occs : List Occurrence}

theorem sites_eq_of_walked (h : Walked a occs b) : b.sites = a.sites :=
  h.elim fun _ h => h.grown.map_site

theorem classPlace_eq_of_walked (h : Walked a occs b) : b.classPlace = a.classPlace :=
  h.elim fun _ h => congrArg (fun flags => flags.2.1) h.flags_eq

theorem SeatedVisits.of_eq (h : a.SeatedVisits) (hvisits : b.visits = a.visits) :
    b.SeatedVisits := by
  unfold SeatedVisits
  rw [hvisits]
  exact h

/-- A name that is looked for, if it is `this` then in a method. -/
theorem SeatedVisits.refer (h : a.SeatedVisits) {name : Token} {f : Local → Local}
    (hname : name.kind = .kwThis → InMethod a.sites) : (a.refer name f).SeatedVisits := by
  have hvisits : (a.refer name f).visits = a.visits.push ⟨name, a.scopes⟩ := by
    unfold Analysis.refer
    dsimp only
    split <;> rfl
  intro v hv hkind
  rw [hvisits, Array.toList_push] at hv
  rcases List.mem_append.mp hv with hv | hv
  · exact h v hv hkind
  · cases List.mem_singleton.mp hv
    exact hname hkind

/-- A name that is not `this`. -/
theorem SeatedVisits.refer_name (h : a.SeatedVisits) {name : Token} {f : Local → Local}
    (hname : name.kind = .identifier) : (a.refer name f).SeatedVisits := by
  refine h.refer fun hkind => ?_
  rw [hname] at hkind
  cases hkind

theorem SeatedVisits.read (h : a.SeatedVisits) {name : Token} (hname : name.kind = .identifier) :
    (a.read name).SeatedVisits :=
  refer_name (h.of_eq (visits_faultIf a _ _ _)) hname

namespace Seated

/-- A part of the walk comes back to where it began. -/
theorem of_walked (h : a.Seated) (hw : Walked a occs b) (hb : b.SeatedVisits) : b.Seated := by
  refine ⟨fun hplace => ?_, hb⟩
  rw [classPlace_eq_of_walked hw] at hplace
  rw [sites_eq_of_walked hw]
  exact h.place hplace

/-- A step that visits nothing. -/
theorem quiet (h : a.Seated) (hw : Walked a occs b) (hvisits : b.visits = a.visits) : b.Seated :=
  h.of_walked hw (h.visits.of_eq hvisits)

theorem faultIf (h : a.Seated) (condition : Bool) (cause : ScopeCause) (token : Token) :
    (a.faultIf condition cause token).Seated :=
  h.quiet (walked_faultIf a _ _ _) (visits_faultIf a _ _ _)

theorem declare (h : a.Seated) (name : Token) : (a.declare name).Seated :=
  h.quiet (walked_declare a name) (visits_declare a name)

/-- A name that was declared is completed. -/
theorem define (h : a.Seated) {name : Token} (hname : a.Declares name.lexeme) :
    (a.define name).Seated :=
  h.quiet (walked_define hname) (visits_update a name _)

theorem declareClass (h : a.Seated) (name : Token) {superclass : Option Token}
    (hsuperclass : ∀ t ∈ superclass, t.kind = .identifier) :
    (a.declareClass name superclass).Seated := by
  refine h.of_walked (walked_declareClass a.at_place) ?_
  have hname : ((a.declare name).define name).SeatedVisits :=
    ((h.declare name).define (declares_declare a name)).visits
  cases superclass with
  | none => exact hname
  | some t => exact SeatedVisits.read (hname.of_eq (visits_faultIf _ _ _ _)) (hsuperclass t rfl)

/-- A function, from where it can be the method of a class or is in a method already. -/
theorem enterFunction (h : a.SeatedVisits) (j : Nat) (params : List Token)
    (hplace : a.classPlace = .method → InMethod (.function j :: a.sites)) :
    (a.enterFunction (.function j) params).Seated := by
  have hparams := walked_declareParams params
    ({ a with inFunction := true, loopDepth := 0 }.openScope (.function j) .empty)
  refine ⟨fun hmethod => ?_, h.of_eq (visits_declareParams params _)⟩
  unfold Analysis.enterFunction at hmethod ⊢
  rw [classPlace_eq_of_walked hparams] at hmethod
  rw [sites_eq_of_walked hparams]
  exact hplace hmethod

end Seated

end Analysis

/-! ### The walk -/

mutual

/-- The walk over an expression. -/
theorem Expr.seated : ∀ (e : Expr) {a : Analysis}, e.wellFormed = true → a.Seated →
    (analyzeExpr e a).Seated
  | .literal _, _, _, h => h
  | .grouping e, _, hwf, h => e.seated hwf h
  | .unary _ e, _, hwf, h => by
      simp only [Expr.wellFormed, Bool.and_eq_true] at hwf
      exact e.seated hwf.1.2 h
  | .binary l _ r, _, hwf, h => by
      simp only [Expr.wellFormed, Bool.and_eq_true] at hwf
      exact r.seated hwf.1.2 (l.seated hwf.1.1.1.2 h)
  | .logical l _ r, _, hwf, h => by
      simp only [Expr.wellFormed, Bool.and_eq_true] at hwf
      exact r.seated hwf.1.2 (l.seated hwf.1.1.1.2 h)
  | .conditional c t e, _, hwf, h => by
      simp only [Expr.wellFormed, Bool.and_eq_true] at hwf
      exact e.seated hwf.1.2 (t.seated hwf.1.1.1.2 (c.seated hwf.1.1.1.1.1 h))
  | .assign name e, a, hwf, h => by
      simp only [Expr.wellFormed, Bool.and_eq_true, beq_iff_eq] at hwf
      have he := e.seated hwf.1.2 h
      exact he.of_walked (walked_refer _ (analyzeExpr e a).at_place)
        (he.visits.refer_name hwf.1.1)
  | .variable name, a, hwf, h =>
      h.of_walked (walked_read a.at_place) (h.visits.read (beq_iff_eq.mp hwf))
  | .call callee _ arguments, _, hwf, h => by
      simp only [Expr.wellFormed, Bool.and_eq_true] at hwf
      exact exprsSeated arguments hwf.2 (callee.seated hwf.1.1.1.1 h)
  | .get e _, _, hwf, h => by
      simp only [Expr.wellFormed, Bool.and_eq_true] at hwf
      exact e.seated hwf.1.1 h
  | .set e _ v, _, hwf, h => by
      simp only [Expr.wellFormed, Bool.and_eq_true] at hwf
      exact e.seated hwf.1.1.1.1 (v.seated hwf.1.2 h)
  | .this keyword, a, _, h => by
      refine h.of_walked (walked_this a.at_place) ?_
      unfold analyzeExpr Analysis.this
      split
      · exact h.visits.of_eq rfl
      · exact h.visits.of_eq rfl
      · next hplace => exact h.visits.refer fun _ => h.place hplace
  | .lambda keyword params body, a, hwf, h => by
      simp only [Expr.wellFormed, Bool.and_eq_true] at hwf
      have hbody := stmtsSeated body hwf.2
        (.enterFunction h.visits keyword.position params fun hplace => .function _ (h.place hplace))
      refine h.of_walked (walked_expr (.lambda keyword params body) a.at_place) ?_
      exact hbody.visits.of_eq (Analysis.visits_closeScope _)

theorem exprsSeated : ∀ (es : List Expr) {a : Analysis}, exprsWellFormed es = true → a.Seated →
    (analyzeExprs es a).Seated
  | [], _, _, h => h
  | e :: es, _, hwf, h => by
      simp only [exprsWellFormed, Bool.and_eq_true] at hwf
      exact exprsSeated es hwf.2 (e.seated hwf.1.1 h)

/-- The walk over a statement. -/
theorem Stmt.seated : ∀ (s : Stmt) {a : Analysis}, s.wellFormed = true → a.Seated →
    (analyzeStmt s a).Seated
  | .expression e, _, hwf, h => e.seated hwf h
  | .print e, _, hwf, h => e.seated hwf h
  | .var name none, a, _, h => (h.declare name).define (declares_declare a name)
  | .var name (some e), a, hwf, h => by
      simp only [Stmt.wellFormed, Bool.and_eq_true] at hwf
      have he := walked_expr e (a.declare name).at_place
      exact (e.seated hwf.2 (h.declare name)).define (he.declares (declares_declare a name))
  | .block position body, a, hwf, h => by
      have hopen : (a.openScope (.block position) .empty).Seated :=
        ⟨fun hplace => .block _ (h.place hplace), h.visits⟩
      refine h.of_walked (walked_stmt (.block position body) a.at_place) ?_
      exact (stmtsSeated body hwf hopen).visits.of_eq (Analysis.visits_closeScope _)
  | .ifElse c t none, _, hwf, h => by
      simp only [Stmt.wellFormed, Bool.and_eq_true] at hwf
      exact t.seated hwf.1.2 (c.seated hwf.1.1 h)
  | .ifElse c t (some e), _, hwf, h => by
      simp only [Stmt.wellFormed, Bool.and_eq_true] at hwf
      exact e.seated hwf.1.2 (t.seated hwf.1.1.1.1.2 (c.seated hwf.1.1.1.1.1 h))
  | .while c body none, a, hwf, h => by
      simp only [Stmt.wellFormed, Bool.and_eq_true] at hwf
      have hc := c.seated hwf.1.1 h
      have hbody := body.seated (a := (analyzeExpr c a).enterLoop) hwf.1.2 ⟨hc.place, hc.visits⟩
      exact ⟨hbody.place, hbody.visits⟩
  | .while c body (some i), a, hwf, h => by
      simp only [Stmt.wellFormed, Bool.and_eq_true] at hwf
      have hc := c.seated hwf.1.1.1 h
      have hbody := body.seated (a := (analyzeExpr c a).enterLoop) hwf.1.1.2 ⟨hc.place, hc.visits⟩
      have hi := i.seated hwf.2 hbody
      exact ⟨hi.place, hi.visits⟩
  | .break _, _, _, h => h.faultIf _ _ _
  | .continue _, _, _, h => h.faultIf _ _ _
  | .function f, a, hwf, h => by
      have hname := (h.declare f.name).define (declares_declare a f.name)
      refine hname.of_walked (walked_function f (Analysis.at_place _)) ?_
      exact f.seated hwf (fun hplace j => .function j (hname.place hplace)) hname.visits
  | .return _ none, _, _, h => h.faultIf _ _ _
  | .return _ (some e), _, hwf, h => by
      simp only [Stmt.wellFormed, Bool.and_eq_true] at hwf
      exact e.seated hwf.2 (h.faultIf _ _ _)
  | .classDecl name superclass methods statics, a, hwf, h => by
      have hwalked := walked_stmt (.classDecl name superclass methods statics) a.at_place
      simp only [Stmt.wellFormed, Bool.and_eq_true, Option.all_eq_true, beq_iff_eq] at hwf
      have hname := h.declareClass name hwf.1.1.2
      -- no method is around static methods, and the methods come right within the class
      have hstatics := functionsSeated statics
        (a := (a.declareClass name superclass).enterStatics) hwf.2 (fun hplace => nomatch hplace)
        hname.visits
      have hmethods := functionsSeated methods
        (a := (analyzeFunctions statics (a.declareClass name superclass).enterStatics).enterMethods
          name) hwf.1.2 (fun _ j => .method j _ _) hstatics
      exact h.of_walked hwalked (hmethods.of_eq (Analysis.visits_closeScope _))

theorem stmtsSeated : ∀ (ss : List Stmt) {a : Analysis}, stmtsWellFormed ss = true → a.Seated →
    (analyzeStmts ss a).Seated
  | [], _, _, h => h
  | s :: ss, _, hwf, h => by
      simp only [stmtsWellFormed, Bool.and_eq_true] at hwf
      exact stmtsSeated ss hwf.2 (s.seated hwf.1 h)

/-- The walk over a function that can be the method of a class. -/
theorem FunctionDecl.seated : ∀ (f : FunctionDecl) {a : Analysis}, f.wellFormed = true →
    (a.classPlace = .method → ∀ j, InMethod (.function j :: a.sites)) → a.SeatedVisits →
    (analyzeFunction f a).SeatedVisits
  | .mk name params body, _, hwf, hplace, h => by
      simp only [FunctionDecl.wellFormed, Bool.and_eq_true] at hwf
      have hbody := stmtsSeated body hwf.2
        (.enterFunction h name.position params fun hmethod => hplace hmethod _)
      exact hbody.visits.of_eq (Analysis.visits_closeScope _)

theorem functionsSeated : ∀ (fs : List FunctionDecl) {a : Analysis},
    functionsWellFormed fs = true →
    (a.classPlace = .method → ∀ j, InMethod (.function j :: a.sites)) → a.SeatedVisits →
    (analyzeFunctions fs a).SeatedVisits
  | [], _, _, _, h => h
  | f :: fs, a, hwf, hplace, h => by
      simp only [functionsWellFormed, Bool.and_eq_true] at hwf
      have hf := walked_function f a.at_place
      refine functionsSeated fs hwf.2 (fun hmethod j => ?_) (f.seated hwf.1 hplace h)
      rw [Analysis.classPlace_eq_of_walked hf] at hmethod
      rw [Analysis.sites_eq_of_walked hf]
      exact hplace hmethod j

end

/-- In a program, `this` is looked for in methods only. -/
theorem Analysis.seated_ofProgram {program : Program} (known : Distances)
    (hwf : program.wellFormed = true) : (Analysis.ofProgram program known).SeatedVisits := by
  have houtside : ({ distances := known } : Analysis).Seated := by
    refine ⟨fun hplace => ?_, fun _ hv => absurd hv List.not_mem_nil⟩
    cases hplace
  exact (stmtsSeated program hwf houtside).visits

end LoxLang
