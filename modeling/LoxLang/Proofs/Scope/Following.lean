import LoxLang.Proofs.Scope.Walk

/-!
# Programs that follow each other

The walk over a program does not look at what it found or visited before.  When it has come
to the end of one program it is at no place in particular: no scope is open, and neither a
function nor a class nor a loop is around.  So it goes on with another program as it would
begin with it, and a program that follows another is analyzed as if it were alone.

## Main definitions

* `Analysis.after` — the state of the walk with earlier findings and visits.

## Main results

* `analyzeStmts_after` — the walk does not look at earlier findings and visits.
* `Analysis.ofProgram_append` — the analysis of two programs, one after the other.
-/

namespace LoxLang

namespace Analysis

/-- The state of the walk as it is with earlier findings and visits. -/
def after (a : Analysis) (findings : Array Finding) (visits : Array Visit) : Analysis :=
  { a with findings := findings ++ a.findings, visits := visits ++ a.visits }

variable {fs : Array Finding} {vs : Array Visit}

/-! ### Steps -/

@[simp] theorem scopes_after (a : Analysis) : (a.after fs vs).scopes = a.scopes := rfl

@[simp] theorem inFunction_after (a : Analysis) : (a.after fs vs).inFunction = a.inFunction := rfl

@[simp] theorem loopDepth_after (a : Analysis) : (a.after fs vs).loopDepth = a.loopDepth := rfl

@[simp] theorem fault_after (a : Analysis) (cause : ScopeCause) (token : Token) :
    (a.after fs vs).fault cause token = (a.fault cause token).after fs vs := by
  simp only [fault, note, after, Array.append_push]

@[simp] theorem faultIf_after (a : Analysis) (condition : Bool) (cause : ScopeCause)
    (token : Token) :
    (a.after fs vs).faultIf condition cause token
      = (a.faultIf condition cause token).after fs vs := by
  cases condition with
  | true => exact fault_after a cause token
  | false => rfl

@[simp] theorem openScope_after (a : Analysis) (site : Site) (names : Table String Local) :
    (a.after fs vs).openScope site names = (a.openScope site names).after fs vs := rfl

@[simp] theorem closeScope_after (a : Analysis) :
    (a.after fs vs).closeScope = a.closeScope.after fs vs := by
  unfold closeScope
  rw [scopes_after]
  split
  · rfl
  · simp only [after, Array.append_assoc]

@[simp] theorem declare_after (a : Analysis) (name : Token) :
    (a.after fs vs).declare name = (a.declare name).after fs vs := by
  unfold declare
  rw [scopes_after]
  split
  · rfl
  · dsimp only
    rw [faultIf_after]
    rfl

@[simp] theorem update_after (a : Analysis) (name : Token) (f : Local → Local) :
    (a.after fs vs).update name f = (a.update name f).after fs vs := by
  unfold update
  rw [scopes_after]
  split
  · rfl
  · split <;> rfl

@[simp] theorem define_after (a : Analysis) (name : Token) :
    (a.after fs vs).define name = (a.define name).after fs vs := update_after a name _

@[simp] theorem declareParams_after (params : List Token) (a : Analysis) :
    params.foldl declareParam (a.after fs vs) = (params.foldl declareParam a).after fs vs := by
  induction params generalizing a with
  | nil => rfl
  | cons name params ih =>
    have hname : (a.after fs vs).declareParam name = (a.declareParam name).after fs vs := by
      unfold declareParam
      rw [declare_after, update_after]
    rw [List.foldl_cons, List.foldl_cons, hname, ih]

@[simp] theorem refer_after (a : Analysis) (name : Token) (f : Local → Local) :
    (a.after fs vs).refer name f = (a.refer name f).after fs vs := by
  have hvisit : (a.after fs vs).visit name = (a.visit name).after fs vs := by
    simp only [visit, after, Array.append_push]
  unfold refer
  dsimp only
  rw [hvisit, scopes_after]
  split <;> rfl

@[simp] theorem read_after (a : Analysis) (name : Token) :
    (a.after fs vs).read name = (a.read name).after fs vs := by
  have hdeclaring : (a.after fs vs).isDeclaring name.lexeme = a.isDeclaring name.lexeme := rfl
  unfold read use
  rw [hdeclaring, faultIf_after, refer_after]

@[simp] theorem this_after (a : Analysis) (keyword : Token) :
    (a.after fs vs).this keyword = (a.this keyword).after fs vs := by
  have hplace : (a.after fs vs).classPlace = a.classPlace := rfl
  unfold this use
  rw [hplace]
  split
  · exact fault_after a _ _
  · exact fault_after a _ _
  · exact refer_after a _ _

@[simp] theorem enterFunction_after (a : Analysis) (site : Site) (params : List Token) :
    (a.after fs vs).enterFunction site params = (a.enterFunction site params).after fs vs := by
  have hopen : { a.after fs vs with inFunction := true, loopDepth := 0 }.openScope site .empty
      = ({ a with inFunction := true, loopDepth := 0 }.openScope site .empty).after fs vs := rfl
  unfold enterFunction
  rw [hopen, declareParams_after]

@[simp] theorem leaveFunction_after (a outer : Analysis) :
    (a.after fs vs).leaveFunction (outer.after fs vs)
      = (a.leaveFunction outer).after fs vs := by
  unfold leaveFunction
  rw [closeScope_after]
  rfl

@[simp] theorem enterLoop_after (a : Analysis) :
    (a.after fs vs).enterLoop = a.enterLoop.after fs vs := rfl

@[simp] theorem leaveLoop_after (a : Analysis) :
    (a.after fs vs).leaveLoop = a.leaveLoop.after fs vs := rfl

@[simp] theorem declareClass_after (a : Analysis) (name : Token) (superclass : Option Token) :
    (a.after fs vs).declareClass name superclass
      = (a.declareClass name superclass).after fs vs := by
  unfold declareClass
  rw [declare_after, define_after]
  cases superclass with
  | none => rfl
  | some s => exact (congrArg (read · s) (faultIf_after _ _ _ _)).trans (read_after _ s)

@[simp] theorem enterStatics_after (a : Analysis) :
    (a.after fs vs).enterStatics = a.enterStatics.after fs vs := rfl

@[simp] theorem enterMethods_after (a : Analysis) (name : Token) :
    (a.after fs vs).enterMethods name = (a.enterMethods name).after fs vs := rfl

@[simp] theorem leaveClass_after (a outer : Analysis) :
    (a.after fs vs).leaveClass (outer.after fs vs) = (a.leaveClass outer).after fs vs := by
  unfold leaveClass
  rw [closeScope_after]
  rfl

end Analysis

/-! ### The walk -/

section Walk

variable {fs : Array Finding} {vs : Array Visit}

mutual

theorem analyzeExpr_after : ∀ (e : Expr) (a : Analysis),
    analyzeExpr e (a.after fs vs) = (analyzeExpr e a).after fs vs
  | .literal _, _ => rfl
  | .grouping e, a => by simp [analyzeExpr, analyzeExpr_after e a]
  | .unary _ e, a => by simp [analyzeExpr, analyzeExpr_after e a]
  | .binary l _ r, a => by simp [analyzeExpr, analyzeExpr_after l, analyzeExpr_after r]
  | .logical l _ r, a => by simp [analyzeExpr, analyzeExpr_after l, analyzeExpr_after r]
  | .conditional c t e, a => by
      simp [analyzeExpr, analyzeExpr_after c, analyzeExpr_after t, analyzeExpr_after e]
  | .assign name value, a => by simp [analyzeExpr, analyzeExpr_after value, Analysis.assign]
  | .variable name, a => a.read_after name
  | .call callee _ arguments, a => by
      simp [analyzeExpr, analyzeExpr_after callee, analyzeExprs_after arguments]
  | .get object _, a => by simp [analyzeExpr, analyzeExpr_after object]
  | .set object _ value, a => by
      simp [analyzeExpr, analyzeExpr_after value, analyzeExpr_after object]
  | .this keyword, a => a.this_after keyword
  | .lambda keyword params body, a => by simp [analyzeExpr, analyzeStmts_after body]

theorem analyzeExprs_after : ∀ (es : List Expr) (a : Analysis),
    analyzeExprs es (a.after fs vs) = (analyzeExprs es a).after fs vs
  | [], _ => rfl
  | e :: es, a => by simp [analyzeExprs, analyzeExpr_after e, analyzeExprs_after es]

theorem analyzeStmt_after : ∀ (s : Stmt) (a : Analysis),
    analyzeStmt s (a.after fs vs) = (analyzeStmt s a).after fs vs
  | .expression e, a => by simp [analyzeStmt, analyzeExpr_after e]
  | .print e, a => by simp [analyzeStmt, analyzeExpr_after e]
  | .var name none, a => by simp [analyzeStmt]
  | .var name (some e), a => by simp [analyzeStmt, analyzeExpr_after e]
  | .block position body, a => by simp [analyzeStmt, analyzeStmts_after body]
  | .ifElse c t none, a => by simp [analyzeStmt, analyzeExpr_after c, analyzeStmt_after t]
  | .ifElse c t (some e), a => by
      simp [analyzeStmt, analyzeExpr_after c, analyzeStmt_after t, analyzeStmt_after e]
  | .while c body none, a => by simp [analyzeStmt, analyzeExpr_after c, analyzeStmt_after body]
  | .while c body (some i), a => by
      simp [analyzeStmt, analyzeExpr_after c, analyzeStmt_after body, analyzeExpr_after i]
  | .break _, a => by simp [analyzeStmt]
  | .continue _, a => by simp [analyzeStmt]
  | .function decl, a => by simp [analyzeStmt, analyzeFunction_after decl]
  | .return _ none, a => by simp [analyzeStmt]
  | .return _ (some e), a => by simp [analyzeStmt, analyzeExpr_after e]
  | .classDecl name superclass methods statics, a => by
      simp [analyzeStmt, analyzeFunctions_after statics, analyzeFunctions_after methods]

theorem analyzeStmts_after : ∀ (ss : List Stmt) (a : Analysis),
    analyzeStmts ss (a.after fs vs) = (analyzeStmts ss a).after fs vs
  | [], _ => rfl
  | s :: ss, a => by simp [analyzeStmts, analyzeStmt_after s, analyzeStmts_after ss]

theorem analyzeFunction_after : ∀ (f : FunctionDecl) (a : Analysis),
    analyzeFunction f (a.after fs vs) = (analyzeFunction f a).after fs vs
  | .mk name params body, a => by simp [analyzeFunction, analyzeStmts_after body]

theorem analyzeFunctions_after : ∀ (functions : List FunctionDecl) (a : Analysis),
    analyzeFunctions functions (a.after fs vs) = (analyzeFunctions functions a).after fs vs
  | [], _ => rfl
  | f :: functions, a => by
      simp [analyzeFunctions, analyzeFunction_after f, analyzeFunctions_after functions]

end

end Walk

/-! ### Programs -/

theorem analyzeStmts_append (ss ss' : List Stmt) (a : Analysis) :
    analyzeStmts (ss ++ ss') a = analyzeStmts ss' (analyzeStmts ss a) := by
  induction ss generalizing a with
  | nil => rfl
  | cons s ss ih =>
    rw [List.cons_append, analyzeStmts, analyzeStmts]
    exact ih _

/-- At the end of a program the walk is at no place in particular. -/
theorem Analysis.ofProgram_eq_after (program : Program) (known : Distances) :
    Analysis.ofProgram program known
      = Analysis.after { distances := (Analysis.ofProgram program known).distances }
          (Analysis.ofProgram program known).findings
          (Analysis.ofProgram program known).visits := by
  obtain ⟨vs, hwalk⟩ := Analysis.walked_ofProgram program known
  have hscopes : (Analysis.ofProgram program known).scopes = [] :=
    List.forall₂_nil_left_iff.mp hwalk.grown
  have hflags := hwalk.flags_eq
  have hlost := hwalk.lost_eq
  generalize Analysis.ofProgram program known = a at hscopes hflags hlost
  obtain ⟨scopes, inFunction, classPlace, loopDepth, distances, findings, visits, lost⟩ := a
  simp only [flags, Prod.mk.injEq] at hflags hscopes hlost
  obtain ⟨rfl, rfl, rfl⟩ := hflags
  subst hscopes hlost
  simp only [after, Array.append_empty]

/-- A program that follows another is analyzed as if it were alone. -/
theorem Analysis.ofProgram_append (program program' : Program) (known : Distances) :
    Analysis.ofProgram (program ++ program') known
      = (Analysis.ofProgram program' (Analysis.ofProgram program known).distances).after
          (Analysis.ofProgram program known).findings
          (Analysis.ofProgram program known).visits := by
  have hsplit : Analysis.ofProgram (program ++ program') known
      = analyzeStmts program' (Analysis.ofProgram program known) :=
    analyzeStmts_append program program' _
  rw [hsplit, ofProgram_eq_after program known, analyzeStmts_after]
  rfl

end LoxLang
