import LoxLang.Proofs.Program.Recovery
import LoxLang.Proofs.Scope.Following
import LoxLang.Proofs.Scope.Names
import LoxLang.Proofs.Scope.Settled
import Mathlib.Data.List.Induction
import Mathlib.Logic.Function.Iterate

/-!
# Walking over a program again

The walk of the analysis gives back what it takes: whatever it comes upon, and whether or not
it finds faults, it leaves functions, classes, loops and scopes as it found them, and adds no
names to any scope but those that a statement declares in the innermost one.  It never looks
at the distances that are known.  At the outermost level, where no scope is open, it is after
a program in the state in which it was before it; so it says the same again when it walks over
the program again, and what it records then is what was recorded already.

## Main definitions

* `Stmt.ownName?` — the name that a declaration declares.
* `Gives` — what all results of a step of a reading have in common.
* `Analysis.Restores` — what the walk over a piece leaves as it was.
* `Analysis.Alike` — states of the walk that differ in the known distances.

## Main results

* `restores_expr`, `restores_stmt` — the walk leaves everything but names as it was.
* `Gives.declaration` — what is read as a declaration declares its own name at most.
* `Distances.record_record` — recording the same visits again changes nothing.
* `analyzeStmts_top`, `iterate_analyzeStmts` — the walk at the outermost level, once and again.
-/

namespace LoxLang

/-! ### What a statement declares -/

/-- The name that a statement declares itself, if it is a declaration. -/
def Stmt.ownName? : Stmt → Option String
  | .var name _ => some name.lexeme
  | .function f => some f.name.lexeme
  | .classDecl name _ _ _ => some name.lexeme
  | _ => none

/-- Whatever a step of a reading gives is as required, whether or not it records faults. -/
def Gives {α : Type} (P : α → Prop) (step : ReadM α) : Prop :=
  ∀ r a r', step r = .ok a r' → P a

namespace Gives

variable {α β : Type} {P : α → Prop} {Q : β → Prop} {step : ReadM α} {next : α → ReadM β}

theorem pure {a : α} (h : P a) : Gives P (Pure.pure a) := by
  rintro r _ _ ⟨⟩
  exact h

/-- What is given in the end depends on what the first step gives. -/
theorem bind (hstep : Gives P step) (hnext : ∀ a, P a → Gives Q (next a)) :
    Gives Q (step >>= next) := by
  intro r b r' h
  obtain ⟨a, r₁, ha, h⟩ := ReadM.bind_eq_ok h
  exact hnext a (hstep r a r₁ ha) r₁ b r' h

/-- What is given in the end does not depend on what the first step gives. -/
theorem after (hnext : ∀ a, Gives Q (next a)) : Gives Q (step >>= next) :=
  bind (P := fun _ => True) (fun _ _ _ _ => trivial) fun a _ => hnext a

theorem ite {c : Prop} [Decidable c] {step' : ReadM α} (h : Gives P step) (h' : Gives P step') :
    Gives P (if c then step else step') := by
  split
  · exact h
  · exact h'

/-- What is read as a statement declares nothing in the scope it stands in: its branches and
its body are read as statements too. -/
theorem statement (n : Nat) : Gives (fun s => s.declared = []) (readStatement n) := by
  induction n with
  | zero => rintro r s r' ⟨⟩
  | succ n ih =>
    have helse : Gives (fun e => ∀ s ∈ e, s.declared = []) (readElse (readStatement n)) := by
      unfold readElse
      refine after fun found => ite (ih.bind fun s hs => pure ?_) (pure ?_)
      · rintro _ ⟨⟩
        exact hs
      · rintro _ ⟨⟩
    rw [readStatement]
    refine after fun word => ?_
    cases word with
    | none => exact after fun _ => after fun _ => pure rfl
    | some word =>
      dsimp only
      split
      · -- a `for` loop is a `while` loop or a block
        refine after fun _ => after fun initializer => after fun _ => after fun _ =>
          after fun _ => after fun _ => ih.bind fun body hbody => pure ?_
        cases initializer with
        | none => exact hbody
        | some init => rfl
      · refine after fun _ => after fun _ => after fun _ => ih.bind fun t ht =>
          helse.bind fun e he => pure ?_
        cases e with
        | none => exact ht
        | some e => rw [Stmt.declared, ht, he e rfl, List.append_nil]
      · exact after fun _ => after fun _ => pure rfl
      · exact after fun _ => after fun _ => pure rfl
      · exact after fun _ => after fun _ => after fun _ => ih.bind fun body hbody => pure hbody
      · exact after fun _ => pure rfl
      · refine after fun _ => pure ?_
        split <;> rfl

theorem declarationBody (n : Nat) :
    Gives (fun s => s.declared = s.ownName?.toList) (declarationBody n) := by
  have hstatement : ∀ s : Stmt, s.declared = [] → s.declared = s.ownName?.toList := by
    intro s hs
    cases s with
    | var | function | classDecl => cases hs
    | _ => exact hs
  unfold LoxLang.declarationBody
  refine after fun _ => ite ?_ (after fun _ => ite ?_ (after fun _ => ite ?_ ?_))
  · exact after fun _ => after fun _ => after fun _ => after fun _ => after fun _ => pure rfl
  · exact after fun _ => after fun _ => pure rfl
  · exact after fun _ => after fun _ => after fun _ => pure rfl
  · exact fun r s r' h => hstatement s (statement n r s r' h)

/-- What is read as a declaration or a statement declares its own name at most. -/
theorem declaration (n : Nat) :
    Gives (fun s => ∀ t ∈ s, t.declared = t.ownName?.toList) (readDeclaration n) := by
  intro r s r' h t ht
  cases n with
  | zero => cases h
  | succ n =>
    rw [readDeclaration_succ] at h
    unfold recovering at h
    split at h
    · next hbody =>
      cases h
      cases ht
      exact declarationBody n _ _ _ hbody
    · cases h
      cases ht
    · cases h

end Gives

/-! ### What the walk leaves as it was -/

namespace Analysis

/-- What the walk over a piece leaves as it was, if the piece declares `names` in the scope it
stands in. -/
structure Restores (names : List String) (a b : Analysis) : Prop where
  /-- Whether the walk is in a function. -/
  inFunction_eq : b.inFunction = a.inFunction
  /-- Where it is with respect to classes. -/
  classPlace_eq : b.classPlace = a.classPlace
  /-- How many loops are open. -/
  loopDepth_eq : b.loopDepth = a.loopDepth
  /-- The walk does not lose track of scopes. -/
  lost_eq : b.lost = a.lost
  /-- How many scopes are open. -/
  length_eq : b.scopes.length = a.scopes.length
  /-- The names in all but the innermost scope. -/
  outer_eq : LoxLang.outline b.scopes.tail = LoxLang.outline a.scopes.tail
  /-- The innermost scope holds what it held, and `names`. -/
  inner : ∀ s ∈ a.scopes.head?, ∀ t ∈ b.scopes.head?, ∀ x,
    t.names.contains x ↔ s.names.contains x ∨ x ∈ names

theorem Restores.of_walked {a b : Analysis} {occs : List Occurrence} {names : List String}
    (hwalk : Walked a occs b) (hnames : b.outline = a.outline.declare names) :
    Restores names a b := by
  obtain ⟨vs, hwalk⟩ := hwalk
  have hflags := hwalk.flags_eq
  simp only [flags, Prod.mk.injEq] at hflags
  refine ⟨hflags.1, hflags.2.1, hflags.2.2, hwalk.lost_eq, hwalk.grown.length_eq.symm, ?_, ?_⟩
  · have htail := congrArg List.tail hnames
    rw [Outline.tail_declare] at htail
    simpa only [Analysis.outline, LoxLang.outline, List.map_tail] using htail
  · intro s hs t ht x
    unfold Analysis.outline at hnames
    generalize a.scopes = ss at hs hnames
    generalize b.scopes = ts at ht hnames
    cases ss with
    | nil => cases hs
    | cons s' ss =>
      cases ts with
      | nil => cases ht
      | cons t' ts =>
        cases hs
        cases ht
        have hholds : t.names.contains x = (s.names.contains x || names.contains x) :=
          congrArg (fun o => o.2 x) (List.cons.inj hnames).1
        rw [hholds, Bool.or_eq_true, List.contains_iff_mem]

end Analysis

/-- The walk over an expression adds no names. -/
theorem restores_expr (e : Expr) (a : Analysis) : a.Restores [] (analyzeExpr e a) :=
  .of_walked (walked_expr e a.at_place) (by rw [outline_analyzeExpr, Outline.declare_nil])

/-- The walk over a statement adds the names that the statement declares. -/
theorem restores_stmt (s : Stmt) (a : Analysis) : a.Restores s.declared (analyzeStmt s a) :=
  .of_walked (walked_stmt s a.at_place) (outline_analyzeStmt s a)

/-! ### Known distances play no part -/

namespace Analysis

/-- Two states of the walk that differ in the known distances only. -/
def Alike (a b : Analysis) : Prop := ∃ known, b = { a with distances := known }

namespace Alike

variable {a b c d : Analysis}

theorem fault (h : a.Alike b) (cause : ScopeCause) (token : Token) :
    (a.fault cause token).Alike (b.fault cause token) := by
  obtain ⟨known, rfl⟩ := h
  exact ⟨known, rfl⟩

theorem faultIf (h : a.Alike b) (condition : Bool) (cause : ScopeCause) (token : Token) :
    (a.faultIf condition cause token).Alike (b.faultIf condition cause token) := by
  cases condition with
  | true => exact h.fault cause token
  | false => exact h

theorem openScope (h : a.Alike b) (site : Site) (names : Table String Local) :
    (a.openScope site names).Alike (b.openScope site names) := by
  obtain ⟨known, rfl⟩ := h
  exact ⟨known, rfl⟩

theorem closeScope (h : a.Alike b) : a.closeScope.Alike b.closeScope := by
  obtain ⟨known, rfl⟩ := h
  refine ⟨known, ?_⟩
  unfold Analysis.closeScope
  dsimp only
  split <;> rfl

theorem declare (h : a.Alike b) (name : Token) : (a.declare name).Alike (b.declare name) := by
  obtain ⟨known, rfl⟩ := h
  refine ⟨known, ?_⟩
  unfold Analysis.declare
  dsimp only
  split
  · rfl
  · unfold Analysis.faultIf
    split <;> rfl

theorem update (h : a.Alike b) (name : Token) (f : Local → Local) :
    (a.update name f).Alike (b.update name f) := by
  obtain ⟨known, rfl⟩ := h
  refine ⟨known, ?_⟩
  unfold Analysis.update
  dsimp only
  split
  · rfl
  · split <;> rfl

theorem declareParams (h : a.Alike b) (params : List Token) :
    (params.foldl declareParam a).Alike (params.foldl declareParam b) := by
  induction params generalizing a b with
  | nil => exact h
  | cons name params ih => exact ih ((h.declare name).update name _)

/-- The one step that records a distance. -/
theorem refer (h : a.Alike b) (name : Token) (f : Local → Local) :
    (a.refer name f).Alike (b.refer name f) := by
  obtain ⟨known, rfl⟩ := h
  unfold Analysis.refer Analysis.visit
  dsimp only
  split
  · exact ⟨known, rfl⟩
  · next d scopes _ => exact ⟨known.insert name.position d, rfl⟩

theorem read (h : a.Alike b) (name : Token) : (a.read name).Alike (b.read name) := by
  have hdeclaring : b.isDeclaring name.lexeme = a.isDeclaring name.lexeme := by
    obtain ⟨known, rfl⟩ := h
    rfl
  unfold Analysis.read
  rw [hdeclaring]
  exact (h.faultIf _ _ _).refer name _

theorem this (h : a.Alike b) (keyword : Token) : (a.this keyword).Alike (b.this keyword) := by
  have hplace : b.classPlace = a.classPlace := by
    obtain ⟨known, rfl⟩ := h
    rfl
  unfold Analysis.this
  rw [hplace]
  split
  · exact h.fault _ _
  · exact h.fault _ _
  · exact h.refer _ _

theorem enterFunction (h : a.Alike b) (site : Site) (params : List Token) :
    (a.enterFunction site params).Alike (b.enterFunction site params) := by
  obtain ⟨known, rfl⟩ := h
  exact declareParams ⟨known, rfl⟩ params

theorem leaveFunction (h : a.Alike b) (houter : c.Alike d) :
    (a.leaveFunction c).Alike (b.leaveFunction d) := by
  obtain ⟨known, hclosed⟩ := h.closeScope
  obtain ⟨_, rfl⟩ := houter
  unfold Analysis.leaveFunction
  rw [hclosed]
  exact ⟨known, rfl⟩

theorem enterLoop (h : a.Alike b) : a.enterLoop.Alike b.enterLoop := by
  obtain ⟨known, rfl⟩ := h
  exact ⟨known, rfl⟩

theorem leaveLoop (h : a.Alike b) : a.leaveLoop.Alike b.leaveLoop := by
  obtain ⟨known, rfl⟩ := h
  exact ⟨known, rfl⟩

theorem declareClass (h : a.Alike b) (name : Token) (superclass : Option Token) :
    (a.declareClass name superclass).Alike (b.declareClass name superclass) := by
  have hname := (h.declare name).update name fun l => { l with defined := true }
  cases superclass with
  | none => exact hname
  | some s => exact (hname.faultIf _ _ _).read s

theorem enterStatics (h : a.Alike b) : a.enterStatics.Alike b.enterStatics := by
  obtain ⟨known, rfl⟩ := h
  exact ⟨known, rfl⟩

theorem enterMethods (h : a.Alike b) (name : Token) :
    (a.enterMethods name).Alike (b.enterMethods name) := by
  obtain ⟨known, rfl⟩ := h
  exact ⟨known, rfl⟩

theorem leaveClass (h : a.Alike b) (houter : c.Alike d) :
    (a.leaveClass c).Alike (b.leaveClass d) := by
  obtain ⟨known, hclosed⟩ := h.closeScope
  obtain ⟨_, rfl⟩ := houter
  unfold Analysis.leaveClass
  rw [hclosed]
  exact ⟨known, rfl⟩

end Alike

end Analysis

mutual

theorem alike_expr : ∀ (e : Expr) {a b : Analysis}, a.Alike b →
    (analyzeExpr e a).Alike (analyzeExpr e b)
  | .literal _, _, _, h => h
  | .grouping e, _, _, h => alike_expr e h
  | .unary _ e, _, _, h => alike_expr e h
  | .binary l _ r, _, _, h => alike_expr r (alike_expr l h)
  | .logical l _ r, _, _, h => alike_expr r (alike_expr l h)
  | .conditional c t e, _, _, h => alike_expr e (alike_expr t (alike_expr c h))
  | .assign name value, _, _, h => (alike_expr value h).refer name _
  | .variable name, _, _, h => h.read name
  | .call callee _ arguments, _, _, h => alike_exprs arguments (alike_expr callee h)
  | .get object _, _, _, h => alike_expr object h
  | .set object _ value, _, _, h => alike_expr object (alike_expr value h)
  | .this keyword, _, _, h => h.this keyword
  | .lambda _ params body, _, _, h =>
      (alike_stmts body (h.enterFunction _ params)).leaveFunction h

theorem alike_exprs : ∀ (es : List Expr) {a b : Analysis}, a.Alike b →
    (analyzeExprs es a).Alike (analyzeExprs es b)
  | [], _, _, h => h
  | e :: es, _, _, h => alike_exprs es (alike_expr e h)

theorem alike_stmt : ∀ (s : Stmt) {a b : Analysis}, a.Alike b →
    (analyzeStmt s a).Alike (analyzeStmt s b)
  | .expression e, _, _, h => alike_expr e h
  | .print e, _, _, h => alike_expr e h
  | .var name none, _, _, h => (h.declare name).update name _
  | .var name (some e), _, _, h => (alike_expr e (h.declare name)).update name _
  | .block _ body, _, _, h => (alike_stmts body (h.openScope _ _)).closeScope
  | .ifElse c t none, _, _, h => alike_stmt t (alike_expr c h)
  | .ifElse c t (some e), _, _, h => alike_stmt e (alike_stmt t (alike_expr c h))
  | .while c body none, _, _, h => (alike_stmt body (alike_expr c h).enterLoop).leaveLoop
  | .while c body (some i), _, _, h =>
      (alike_expr i (alike_stmt body (alike_expr c h).enterLoop)).leaveLoop
  | .break keyword, a, _, h => by
      have hstray := h.faultIf (a.loopDepth == 0) .strayBreak keyword
      obtain ⟨_, rfl⟩ := h
      exact hstray
  | .continue keyword, a, _, h => by
      have hstray := h.faultIf (a.loopDepth == 0) .strayContinue keyword
      obtain ⟨_, rfl⟩ := h
      exact hstray
  | .function decl, _, _, h =>
      alike_function decl ((h.declare decl.name).update decl.name _)
  | .return keyword none, a, _, h => by
      have hstray := h.faultIf (!a.inFunction) .strayReturn keyword
      obtain ⟨_, rfl⟩ := h
      exact hstray
  | .return keyword (some e), a, _, h => by
      have hstray := h.faultIf (!a.inFunction) .strayReturn keyword
      obtain ⟨_, rfl⟩ := h
      exact alike_expr e hstray
  | .classDecl name superclass methods statics, _, _, h => by
      have hstatics := alike_functions statics (h.declareClass name superclass).enterStatics
      exact (alike_functions methods (hstatics.enterMethods name)).leaveClass h

theorem alike_stmts : ∀ (ss : List Stmt) {a b : Analysis}, a.Alike b →
    (analyzeStmts ss a).Alike (analyzeStmts ss b)
  | [], _, _, h => h
  | s :: ss, _, _, h => alike_stmts ss (alike_stmt s h)

theorem alike_function : ∀ (f : FunctionDecl) {a b : Analysis}, a.Alike b →
    (analyzeFunction f a).Alike (analyzeFunction f b)
  | .mk _ params body, _, _, h => (alike_stmts body (h.enterFunction _ params)).leaveFunction h

theorem alike_functions : ∀ (fs : List FunctionDecl) {a b : Analysis}, a.Alike b →
    (analyzeFunctions fs a).Alike (analyzeFunctions fs b)
  | [], _, _, h => h
  | f :: fs, _, _, h => alike_functions fs (alike_function f h)

end

/-! ### Recording again -/

namespace Distances

theorem contains_recordVisit (known : Distances) (v : Visit) (k : Nat) :
    (known.recordVisit v).contains k
      = (known.contains k || v.distance.isSome && v.name.position == k) := by
  unfold recordVisit
  cases v.distance with
  | none => simp
  | some d =>
    dsimp only
    rw [Table.contains_insert, Bool.or_comm]
    simp [Bool.beq_eq_decide_eq]

/-- What is recorded once is known from then on. -/
theorem contains_record (known : Distances) (vs : List Visit) (k : Nat) :
    (known.record vs).contains k
      = (known.contains k || vs.any fun v => v.distance.isSome && v.name.position == k) := by
  induction vs generalizing known with
  | nil => simp [record]
  | cons v vs ih =>
    rw [record, List.foldl_cons, ← record, ih, contains_recordVisit, List.any_cons, Bool.or_assoc]

/-- If all that is recorded was known before, then it does not matter whether a distance that
is recorded at the end is recorded at the beginning too. -/
theorem insert_record_insert {known : Distances} {vs : List Visit} (k d : Nat)
    (h : ∀ v ∈ vs, v.distance.isSome → known.contains v.name.position) :
    (record (known.insert k d) vs).insert k d = (known.record vs).insert k d := by
  induction vs generalizing known with
  | nil => exact Table.insert_insert_self known k d d
  | cons v vs ih =>
    obtain ⟨hv, hvs⟩ := List.forall_mem_cons.mp h
    simp only [record, List.foldl_cons] at ih ⊢
    unfold recordVisit
    cases hd : v.distance with
    | none => exact ih hvs
    | some e =>
      dsimp only
      by_cases hk : v.name.position = k
      · -- the distance from the beginning is lost at once
        rw [hk, Table.insert_insert_self]
      · rw [Table.insert_insert_comm hk e d (hv (by rw [hd]; rfl))]
        refine ih fun w hw hsome => ?_
        rw [Table.contains_insert, hvs w hw hsome, Bool.or_true]

/-- Recording the same visits again changes nothing, even if positions are visited twice. -/
theorem record_record (known : Distances) (vs : List Visit) :
    (known.record vs).record vs = known.record vs := by
  induction vs using List.reverseRecOn with
  | nil => rfl
  | append_singleton vs v ih =>
    have hlast : ∀ t : Distances, t.record (vs ++ [v]) = (t.record vs).recordVisit v := fun t =>
      t.record_append vs [v]
    rw [hlast, hlast]
    unfold recordVisit
    cases v.distance with
    | none => exact ih
    | some d =>
      dsimp only
      rw [insert_record_insert, ih]
      intro w hw hsome
      rw [contains_record, Bool.or_eq_true, List.any_eq_true]
      exact .inr ⟨w, hw, by simp [hsome]⟩

theorem iterate_record (known : Distances) (vs : List Visit) (n : Nat) :
    (fun t : Distances => t.record vs)^[n + 1] known = known.record vs := by
  induction n with
  | zero => rfl
  | succ n ih => rw [Function.iterate_succ_apply', ih, record_record]

end Distances

/-! ### The walk at the outermost level -/

/-- Where no scope is open, the walk over a program comes back to the state it was in, apart
from what it adds. -/
theorem analyzeStmts_eq (program : Program) {a : Analysis} (hscopes : a.scopes = [])
    (hvisits : a.visits = #[]) :
    analyzeStmts program a
      = { a with
          distances := a.distances.record (analyzeStmts program a).visits.toList
          findings := (analyzeStmts program a).findings
          visits := (analyzeStmts program a).visits } := by
  obtain ⟨vs, hwalk⟩ := walked_stmts program a.at_place
  have hopen : (analyzeStmts program a).scopes = a.scopes := by
    have hgrown := hwalk.grown
    rw [hscopes] at hgrown ⊢
    exact List.forall₂_nil_left_iff.mp hgrown
  have hrecord := hwalk.distances_eq
  have hvs : vs = (analyzeStmts program a).visits.toList := by
    rw [hwalk.visits_eq, hvisits]
    rfl
  rw [hvs] at hrecord
  have hflags := hwalk.flags_eq
  have hlost := hwalk.lost_eq
  generalize analyzeStmts program a = b at hopen hrecord hflags hlost
  obtain ⟨scopes, inFunction, classPlace, loopDepth, distances, findings, visits, lost⟩ := b
  simp only [Analysis.flags, Prod.mk.injEq] at hflags hopen hrecord hlost
  obtain ⟨rfl, rfl, rfl⟩ := hflags
  subst hopen hrecord hlost
  rfl

/-- What the walk adds where no scope is open does not depend on what was known, found and
looked for before. -/
theorem analyzeStmts_top (program : Program) {a : Analysis} (h : a.scopes = []) :
    ∃ (fs : Array Finding) (vs : Array Visit), ∀ known findings visits,
      analyzeStmts program { a with distances := known, findings, visits }
        = { a with
            distances := known.record vs.toList
            findings := findings ++ fs
            visits := visits ++ vs } := by
  let start (known : Distances) : Analysis :=
    { a with distances := known, findings := #[], visits := #[] }
  refine ⟨(analyzeStmts program (start .empty)).findings,
    (analyzeStmts program (start .empty)).visits, fun known findings visits => ?_⟩
  obtain ⟨_, halike⟩ : (analyzeStmts program (start .empty)).Alike
      (analyzeStmts program (start known)) := alike_stmts program ⟨known, rfl⟩
  have hafter : analyzeStmts program ((start known).after findings visits)
      = (analyzeStmts program (start known)).after findings visits := analyzeStmts_after program _
  rw [analyzeStmts_eq program (a := start known) h rfl, halike] at hafter
  simpa only [Analysis.after, Array.append_empty, start] using hafter

/-- Walking over a program any number of times records what walking over it once does, and says
the same each time. -/
theorem iterate_analyzeStmts (program : Program) {a : Analysis} (h : a.scopes = []) :
    ∃ fs : List Finding, ∀ n,
      ((analyzeStmts program)^[n + 1] a).distances = (analyzeStmts program a).distances
        ∧ ((analyzeStmts program)^[n] a).findings.toList
          = a.findings.toList ++ (List.replicate n fs).flatten := by
  obtain ⟨fs, vs, hwalk⟩ := analyzeStmts_top program h
  have hiterate : ∀ n, ∃ findings visits, (analyzeStmts program)^[n] a
      = { a with
          distances := (fun t : Distances => t.record vs.toList)^[n] a.distances
          findings, visits }
        ∧ findings.toList = a.findings.toList ++ (List.replicate n fs.toList).flatten := by
    intro n
    induction n with
    | zero => exact ⟨a.findings, a.visits, rfl, (List.append_nil _).symm⟩
    | succ n ih =>
      obtain ⟨findings, visits, heq, hfindings⟩ := ih
      refine ⟨findings ++ fs, visits ++ vs, ?_, ?_⟩
      · rw [Function.iterate_succ_apply', heq, hwalk, Function.iterate_succ_apply']
      · rw [Array.toList_append, hfindings, List.replicate_succ', List.flatten_concat,
          List.append_assoc]
  refine ⟨fs.toList, fun n => ⟨?_, ?_⟩⟩
  · obtain ⟨findings, visits, heq, -⟩ := hiterate (n + 1)
    rw [heq, hwalk a.distances a.findings a.visits]
    exact Distances.iterate_record a.distances vs.toList n
  · obtain ⟨findings, visits, heq, hfindings⟩ := hiterate n
    rw [heq]
    exact hfindings

end LoxLang
