import LoxLang.Proofs.Program.Descent
import LoxLang.Token.Lexer

/-!
# Progress and recovery

A reading only goes forward: a step takes tokens off the front of the rest and adds faults to
those that were recorded.  A step that stops has just recorded a fault at the token where the
reading stands.  And what a step comes to does not depend on the bound on the depth, unless the
bound is what stopped it.  All three are said at once by `Steady`, for a step and the same step
within a greater depth, and hold of every function of the descent within any depth.

A fault does not leave the declaration in which it was noticed.  Reading goes on behind it, so
every declaration takes a token at least, and the reading of a program comes to the end of the
text.

## Main definitions

* `Reading.Precedes` — a reading goes forward.
* `Reading.Raised` — a reading was stopped by a fault.
* `Reading.StandsAt` — the number of tokens that have been read.
* `Reading.ComesTo`, `Steady`, `DescentSteady` — what is known of a step, and of all functions of
  the descent.
* `declarationBody` — a declaration without recovery.

## Main results

* `descentSteady` — the descent, within any depth.
* `readBlock_raised` — a block ends with a fault only where the text ends.
* `readDeclaration_progress` — a declaration takes a token at least.
* `Program.reading_contained` — **reading comes to its end, and faults are contained.**
-/

namespace LoxLang

variable {α β : Type}

/-! ### Readings that go forward -/

namespace Reading

/-- A reading goes forward: tokens are read, and faults are recorded. -/
structure Precedes (r r' : Reading) : Prop where
  /-- Some tokens have been read. -/
  rest : r'.rest <:+ r.rest
  /-- The text ends as before. -/
  final_eq : r'.final = r.final
  /-- Some faults have been recorded. -/
  faults : r.faults.toList <+: r'.faults.toList

/-- A reading was stopped by a fault, which was recorded at the token where it stands. -/
def Raised (r r' : Reading) : Prop :=
  ∃ r₁ cause, r.Precedes r₁ ∧ r' = r₁.record r₁.next cause

namespace Precedes

variable {r r' r'' : Reading}

theorem refl (r : Reading) : r.Precedes r := ⟨List.suffix_rfl, rfl, List.prefix_rfl⟩

theorem trans (h : r.Precedes r') (h' : r'.Precedes r'') : r.Precedes r'' :=
  ⟨h'.rest.trans h.rest, h'.final_eq.trans h.final_eq, h.faults.trans h'.faults⟩

/-- A fault that is recorded. -/
theorem record (r : Reading) (token : Token) (cause : SyntaxCause) :
    r.Precedes (r.record token cause) := by
  refine ⟨List.suffix_rfl, rfl, ?_⟩
  rw [Reading.record, Array.toList_push]
  exact List.prefix_append _ _

/-- Tokens that are read. -/
theorem skip {rest : List Token} (h : rest <:+ r.rest) : r.Precedes { r with rest } :=
  ⟨h, rfl, List.prefix_rfl⟩

theorem take {t : Token} {ts : List Token} (h : r.rest = t :: ts) :
    r.Precedes { r with rest := ts } := by
  refine skip ?_
  rw [h]
  exact List.suffix_cons t ts

theorem raised (h : r.Precedes r') (h' : r'.Raised r'') : r.Raised r'' := by
  obtain ⟨r₁, cause, hr₁, heq⟩ := h'
  exact ⟨r₁, cause, h.trans hr₁, heq⟩

end Precedes

theorem Raised.precedes {r r' : Reading} (h : r.Raised r') : r.Precedes r' := by
  obtain ⟨r₁, cause, hr₁, rfl⟩ := h
  exact hr₁.trans (.record r₁ _ cause)

theorem Raised.failNext (r : Reading) (cause : SyntaxCause) :
    r.Raised (r.record r.next cause) := ⟨r, cause, .refl r, rfl⟩

end Reading

/-! ### Steady steps -/

/-- From a reading one comes to a result and has gone forward, or one is stopped by a fault that
has just been recorded; and it is the same in another way.  Nothing is said of what went too
deep. -/
def Reading.ComesTo (r : Reading) : (x y : EStateM.Result ReadStop Reading α) → Prop
  | .ok a r', y => y = .ok a r' ∧ r.Precedes r'
  | .error .fault r', y => y = .error .fault r' ∧ r.Raised r'
  | .error .tooDeep _, _ => True

/-- What follows when a reading has gone forward. -/
theorem Reading.Precedes.comesTo {r r₁ : Reading} {x y : EStateM.Result ReadStop Reading α}
    (h : r.Precedes r₁) (hx : r₁.ComesTo x y) : r.ComesTo x y := by
  cases x with
  | ok a r' => exact ⟨hx.1, h.trans hx.2⟩
  | error stop r' =>
    cases stop with
    | fault => exact ⟨hx.1, h.raised hx.2⟩
    | tooDeep => trivial

/-- A step goes forward or stops with a fault that it has just recorded; its counterpart, which
may go deeper, does the same. -/
def Steady (x y : ReadM α) : Prop := ∀ r : Reading, r.ComesTo (x r) (y r)

namespace Steady

variable {x y x' y' : ReadM α} {r r' : Reading}

theorem ok (h : Steady x y) {a : α} (hx : x r = .ok a r') : y r = .ok a r' ∧ r.Precedes r' := by
  have hr := h r
  rw [hx] at hr
  exact hr

theorem fault (h : Steady x y) (hx : x r = .error .fault r') :
    y r = .error .fault r' ∧ r.Raised r' := by
  have hr := h r
  rw [hx] at hr
  exact hr

/-- A step that depends on no bound. -/
theorem of_ok {x : ReadM α} (h : ∀ r, ∃ a r', x r = .ok a r' ∧ r.Precedes r') : Steady x x := by
  intro r
  obtain ⟨a, r', hx, hr⟩ := h r
  rw [hx]
  exact ⟨rfl, hr⟩

theorem pure (a : α) : Steady (Pure.pure a) (Pure.pure a) := of_ok fun r => ⟨a, r, rfl, .refl r⟩

theorem tooDeep : Steady tooDeep y := fun _ => trivial

/-- Steps that follow each other. -/
theorem bind {next next' : α → ReadM β} (h : Steady x y)
    (hnext : ∀ a, Steady (next a) (next' a)) : Steady (x >>= next) (y >>= next') := by
  intro r
  cases hx : x r with
  | ok a r₁ =>
    obtain ⟨hy, hr₁⟩ := h.ok hx
    simp only [Bind.bind, EStateM.bind, hx, hy]
    exact hr₁.comesTo (hnext a r₁)
  | error stop r₁ =>
    cases stop with
    | fault =>
      obtain ⟨hy, hr₁⟩ := h.fault hx
      simp only [Bind.bind, EStateM.bind, hx, hy]
      exact ⟨rfl, hr₁⟩
    | tooDeep =>
      simp only [Bind.bind, EStateM.bind, hx]
      trivial

theorem ite {c : Prop} [Decidable c] (h : Steady x y) (h' : Steady x' y') :
    Steady (if c then x else x') (if c then y else y') := by
  by_cases hc : c
  · rw [if_pos hc, if_pos hc]
    exact h
  · rw [if_neg hc, if_neg hc]
    exact h'

/-- Recovery turns a fault into the lack of a declaration. -/
theorem recovering {x y : ReadM Stmt} (h : Steady x y) :
    Steady (recovering x) (LoxLang.recovering y) := by
  intro r
  cases hx : x r with
  | ok stmt r' =>
    obtain ⟨hy, hr'⟩ := h.ok hx
    simp only [LoxLang.recovering, hx, hy]
    exact ⟨rfl, hr'⟩
  | error stop r' =>
    cases stop with
    | fault =>
      obtain ⟨hy, hr'⟩ := h.fault hx
      have hresume : resume r'.rest <:+ r'.rest :=
        (resume_suffix r'.rest).trans (List.tail_suffix r'.rest)
      simp only [LoxLang.recovering, hx, hy]
      exact ⟨rfl, hr'.precedes.trans (.skip hresume)⟩
    | tooDeep =>
      simp only [LoxLang.recovering, hx]
      trivial

/-! #### Looking at the next token, and taking it -/

theorem nextIs (kind : TokenKind) : Steady (nextIs kind) (LoxLang.nextIs kind) :=
  of_ok fun r => ⟨_, r, rfl, .refl r⟩

theorem atEnd : Steady atEnd LoxLang.atEnd := of_ok fun r => ⟨_, r, rfl, .refl r⟩

theorem blockEnds : Steady blockEnds LoxLang.blockEnds := of_ok fun r => ⟨_, r, rfl, .refl r⟩

theorem startsFunction : Steady startsFunction LoxLang.startsFunction := by
  refine of_ok fun r => ?_
  unfold LoxLang.startsFunction
  split
  · exact ⟨_, r, rfl, .refl r⟩
  · exact ⟨_, r, rfl, .refl r⟩

theorem accept (kind : TokenKind) : Steady (accept kind) (LoxLang.accept kind) := by
  refine of_ok fun r => ?_
  unfold LoxLang.accept
  split
  · exact ⟨_, r, rfl, .refl r⟩
  · next t ts hrest =>
    split
    · exact ⟨_, _, rfl, .take hrest⟩
    · exact ⟨_, r, rfl, .refl r⟩

theorem acceptAny (kinds : List TokenKind) : Steady (accept? kinds) (accept? kinds) := by
  refine of_ok fun r => ?_
  unfold accept?
  split
  · exact ⟨_, r, rfl, .refl r⟩
  · next t ts hrest =>
    split
    · exact ⟨_, _, rfl, .take hrest⟩
    · exact ⟨_, r, rfl, .refl r⟩

theorem failNext (cause : SyntaxCause) :
    Steady (failNext cause : ReadM α) (LoxLang.failNext cause) :=
  fun r => ⟨rfl, .failNext r cause⟩

theorem require (kind : TokenKind) (cause : SyntaxCause) :
    Steady (require kind cause) (LoxLang.require kind cause) := by
  intro r
  cases hrest : r.rest with
  | nil =>
    simp only [LoxLang.require, hrest]
    exact failNext cause r
  | cons t ts =>
    by_cases hk : t.kind == kind
    · simp only [LoxLang.require, hrest, if_pos hk]
      exact ⟨rfl, .take hrest⟩
    · simp only [LoxLang.require, hrest, if_neg hk]
      exact failNext cause r

theorem requireName (thing : NamedThing) :
    Steady (requireName thing) (LoxLang.requireName thing) := require _ _

theorem requireMark (place : MarkPlace) :
    Steady (requireMark place) (LoxLang.requireMark place) := require _ _

theorem recordNext (cause : SyntaxCause) : Steady (recordNext cause) (LoxLang.recordNext cause) :=
  of_ok fun r => ⟨_, _, rfl, .record r _ cause⟩

theorem recordAt (token : Token) (cause : SyntaxCause) :
    Steady (recordAt token cause) (LoxLang.recordAt token cause) :=
  of_ok fun r => ⟨_, _, rfl, .record r token cause⟩

end Steady

/-! ### Parts that need no descent -/

section Parts

variable {n n' : Nat} {expr expr' : Level → ReadM Expr} {statement statement' : ReadM Stmt}
  {block block' : ReadM (List Stmt)}
  {members members' : ReadM (List FunctionDecl × List FunctionDecl)}

theorem checkRoom_steady (list : BoundedList) (length : Nat) :
    Steady (checkRoom list length) (checkRoom list length) :=
  .ite (.recordNext _) (.pure ())

theorem readParametersFrom_steady (hn : n ≤ n') (params : List Token) :
    Steady (readParametersFrom n params) (readParametersFrom n' params) := by
  induction n generalizing n' params with
  | zero => exact .tooDeep
  | succ n ih =>
    obtain ⟨k, rfl⟩ := Nat.exists_eq_add_of_le' hn
    rw [readParametersFrom, ← Nat.add_assoc, readParametersFrom]
    refine (checkRoom_steady _ _).bind fun _ => (Steady.requireName _).bind fun param => ?_
    refine (Steady.accept _).bind fun _ => .ite (ih (by omega) _) ?_
    exact (Steady.requireMark _).bind fun _ => .pure _

theorem readParameters_steady (hn : n ≤ n') : Steady (readParameters n) (readParameters n') := by
  refine (Steady.nextIs _).bind fun _ => .ite ?_ (readParametersFrom_steady hn [])
  exact (Steady.requireMark _).bind fun _ => .pure _

theorem assignTo_steady (target : Expr) (equals : Token) (value : Expr) :
    Steady (assignTo target equals value) (assignTo target equals value) := by
  unfold assignTo
  split
  · exact .pure _
  · exact .pure _
  · exact (Steady.recordAt _ _).bind fun _ => .pure _

theorem readBranches_steady (hexpr : ∀ level, Steady (expr level) (expr' level))
    (condition : Expr) : Steady (readBranches expr condition) (readBranches expr' condition) := by
  refine (Steady.accept _).bind fun _ => .ite ?_ (.pure _)
  refine (hexpr _).bind fun whenTrue => (Steady.requireMark _).bind fun _ => ?_
  exact (hexpr _).bind fun whenFalse => .pure _

theorem readAssigned_steady (hexpr : ∀ level, Steady (expr level) (expr' level)) (target : Expr) :
    Steady (readAssigned expr target) (readAssigned expr' target) := by
  refine (Steady.acceptAny _).bind fun equals => ?_
  cases equals with
  | none => exact .pure _
  | some equals => exact (hexpr _).bind fun value => assignTo_steady _ _ _

theorem readFunction_steady (hn : n ≤ n') (hblock : Steady block block') (role : FunctionRole) :
    Steady (readFunction n block role) (readFunction n' block' role) := by
  refine (Steady.requireName _).bind fun name => (Steady.nextIs _).bind fun bare => .ite ?_ ?_
  · exact (Steady.requireMark _).bind fun _ => hblock.bind fun body => .pure _
  · refine (Steady.requireMark _).bind fun _ => (readParameters_steady hn).bind fun params => ?_
    exact (Steady.requireMark _).bind fun _ => hblock.bind fun body => .pure _

theorem readExpressionStatement_steady (hexpr : ∀ level, Steady (expr level) (expr' level)) :
    Steady (readExpressionStatement expr) (readExpressionStatement expr') :=
  (hexpr _).bind fun _ => (Steady.requireMark _).bind fun _ => .pure _

theorem readIfMarked_steady (hexpr : ∀ level, Steady (expr level) (expr' level))
    (mark : TokenKind) : Steady (readIfMarked mark expr) (readIfMarked mark expr') :=
  (Steady.accept _).bind fun _ => .ite ((hexpr _).bind fun _ => .pure _) (.pure _)

theorem readVariable_steady (hexpr : ∀ level, Steady (expr level) (expr' level)) :
    Steady (readVariable expr) (readVariable expr') := by
  refine (Steady.requireName _).bind fun name => (readIfMarked_steady hexpr _).bind fun _ => ?_
  exact (Steady.requireMark _).bind fun _ => .pure _

theorem readUnless_steady (hexpr : ∀ level, Steady (expr level) (expr' level)) (mark : TokenKind) :
    Steady (readUnless mark expr) (readUnless mark expr') :=
  (Steady.nextIs _).bind fun _ => .ite (.pure _) ((hexpr _).bind fun _ => .pure _)

theorem readClause_steady (hexpr : ∀ level, Steady (expr level) (expr' level)) :
    Steady (readClause expr) (readClause expr') := by
  refine (Steady.accept _).bind fun _ => .ite (.pure _) ?_
  refine (Steady.accept _).bind fun _ => .ite ?_ ?_
  · exact (readVariable_steady hexpr).bind fun _ => .pure _
  · exact (readExpressionStatement_steady hexpr).bind fun _ => .pure _

theorem readFor_steady (hexpr : ∀ level, Steady (expr level) (expr' level))
    (hstatement : Steady statement statement') (keyword : Token) :
    Steady (readFor expr statement keyword) (readFor expr' statement' keyword) := by
  refine (Steady.requireMark _).bind fun _ => (readClause_steady hexpr).bind fun initializer => ?_
  refine (readUnless_steady hexpr _).bind fun condition => (Steady.requireMark _).bind fun _ => ?_
  refine (readUnless_steady hexpr _).bind fun increment => (Steady.requireMark _).bind fun _ => ?_
  exact hstatement.bind fun body => .pure _

theorem readElse_steady (hstatement : Steady statement statement') :
    Steady (readElse statement) (readElse statement') :=
  (Steady.accept _).bind fun _ => .ite (hstatement.bind fun _ => .pure _) (.pure _)

theorem readIf_steady (hexpr : ∀ level, Steady (expr level) (expr' level))
    (hstatement : Steady statement statement') :
    Steady (readIf expr statement) (readIf expr' statement') := by
  refine (Steady.requireMark _).bind fun _ => (hexpr _).bind fun condition => ?_
  refine (Steady.requireMark _).bind fun _ => hstatement.bind fun whenTrue => ?_
  exact (readElse_steady hstatement).bind fun whenFalse => .pure _

theorem readWhile_steady (hexpr : ∀ level, Steady (expr level) (expr' level))
    (hstatement : Steady statement statement') :
    Steady (readWhile expr statement) (readWhile expr' statement') := by
  refine (Steady.requireMark _).bind fun _ => (hexpr _).bind fun condition => ?_
  exact (Steady.requireMark _).bind fun _ => hstatement.bind fun body => .pure _

theorem readPrint_steady (hexpr : ∀ level, Steady (expr level) (expr' level)) :
    Steady (readPrint expr) (readPrint expr') :=
  (hexpr _).bind fun _ => (Steady.requireMark _).bind fun _ => .pure _

theorem readReturn_steady (hexpr : ∀ level, Steady (expr level) (expr' level)) (keyword : Token) :
    Steady (readReturn expr keyword) (readReturn expr' keyword) :=
  (readUnless_steady hexpr _).bind fun _ => (Steady.requireMark _).bind fun _ => .pure _

theorem readJump_steady (keyword : Token) : Steady (readJump keyword) (readJump keyword) :=
  (Steady.requireMark _).bind fun _ => .pure _

theorem readSuperclassName_steady : Steady readSuperclassName readSuperclassName :=
  (Steady.accept _).bind fun _ => .ite ((Steady.requireName _).bind fun _ => .pure _) (.pure _)

theorem readClass_steady (hmembers : Steady members members') :
    Steady (readClass members) (readClass members') := by
  refine (Steady.requireName _).bind fun name => readSuperclassName_steady.bind fun _ => ?_
  refine (Steady.requireMark _).bind fun _ => hmembers.bind fun ms => ?_
  exact (Steady.requireMark _).bind fun _ => .pure _

theorem readLambda_steady (hn : n ≤ n') (hblock : Steady block block') (keyword : Token) :
    Steady (readLambda n block keyword) (readLambda n' block' keyword) := by
  refine (Steady.requireMark _).bind fun _ => (readParameters_steady hn).bind fun params => ?_
  exact (Steady.requireMark _).bind fun _ => hblock.bind fun body => .pure _

theorem readGrouping_steady (hexpr : ∀ level, Steady (expr level) (expr' level)) :
    Steady (readGrouping expr) (readGrouping expr') :=
  (hexpr _).bind fun _ => (Steady.requireMark _).bind fun _ => .pure _

theorem readPrimary_steady (hn : n ≤ n') (hexpr : ∀ level, Steady (expr level) (expr' level))
    (hblock : Steady block block') :
    Steady (readPrimary n expr block) (readPrimary n' expr' block') := by
  intro r
  unfold readPrimary
  cases hrest : r.rest with
  | nil => exact Steady.failNext _ r
  | cons t ts =>
    have htake : r.Precedes { r with rest := ts } := .take hrest
    dsimp only
    split
    · exact ⟨rfl, htake⟩
    · exact ⟨rfl, htake⟩
    · exact ⟨rfl, htake⟩
    · exact ⟨rfl, htake⟩
    · exact ⟨rfl, htake⟩
    · exact ⟨rfl, htake⟩
    · exact ⟨rfl, htake⟩
    · exact htake.comesTo (readLambda_steady hn hblock t _)
    · exact htake.comesTo (readGrouping_steady hexpr _)
    · split
      · exact (htake.trans (.record _ _ _)).comesTo (hexpr _ _)
      · exact Steady.failNext _ r

end Parts

/-! ### The descent -/

/-- What the functions of the descent do within depth `n` they do within depth `n'`. -/
structure DescentSteady (n n' : Nat) : Prop where
  /-- Expressions. -/
  expr : ∀ level, Steady (readExpr n level) (readExpr n' level)
  /-- Operators and right operands, behind a first operand. -/
  operands : ∀ level left, Steady (readOperands n level left) (readOperands n' level left)
  /-- Calls and properties, behind an expression. -/
  suffixes : ∀ e, Steady (readSuffixes n e) (readSuffixes n' e)
  /-- Arguments, behind those read so far. -/
  arguments : ∀ known, Steady (readArguments n known) (readArguments n' known)
  /-- Statements. -/
  statement : Steady (readStatement n) (readStatement n')
  /-- Declarations. -/
  declaration : Steady (readDeclaration n) (readDeclaration n')
  /-- Blocks. -/
  block : Steady (readBlock n) (readBlock n')
  /-- Members of classes. -/
  members : Steady (readMembers n) (readMembers n')

/-- A declaration without recovery. -/
def declarationBody (n : Nat) : ReadM Stmt := do
  if ← accept .kwClass then readClass (readMembers n)
  else if ← startsFunction then
    let _ ← accept .kwFun
    return .function (← readFunction n (readBlock n) .function)
  else if ← accept .kwVar then readVariable (readExpr n)
  else readStatement n

theorem readDeclaration_succ (n : Nat) :
    readDeclaration (n + 1) = recovering (declarationBody n) := by
  rw [readDeclaration]
  rfl

namespace DescentSteady

variable {n n' : Nat}

theorem expr_succ (hn : n ≤ n') (ih : DescentSteady n n') (level : Level) :
    Steady (readExpr (n + 1) level) (readExpr (n' + 1) level) := by
  have hjoined : ∀ level : Level, Steady
      (readExpr n level.tighter >>= fun left => readOperands n level left)
      (readExpr n' level.tighter >>= fun left => readOperands n' level left) :=
    fun level => (ih.expr _).bind fun left => ih.operands level left
  cases level with
  | assignment =>
    rw [readExpr, readExpr]
    refine (ih.expr _).bind fun left => (readBranches_steady ih.expr left).bind fun e => ?_
    exact readAssigned_steady ih.expr e
  | unary =>
    rw [readExpr, readExpr]
    refine (Steady.acceptAny _).bind fun operator => ?_
    cases operator with
    | none => exact ih.expr _
    | some operator => exact (ih.expr _).bind fun operand => .pure _
  | call =>
    rw [readExpr, readExpr]
    exact (ih.expr _).bind fun e => ih.suffixes e
  | primary =>
    rw [readExpr, readExpr]
    exact readPrimary_steady hn ih.expr ih.block
  | _ =>
    rw [readExpr, readExpr]
    · exact hjoined _
    all_goals exact fun h => by cases h

theorem operands_succ (ih : DescentSteady n n') (level : Level) (left : Expr) :
    Steady (readOperands (n + 1) level left) (readOperands (n' + 1) level left) := by
  rw [readOperands, readOperands]
  refine (Steady.acceptAny _).bind fun operator => ?_
  cases operator with
  | none => exact .pure _
  | some operator => exact (ih.expr _).bind fun right => ih.operands _ _

theorem suffixes_succ (ih : DescentSteady n n') (e : Expr) :
    Steady (readSuffixes (n + 1) e) (readSuffixes (n' + 1) e) := by
  rw [readSuffixes, readSuffixes]
  refine (Steady.accept _).bind fun _ => .ite ?_ ?_
  · refine (Steady.nextIs _).bind fun _ => .ite ?_ ?_
    · exact (Steady.requireMark _).bind fun paren => ih.suffixes _
    · refine (ih.arguments []).bind fun arguments => ?_
      exact (Steady.requireMark _).bind fun paren => ih.suffixes _
  · refine (Steady.accept _).bind fun _ => .ite ?_ (.pure _)
    exact (Steady.requireName _).bind fun name => ih.suffixes _

theorem arguments_succ (ih : DescentSteady n n') (known : List Expr) :
    Steady (readArguments (n + 1) known) (readArguments (n' + 1) known) := by
  rw [readArguments, readArguments]
  refine (checkRoom_steady _ _).bind fun _ => (ih.expr _).bind fun argument => ?_
  exact (Steady.accept _).bind fun _ => .ite (ih.arguments _) (.pure _)

theorem statement_succ (ih : DescentSteady n n') :
    Steady (readStatement (n + 1)) (readStatement (n' + 1)) := by
  rw [readStatement, readStatement]
  refine (Steady.acceptAny _).bind fun word => ?_
  cases word with
  | none => exact readExpressionStatement_steady ih.expr
  | some word =>
    dsimp only
    split
    · exact readFor_steady ih.expr ih.statement word
    · exact readIf_steady ih.expr ih.statement
    · exact readPrint_steady ih.expr
    · exact readReturn_steady ih.expr word
    · exact readWhile_steady ih.expr ih.statement
    · exact ih.block.bind fun body => .pure _
    · exact readJump_steady word

theorem body (hn : n ≤ n') (ih : DescentSteady n n') :
    Steady (declarationBody n) (declarationBody n') := by
  refine (Steady.accept _).bind fun _ => .ite (readClass_steady ih.members) ?_
  refine Steady.startsFunction.bind fun _ => .ite ?_ ?_
  · refine (Steady.accept _).bind fun _ => ?_
    exact (readFunction_steady hn ih.block _).bind fun f => .pure _
  · exact (Steady.accept _).bind fun _ => .ite (readVariable_steady ih.expr) ih.statement

theorem block_succ (ih : DescentSteady n n') :
    Steady (readBlock (n + 1)) (readBlock (n' + 1)) := by
  rw [readBlock, readBlock]
  refine Steady.blockEnds.bind fun _ => .ite ?_ ?_
  · exact (Steady.requireMark _).bind fun _ => .pure _
  · exact ih.declaration.bind fun stmt => ih.block.bind fun rest => .pure _

theorem members_succ (hn : n ≤ n') (ih : DescentSteady n n') :
    Steady (readMembers (n + 1)) (readMembers (n' + 1)) := by
  rw [readMembers, readMembers]
  refine Steady.blockEnds.bind fun _ => .ite (.pure _) ?_
  refine (Steady.accept _).bind fun _ => .ite ?_ ?_
  · refine (readFunction_steady hn ih.block _).bind fun member => ?_
    exact ih.members.bind fun ms => .pure _
  · refine (readFunction_steady hn ih.block _).bind fun member => ?_
    exact ih.members.bind fun ms => .pure _

end DescentSteady

/-- **The descent is steady**, within any depth. -/
theorem descentSteady {n n' : Nat} (hn : n ≤ n') : DescentSteady n n' := by
  induction n generalizing n' with
  | zero =>
    refine ⟨?_, ?_, ?_, ?_, ?_, ?_, ?_, ?_⟩
    · intro level
      cases level <;> (rw [readExpr]; exact .tooDeep)
    · intro level left
      rw [readOperands]
      exact .tooDeep
    · intro e
      rw [readSuffixes]
      exact .tooDeep
    · intro known
      rw [readArguments]
      exact .tooDeep
    · rw [readStatement]
      exact .tooDeep
    · rw [readDeclaration]
      exact .tooDeep
    · rw [readBlock]
      exact .tooDeep
    · rw [readMembers]
      exact .tooDeep
  | succ n ih =>
    obtain ⟨k, rfl⟩ := Nat.exists_eq_add_of_le' hn
    have hk : n ≤ k + n := Nat.le_add_left n k
    have hsteady := ih hk
    refine ⟨hsteady.expr_succ hk, hsteady.operands_succ, hsteady.suffixes_succ,
      hsteady.arguments_succ, hsteady.statement_succ, ?_, hsteady.block_succ,
      hsteady.members_succ hk⟩
    rw [readDeclaration_succ, ← Nat.add_assoc, readDeclaration_succ]
    exact (hsteady.body hk).recovering

/-- A program is read steadily. -/
theorem readProgram_steady {n n' : Nat} (hn : n ≤ n') :
    Steady (readProgram n) (readProgram n') := by
  induction n generalizing n' with
  | zero => exact .tooDeep
  | succ n ih =>
    obtain ⟨k, rfl⟩ := Nat.exists_eq_add_of_le' hn
    have hk : n ≤ k + n := Nat.le_add_left n k
    rw [readProgram, ← Nat.add_assoc, readProgram]
    refine Steady.atEnd.bind fun _ => .ite (.pure _) ?_
    exact (descentSteady hk).declaration.bind fun stmt => (ih hk).bind fun rest => .pure _

/-! ### Where a reading ends -/

/-- Steps that follow each other come to a result in the second one. -/
theorem ReadM.bind_eq_ok {step : ReadM α} {next : α → ReadM β} {r r' : Reading} {b : β}
    (h : (step >>= next) r = .ok b r') : ∃ a r₁, step r = .ok a r₁ ∧ next a r₁ = .ok b r' := by
  simp only [Bind.bind, EStateM.bind] at h
  cases hs : step r with
  | ok a r₁ =>
    rw [hs] at h
    exact ⟨a, r₁, rfl, h⟩
  | error stop r₁ =>
    rw [hs] at h
    cases h

/-- A program is read to the end of the text. -/
theorem rest_of_readProgram {n : Nat} {r r' : Reading} {program : Program}
    (h : readProgram n r = .ok program r') : r'.rest = [] := by
  induction n generalizing r program with
  | zero => cases h
  | succ n ih =>
    rw [readProgram] at h
    obtain ⟨ended, r₁, hended, h⟩ := ReadM.bind_eq_ok h
    cases hended
    cases hrest : r.rest with
    | nil =>
      rw [hrest] at h
      cases h
      exact hrest
    | cons t ts =>
      rw [hrest] at h
      obtain ⟨stmt, r₂, -, h⟩ := ReadM.bind_eq_ok h
      obtain ⟨rest, r₃, hprogram, h⟩ := ReadM.bind_eq_ok h
      cases h
      exact ih hprogram

/-- A block ends with a fault only where the text ends: it lacks its closing brace. -/
theorem readBlock_raised {n : Nat} {r r' : Reading} (h : readBlock n r = .error .fault r') :
    r'.rest = [] ∧ ∃ r₁, r.Precedes r₁ ∧ r' = r₁.record r₁.final (.noMark .closeBlock) := by
  induction n generalizing r with
  | zero =>
    rw [readBlock] at h
    cases h
  | succ n ih =>
    rw [readBlock] at h
    rcases ReadM.bind_eq_error h with h | ⟨ends, r₁, hends, h⟩
    · cases h
    cases hends
    by_cases hclosed : (r.nextIs .rightBrace || r.rest.isEmpty) = true
    · rw [if_pos hclosed] at h
      rcases ReadM.bind_eq_error h with h | ⟨brace, r₁, -, h⟩
      · -- a brace that is there is read
        cases hrest : r.rest with
        | nil =>
          simp only [requireMark, require, hrest, failNext] at h
          cases h
          refine ⟨hrest, r, .refl r, ?_⟩
          rw [Reading.next, hrest]
          rfl
        | cons t ts =>
          have hkind : t.kind = .rightBrace := by simpa [Reading.nextIs, hrest] using hclosed
          have hbrace : (t.kind == MarkPlace.closeBlock.mark) = true := by
            rw [hkind]
            rfl
          simp only [requireMark, require, hrest, if_pos hbrace] at h
          cases h
      · cases h
    · rw [if_neg hclosed] at h
      rcases ReadM.bind_eq_error h with h | ⟨stmt, r₁, hstmt, h⟩
      · exact absurd h (readDeclaration_ne_fault n r r')
      rcases ReadM.bind_eq_error h with h | ⟨rest, r₂, -, h⟩
      · obtain ⟨hend, r₂, hr₂, heq⟩ := ih h
        have hstep := ((descentSteady (Nat.le_refl n)).declaration.ok hstmt).2
        exact ⟨hend, r₂, hstep.trans hr₂, heq⟩
      · cases h

/-- A declaration comes to a result if there is enough depth. -/
theorem readDeclaration_eq_ok {n : Nat} {r : Reading} (hne : r.rest ≠ [])
    (hn : 16 * r.rest.length + 13 ≤ n) : ∃ stmt? r', readDeclaration n r = .ok stmt? r' := by
  have hreads := (descentReads n).declaration r hne hn
  unfold Reads at hreads
  cases hd : readDeclaration n r with
  | ok stmt? r' => exact ⟨stmt?, r', rfl⟩
  | error stop r' =>
    rw [hd] at hreads
    cases stop with
    | fault => exact absurd hd (readDeclaration_ne_fault n r r')
    | tooDeep => exact hreads.elim

/-- **A declaration takes a token at least**, within any depth in which it comes to a result. -/
theorem readDeclaration_progress {n : Nat} {r r' : Reading} {stmt? : Option Stmt}
    (hne : r.rest ≠ []) (h : readDeclaration n r = .ok stmt? r') :
    r'.rest.length < r.rest.length := by
  -- within enough depth it comes to the same result
  have hdeep := (descentSteady (Nat.le_max_left n (16 * r.rest.length + 13))).declaration.ok h
  have hreads := (descentReads (max n (16 * r.rest.length + 13))).declaration r hne
    (Nat.le_max_right _ _)
  unfold Reads at hreads
  rw [hdeep.1] at hreads
  exact hreads.1

/-! ### Numbers of tokens -/

namespace Reading

/-- A reading of some tokens of which a number have been read. -/
structure StandsAt (r : Reading) (tokens : List Token) (final : Token) (k : Nat) : Prop where
  /-- There are so many. -/
  le : k ≤ tokens.length
  /-- The others are left. -/
  rest_eq : r.rest = tokens.drop k
  /-- The text ends as the tokens do. -/
  final_eq : r.final = final

namespace StandsAt

variable {r r' : Reading} {tokens : List Token} {final : Token} {k : Nat}

theorem start (tokens : List Token) (final : Token) :
    (Reading.mk tokens final #[]).StandsAt tokens final 0 := ⟨Nat.zero_le _, rfl, rfl⟩

theorem length_rest (h : r.StandsAt tokens final k) : r.rest.length = tokens.length - k := by
  rw [h.rest_eq, List.length_drop]

theorem rest_eq_nil (h : r.StandsAt tokens final k) : r.rest = [] ↔ k = tokens.length := by
  have hlength := h.length_rest
  have hle := h.le
  rw [← List.length_eq_zero_iff]
  omega

/-- There is a token where a reading stands. -/
theorem next_eq (h : r.StandsAt tokens final k) : (tokens ++ [final])[k]? = some r.next := by
  rw [next, h.rest_eq, h.final_eq]
  by_cases hk : k < tokens.length
  · rw [List.drop_eq_getElem_cons hk, List.headD_cons, List.getElem?_append_left hk,
      List.getElem?_eq_getElem hk]
  · have heq : k = tokens.length := Nat.le_antisymm h.le (Nat.le_of_not_lt hk)
    rw [heq, List.drop_length, List.headD_nil, List.getElem?_concat_length]

/-- The token for the end of the text comes next when all others have been read. -/
theorem next_eof (h : r.StandsAt tokens final k) (hfinal : final.kind = .eof)
    (htokens : ∀ t ∈ tokens, t.kind ≠ .eof) : r.next.kind = .eof ↔ k = tokens.length := by
  rw [next, h.rest_eq, h.final_eq]
  by_cases hk : k < tokens.length
  · rw [List.drop_eq_getElem_cons hk, List.headD_cons]
    have hother := htokens _ (List.getElem_mem hk)
    exact ⟨fun heof => absurd heof hother, fun heq => absurd heq (Nat.ne_of_lt hk)⟩
  · have heq : k = tokens.length := Nat.le_antisymm h.le (Nat.le_of_not_lt hk)
    rw [heq, List.drop_length, List.headD_nil]
    exact ⟨fun _ => rfl, fun _ => hfinal⟩

/-- A reading that goes forward stands at a token that does not come before. -/
theorem precedes (h : r.StandsAt tokens final k) (h' : r.Precedes r') :
    ∃ k', k ≤ k' ∧ r'.StandsAt tokens final k' := by
  have hdrop := List.suffix_iff_eq_drop.mp h'.rest
  have hlength := h.length_rest
  have hle := h.le
  refine ⟨k + (r.rest.length - r'.rest.length), Nat.le_add_right _ _, by omega, ?_,
    h'.final_eq.trans h.final_eq⟩
  rw [← List.drop_drop, ← h.rest_eq]
  exact hdrop

theorem lt_of_length_lt (h : r.StandsAt tokens final k) {k' : Nat}
    (h' : r'.StandsAt tokens final k') (hlt : r'.rest.length < r.rest.length) : k < k' := by
  have hlength := h.length_rest
  have hlength' := h'.length_rest
  omega

end StandsAt

end Reading

/-! ### Contained faults -/

/-- How some tokens are read. -/
structure ContainedReading (tokens : List Token) (final : Token) : Prop where
  /-- The reading of a program comes to its end where the text ends.  It does so within every
  depth that is great enough, always with the same result. -/
  ends : ∃ r : Reading, r.StandsAt tokens final tokens.length ∧ r.next.kind = .eof
    ∧ r.faults.toList = (Program.ofTokens tokens final).faults
    ∧ ∀ n, descentBound tokens.length ≤ n →
      readProgram n ⟨tokens, final, #[]⟩ = .ok (Program.ofTokens tokens final).program r
  /-- Wherever a reading stands there is a token, and it is the one for the end of the text only
  if all others have been read. -/
  stands : ∀ (r : Reading) (k : Nat), r.StandsAt tokens final k →
    (tokens ++ [final])[k]? = some r.next ∧ (r.next.kind = .eof ↔ k = tokens.length)
  /-- Every function of the descent goes forward, or it stops with a fault that it has just
  recorded where it stands; within a greater depth it does the same. -/
  steady : ∀ n n', n ≤ n' → DescentSteady n n'
  /-- A reading that goes forward still stands at a token. -/
  forward : ∀ (r r' : Reading) (k : Nat), r.StandsAt tokens final k → r.Precedes r' →
    ∃ k', k ≤ k' ∧ r'.StandsAt tokens final k'
  /-- A declaration comes to a result, within every depth that is great enough, and takes a
  token at least. -/
  progress : ∀ (n : Nat) (r : Reading) (k : Nat), r.StandsAt tokens final k → k < tokens.length →
    (descentBound (tokens.length - k) ≤ n → ∃ stmt? r', readDeclaration n r = .ok stmt? r')
    ∧ ∀ stmt? r', readDeclaration n r = .ok stmt? r' →
      ∃ k', k < k' ∧ r'.StandsAt tokens final k'
  /-- A fault that stops a declaration has been recorded; it is caught there, and reading goes
  on behind it. -/
  caught : ∀ (n : Nat) (r r' : Reading), readDeclaration n r ≠ .error .fault r'
    ∧ (declarationBody n r = .error .fault r' → r.Raised r'
      ∧ readDeclaration (n + 1) r = .ok none { r' with rest := resume r'.rest })
  /-- A fault inside a block does not stop the block; only the end of the text does. -/
  blocks : ∀ (n : Nat) (r r' : Reading), readBlock n r = .error .fault r' →
    r'.rest = [] ∧ ∃ r₁, r.Precedes r₁ ∧ r' = r₁.record r₁.final (.noMark .closeBlock)

/-- A fault that stops a declaration is caught there. -/
theorem readDeclaration_of_fault {n : Nat} {r r' : Reading}
    (h : declarationBody n r = .error .fault r') :
    r.Raised r' ∧ readDeclaration (n + 1) r = .ok none { r' with rest := resume r'.rest } := by
  have hn := Nat.le_refl n
  refine ⟨(((descentSteady hn).body hn).fault h).2, ?_⟩
  rw [readDeclaration_succ]
  simp only [recovering, h]

/-- The reading of a program, within every depth that is great enough. -/
theorem readProgram_eq_ofTokens (tokens : List Token) (final : Token) :
    ∃ r, r.rest = [] ∧ (Reading.mk tokens final #[]).Precedes r
      ∧ r.faults.toList = (Program.ofTokens tokens final).faults
      ∧ ∀ n, descentBound tokens.length ≤ n →
        readProgram n ⟨tokens, final, #[]⟩ = .ok (Program.ofTokens tokens final).program r := by
  obtain ⟨program, r, hread⟩ := readProgram_eq_ok tokens final
  have hparsed : Program.ofTokens tokens final = ⟨program, r.faults.toList⟩ := by
    rw [Program.ofTokens, hread]
  refine ⟨r, rest_of_readProgram hread, ((readProgram_steady (Nat.le_refl _)).ok hread).2, ?_, ?_⟩
  · rw [hparsed]
  · intro n hn
    rw [hparsed]
    exact ((readProgram_steady hn).ok hread).1

/-- **Reading comes to its end, and faults are contained**, for all tokens of which only the last
is that for the end of the text. -/
theorem Program.reading_contained {tokens : List Token} {final : Token}
    (hfinal : final.kind = .eof) (htokens : ∀ t ∈ tokens, t.kind ≠ .eof) :
    ContainedReading tokens final where
  ends := by
    obtain ⟨r, hrest, hprecedes, hfaults, hread⟩ := readProgram_eq_ofTokens tokens final
    obtain ⟨k, -, hk⟩ := (Reading.StandsAt.start tokens final).precedes hprecedes
    have hend := hk.rest_eq_nil.mp hrest
    rw [hend] at hk
    exact ⟨r, hk, (hk.next_eof hfinal htokens).mpr rfl, hfaults, hread⟩
  stands r k h := ⟨h.next_eq, h.next_eof hfinal htokens⟩
  steady n n' hn := descentSteady hn
  forward r r' k h h' := h.precedes h'
  progress := by
    intro n r k h hk
    have hne : r.rest ≠ [] := fun hnil => Nat.ne_of_lt hk (h.rest_eq_nil.mp hnil)
    refine ⟨fun hn => ?_, fun stmt? r' hread => ?_⟩
    · refine readDeclaration_eq_ok hne ?_
      rw [h.length_rest]
      unfold descentBound at hn
      omega
    · have hsteady := (descentSteady (Nat.le_refl n)).declaration.ok hread
      obtain ⟨k', -, h'⟩ := h.precedes hsteady.2
      exact ⟨k', h.lt_of_length_lt h' (readDeclaration_progress hne hread), h'⟩
  caught n r r' := ⟨readDeclaration_ne_fault n r r', readDeclaration_of_fault⟩
  blocks n r r' h := readBlock_raised h

/-- A text whose block is not closed and which has a fault in the block and one in front. -/
theorem Program.reading_contained_unclosed :
    let lexed := Lexed.ofText "var ; fun f() \x7b print ; print a; a +" 1 0
    ContainedReading lexed.tokens lexed.final
      ∧ (Program.ofTokens lexed.tokens lexed.final).faults.map SyntaxFault.cause
        = [.noName .variableName, .noExpression, .noExpression, .noMark .closeBlock] :=
  ⟨Program.reading_contained (by decide +kernel) (by decide +kernel), by decide +kernel⟩

end LoxLang
