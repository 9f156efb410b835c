import LoxLang.Proofs.Program.Grammar
import LoxLang.Proofs.Program.Reading

/-!
# The descent reads the grammar

Each function of the descent, run on enough depth, takes tokens that form the phrase
it gives, or records a fault.  The functions that need no descent of their own are
treated first, given what is known of the functions they call.

How much depth is enough follows from the number of tokens that are left.  A call
for the same tokens goes down at least one step on a list that has at most fourteen:
block, declaration, statement and the eleven levels of expressions.  A call behind a
token has sixteen more steps than it needs.

## Main definitions

* `Level.steps` — how many steps of the descent a level is above the tokens.
* `ExprReader`, `StatementReader`, `BlockReader`, `MembersReader` — what is known of the
  functions that are called, within a depth.
* `DescentReads` — what is known of all functions of the descent.

## Main results

* `descentReads` — the descent, within any depth.
* `readProgram_eq_ok` — reading comes to an end.
* `Program.ofTokens_derives` — tokens that are read without fault form the program.
-/

namespace LoxLang

/-- How many steps the descent of a level takes at most before it takes a token. -/
def Level.steps : Level → Nat
  | comma => 11
  | assignment => 10
  | disjunction => 9
  | conjunction => 8
  | equality => 7
  | comparison => 6
  | term => 5
  | factor => 4
  | unary => 3
  | call => 2
  | primary => 1

/-- Expressions are read as the grammar says, within depth `n`. -/
def ExprReader (n : Nat) (expr : Level → ReadM Expr) : Prop :=
  ∀ level r, 16 * r.rest.length + level.steps ≤ n →
    Reads (expr level) r r.rest.length fun e _ us => Derives (.expr level e) us

/-- Statements are read as the grammar says, within depth `n`; behind one that hangs there
is no `else`. -/
def StatementReader (n : Nat) (statement : ReadM Stmt) : Prop :=
  ∀ r, 16 * r.rest.length + 12 ≤ n →
    Reads statement r r.rest.length fun s r' us =>
      ∃ hanging, Derives (.statement hanging s) us ∧
        (hanging = true → r'.nextIs .kwElse = false)

/-- Blocks are read from behind their opening brace as the grammar says, within depth
`n`. -/
def BlockReader (n : Nat) (block : ReadM (List Stmt)) : Prop :=
  ∀ r, 16 * r.rest.length + 14 ≤ n →
    Reads block r r.rest.length fun ss _ us => Derives (.body ss) us

/-- The members of a class are read as the grammar says, within depth `n`. -/
def MembersReader (n : Nat) (members : ReadM (List FunctionDecl × List FunctionDecl)) : Prop :=
  ∀ r, 16 * r.rest.length + 14 ≤ n →
    Reads members r (r.rest.length + 1) fun ms _ us => Derives (.members ms.1 ms.2) us

section Parts

variable {n : Nat} {expr : Level → ReadM Expr} {statement : ReadM Stmt}
  {block : ReadM (List Stmt)} {members : ReadM (List FunctionDecl × List FunctionDecl)}
  {r : Reading}

/-! ### Parameters -/

/-- The parameters that are still to be read, with the parenthesis that closes them. -/
theorem readParametersFrom_reads (n : Nat) (params : List Token) (r : Reading)
    (hn : r.rest.length < n) :
    Reads (readParametersFrom n params) r r.rest.length fun ps _ us =>
      ∃ names ts rparen, ps = params.reverse ++ names ∧ us = ts ++ [rparen] ∧
        ParameterNames names ts ∧ ps.length ≤ maxListed ∧ rparen.kind = .rightParen := by
  induction n generalizing params r with
  | zero => exact absurd hn (Nat.not_lt_zero _)
  | succ n ih =>
    rw [readParametersFrom]
    refine (checkRoom_reads .parameters params.length r).bind fun _ r₁ h₁ => ?_
    refine Reads.require fun name r₂ h₂ hname => ?_
    refine Reads.ifAccept ?_ ?_
    · intro comma r₃ h₃ hcomma _
      refine (ih (name :: params) r₃ (by omega)).mono (by omega) ?_
      rintro ps r' us ⟨names, ts, rparen, rfl, rfl, hnames, hlen, hr⟩ _ ⟨rfl, -⟩
      refine ⟨name :: names, name :: comma :: ts, rparen, ?_, rfl, ?_, hlen, hr⟩
      · rw [List.reverse_cons, List.append_assoc, List.singleton_append]
      · exact .more hname hcomma hnames
    · intro _
      refine Reads.require fun rparen r₃ h₃ hr => ?_
      refine Reads.pure (by omega) ?_
      rintro _ ⟨rfl, hroom⟩
      refine ⟨[name], [name], rparen, List.reverse_cons, rfl, .one hname, ?_, hr⟩
      rw [List.length_reverse, List.length_cons]
      exact hroom

/-- A list of parameters from behind its opening parenthesis. -/
theorem readParameters_reads (hn : r.rest.length < n) :
    Reads (readParameters n) r r.rest.length fun ps _ us =>
      ∀ lparen : Token, lparen.kind = .leftParen → ParameterList ps (lparen :: us) := by
  unfold readParameters
  refine Reads.look rfl ?_
  split
  · refine Reads.require fun rparen r₁ h₁ hr => ?_
    refine Reads.pure (by omega) ?_
    intro lparen hl
    exact .none hl hr
  · refine (readParametersFrom_reads n [] r hn).mono (Nat.le_refl _) ?_
    rintro ps r' us ⟨names, ts, rparen, rfl, rfl, hnames, hlen, hr⟩ lparen hl
    exact .some hl hnames hlen hr

/-! ### Expressions -/

/-- The branches of a conditional behind its condition. -/
theorem readBranches_reads (hexpr : ExprReader n expr) (condition : Expr)
    (hn : 16 * r.rest.length + 16 ≤ n) :
    Reads (readBranches expr condition) r (r.rest.length + 1) fun e _ us =>
      (us = [] ∧ e = condition) ∨ ∃ question ts colon es t f,
        us = question :: ts ++ colon :: es ∧ e = .conditional condition t f ∧
        question.kind = .question ∧ Derives (.expr .assignment t) ts ∧
        colon.kind = .colon ∧ Derives (.expr .assignment f) es := by
  unfold readBranches
  refine Reads.ifAccept ?_ ?_
  · intro question r₁ h₁ hq _
    refine (hexpr .assignment r₁ (by simp only [Level.steps]; omega)).bind fun t r₂ h₂ => ?_
    refine Reads.require fun colon r₃ h₃ hc => ?_
    refine (hexpr .assignment r₃ (by simp only [Level.steps]; omega)).bind fun f r₄ h₄ => ?_
    refine Reads.pure (by omega) ?_
    intro es he ts ht
    refine .inr ⟨question, ts, colon, es, t, f, ?_, rfl, hq, ht, hc, he⟩
    simp
  · intro _
    exact Reads.pure (by omega) (.inl ⟨rfl, rfl⟩)

/-- The value that is assigned to a target. -/
theorem readAssigned_reads (hexpr : ExprReader n expr) (target : Expr)
    (hn : 16 * r.rest.length + 16 ≤ n) :
    Reads (readAssigned expr target) r (r.rest.length + 1) fun e _ us =>
      (us = [] ∧ e = target) ∨ ∃ equals vs v,
        us = equals :: vs ∧ equals.kind = .equal ∧ Derives (.expr .assignment v) vs ∧
        ((∃ name, target = .variable name ∧ e = .assign name v) ∨
          ∃ object name, target = .get object name ∧ e = .set object name v) := by
  unfold readAssigned
  refine Reads.matchAccept ?_ (Reads.pure (by omega) (.inl ⟨rfl, rfl⟩))
  intro equals r₁ h₁ heq
  refine (hexpr .assignment r₁ (by simp only [Level.steps]; omega)).bind fun v r₂ h₂ => ?_
  refine (assignTo_reads target equals v r₂).mono (by omega) ?_
  rintro e r' _ ⟨rfl, htarget⟩ vs hv
  refine .inr ⟨equals, vs, v, ?_, List.mem_singleton.mp heq, hv, htarget⟩
  rw [List.append_nil]

/-- The rest of a function without a name. -/
theorem readLambda_reads (hblock : BlockReader n block) {keyword : Token}
    (hk : keyword.kind = .kwFun) (hn : 16 * r.rest.length + 16 ≤ n) :
    Reads (readLambda n block keyword) r r.rest.length fun e _ us =>
      Derives (.expr .primary e) (keyword :: us) := by
  unfold readLambda
  refine Reads.require fun lparen r₁ h₁ hl => ?_
  refine (readParameters_reads (n := n) (r := r₁) (by omega)).bind fun params r₂ h₂ => ?_
  refine Reads.require fun lbrace r₃ h₃ hb => ?_
  refine (hblock r₃ (by omega)).bind fun ss r₄ h₄ => ?_
  refine Reads.pure (by omega) ?_
  intro bs hbs ps hps
  have := Derives.lambda hk (hps lparen hl) hb hbs
  simpa using this

/-- The rest of an expression in parentheses. -/
theorem readGrouping_reads (hexpr : ExprReader n expr) {lparen : Token}
    (hl : lparen.kind = .leftParen) (hn : 16 * r.rest.length + 16 ≤ n) :
    Reads (readGrouping expr) r r.rest.length fun e _ us =>
      Derives (.expr .primary e) (lparen :: us) := by
  unfold readGrouping
  refine (hexpr .comma r (by simp only [Level.steps]; omega)).bind fun e r₁ h₁ => ?_
  refine Reads.require fun rparen r₂ h₂ hr => ?_
  refine Reads.pure (by omega) ?_
  intro ts he
  exact Derives.grouping hl he hr

/-- A part that stands alone. -/
theorem readPrimary_reads (hexpr : ExprReader n expr) (hblock : BlockReader n block)
    (hn : 16 * r.rest.length ≤ n) :
    Reads (readPrimary n expr block) r r.rest.length fun e _ us =>
      Derives (.expr .primary e) us := by
  cases hr : r.rest with
  | nil =>
    have hp : readPrimary n expr block r = failNext .noExpression r := by
      simp only [readPrimary, hr]
    exact Reads.of_fault hp List.suffix_rfl (by simp [Reading.record])
  | cons t ts =>
    have hlen : 16 * ts.length + 16 ≤ n := by
      rw [hr, List.length_cons] at hn
      omega
    -- a constant, a name or `this` is one token
    have hone : ∀ {e : Expr}, readPrimary n expr block r = .ok e { r with rest := ts } →
        Derives (.expr .primary e) [t] →
        Reads (readPrimary n expr block) r (t :: ts).length fun e _ us =>
          Derives (.expr .primary e) us := by
      intro e hp he
      exact Reads.of_ok hp (Nat.lt_succ_self _) (Nat.le_refl _) [t] hr fun _ => he
    have hp := readPrimary.eq_def n expr block r
    simp only [hr] at hp
    split at hp
    · next hk => exact hone hp (.false hk)
    · next hk => exact hone hp (.true hk)
    · next hk => exact hone hp (.nil hk)
    · next hk => exact hone hp (.literal (.inl hk))
    · next hk => exact hone hp (.literal (.inr hk))
    · next hk => exact hone hp (.this hk)
    · next hk => exact hone hp (.name hk)
    · next hk =>
      refine Reads.take hr hp ?_
      exact (readLambda_reads hblock hk hlen).mono (Nat.le_succ _) fun _ _ _ h => h
    · next hk =>
      refine Reads.take hr hp ?_
      exact (readGrouping_reads hexpr hk hlen).mono (Nat.le_succ _) fun _ _ _ h => h
    · split at hp
      · next family level _ =>
        -- an operator without a left operand is a fault, and its right operand is left out
        refine Reads.takeFaulty hr hp ((hexpr level _ ?_).mono (Nat.le_succ _) fun _ _ _ h => h)
        have hsteps : level.steps ≤ 11 := by cases level <;> decide
        simp only [Reading.record]
        omega
      · exact Reads.of_fault hp List.suffix_rfl (by simp [Reading.record])

/-! ### Functions and classes -/

/-- A function from its name on. -/
theorem readFunction_reads (hblock : BlockReader n block) (role : FunctionRole)
    (hn : 16 * r.rest.length ≤ n) :
    Reads (readFunction n block role) r r.rest.length fun f _ us =>
      Derives (.function role f) us := by
  unfold readFunction
  refine Reads.require fun name r₁ h₁ hname => ?_
  refine Reads.look rfl ?_
  split
  · next hbare =>
    have hrole : role = .method := by
      rw [Bool.and_eq_true, beq_iff_eq] at hbare
      exact hbare.1
    subst hrole
    refine Reads.require fun lbrace r₂ h₂ hl => ?_
    refine (hblock r₂ (by omega)).bind fun ss r₃ h₃ => ?_
    refine Reads.pure (by omega) ?_
    intro bs hbs
    have := Derives.bareMethod hname hl hbs
    simpa using this
  · refine Reads.require fun lparen r₂ h₂ hl => ?_
    refine (readParameters_reads (n := n) (r := r₂) (by omega)).bind fun params r₃ h₃ => ?_
    refine Reads.require fun lbrace r₄ h₄ hb => ?_
    refine (hblock r₄ (by omega)).bind fun ss r₅ h₅ => ?_
    refine Reads.pure (by omega) ?_
    intro bs hbs ps hps
    have hf : Derives (.function role (.mk name params ss)) _ :=
      .function hname (hps lparen hl) hb hbs
    simpa using hf

/-- The name of the superclass, if there is one. -/
theorem readSuperclassName_reads :
    Reads readSuperclassName r (r.rest.length + 1) fun s _ us => SuperclassClause s us := by
  unfold readSuperclassName
  refine Reads.ifAccept ?_ ?_
  · intro less r₁ h₁ hless _
    refine Reads.require fun name r₂ h₂ hname => ?_
    exact Reads.pure (by omega) (.some hless hname)
  · intro _
    exact Reads.pure (by omega) .none

/-- The rest of the declaration of a class. -/
theorem readClass_reads (hmembers : MembersReader n members) {keyword : Token}
    (hk : keyword.kind = .kwClass) (hn : 16 * r.rest.length + 14 ≤ n) :
    Reads (readClass members) r r.rest.length fun s _ us =>
      Derives (.declaration s) (keyword :: us) := by
  unfold readClass
  refine Reads.require fun name r₁ h₁ hname => ?_
  refine readSuperclassName_reads.bind fun superclass r₂ h₂ => ?_
  refine Reads.require fun lbrace r₃ h₃ hl => ?_
  refine (hmembers r₃ (by omega)).bind fun ms r₄ h₄ => ?_
  obtain ⟨methods, statics⟩ := ms
  refine Reads.require fun rbrace r₅ h₅ hr => ?_
  refine Reads.pure (by omega) ?_
  intro mts hms ss hs
  have := Derives.classDeclaration hk hname hs hl hms hr
  simpa using this

/-! ### Statements -/

/-- An expression that stands as a statement. -/
theorem readExpressionStatement_reads (hexpr : ExprReader n expr)
    (hn : 16 * r.rest.length + 11 ≤ n) :
    Reads (readExpressionStatement expr) r r.rest.length fun s _ us =>
      ∃ e ts semicolon, s = .expression e ∧ us = ts ++ [semicolon] ∧
        Derives (.expr .comma e) ts ∧ semicolon.kind = .semicolon := by
  unfold readExpressionStatement
  refine (hexpr .comma r hn).bind fun e r₁ h₁ => ?_
  refine Reads.require fun semicolon r₂ h₂ hsemi => ?_
  refine Reads.pure (by omega) ?_
  intro ts he
  exact ⟨e, ts, semicolon, rfl, rfl, he, hsemi⟩

/-- An expression behind a mark, if the mark comes next. -/
theorem readIfMarked_reads (hexpr : ExprReader n expr) (mark : TokenKind)
    (hn : 16 * r.rest.length ≤ n) :
    Reads (readIfMarked mark expr) r (r.rest.length + 1) fun e _ us =>
      (us = [] ∧ e = none) ∨ ∃ t ts v, us = t :: ts ∧ e = some v ∧ t.kind = mark ∧
        Derives (.expr .comma v) ts := by
  unfold readIfMarked
  refine Reads.ifAccept ?_ ?_
  · intro t r₁ h₁ ht _
    refine (hexpr .comma r₁ (by simp only [Level.steps]; omega)).bind fun v r₂ h₂ => ?_
    refine Reads.pure (by omega) ?_
    intro ts hv
    exact .inr ⟨t, ts, v, by rw [List.append_nil], rfl, ht, hv⟩
  · intro _
    exact Reads.pure (by omega) (.inl ⟨rfl, rfl⟩)

/-- The declaration of a variable from behind its keyword. -/
theorem readVariable_reads (hexpr : ExprReader n expr) {keyword : Token}
    (hk : keyword.kind = .kwVar) (hn : 16 * r.rest.length ≤ n) :
    Reads (readVariable expr) r r.rest.length fun s _ us =>
      Derives (.variable s) (keyword :: us) := by
  unfold readVariable
  refine Reads.require fun name r₁ h₁ hname => ?_
  refine (readIfMarked_reads hexpr .equal (r := r₁) (by omega)).bind fun value r₂ h₂ => ?_
  refine Reads.require fun semicolon r₃ h₃ hsemi => ?_
  refine Reads.pure (by omega) ?_
  rintro us (⟨rfl, rfl⟩ | ⟨equals, ts, v, rfl, rfl, heq, hv⟩)
  · exact .bareVariable hk hname hsemi
  · exact .variable hk hname heq hv hsemi

/-- An expression unless a mark comes next. -/
theorem readUnless_reads (hexpr : ExprReader n expr) (mark : TokenKind)
    (hn : 16 * r.rest.length + 11 ≤ n) :
    Reads (readUnless mark expr) r (r.rest.length + 1) fun e _ us =>
      Derives (.optional e) us := by
  unfold readUnless
  refine Reads.look rfl ?_
  split
  · exact Reads.pure (by omega) .absent
  · refine (hexpr .comma r hn).bind fun e r₁ h₁ => ?_
    refine Reads.pure (by omega) ?_
    intro ts he
    rw [List.append_nil]
    exact .present he

/-- The first clause of a `for` loop. -/
theorem readClause_reads (hexpr : ExprReader n expr) (hn : 16 * r.rest.length + 11 ≤ n) :
    Reads (readClause expr) r r.rest.length fun s _ us => Derives (.clause s) us := by
  unfold readClause
  refine Reads.ifAccept ?_ ?_
  · intro semicolon r₁ h₁ hsemi _
    exact Reads.pure (by omega) (.noClause hsemi)
  · intro _
    refine Reads.ifAccept ?_ ?_
    · intro keyword r₁ h₁ hk _
      refine (readVariable_reads hexpr hk (r := r₁) (by omega)).bind fun s r₂ h₂ => ?_
      refine Reads.pure (by omega) ?_
      intro ts hs
      rw [List.append_nil]
      exact .variableClause hs
    · intro _
      refine (readExpressionStatement_reads hexpr hn).bind fun s r₁ h₁ => ?_
      refine Reads.pure (by omega) ?_
      rintro _ ⟨e, ts, semicolon, rfl, rfl, he, hsemi⟩
      rw [List.append_nil]
      exact .expressionClause he hsemi

/-- The rest of a `for` loop. -/
theorem readFor_reads (hexpr : ExprReader n expr) (hstmt : StatementReader n statement)
    {keyword : Token} (hk : keyword.kind = .kwFor) (hn : 16 * r.rest.length + 12 ≤ n) :
    Reads (readFor expr statement keyword) r r.rest.length fun s r' us =>
      ∃ hanging, Derives (.statement hanging s) (keyword :: us) ∧
        (hanging = true → r'.nextIs .kwElse = false) := by
  unfold readFor
  refine Reads.require fun lparen r₁ h₁ hl => ?_
  refine (readClause_reads hexpr (r := r₁) (by omega)).bind fun initializer r₂ h₂ => ?_
  refine (readUnless_reads hexpr .semicolon (r := r₂) (by omega)).bind fun condition r₃ h₃ => ?_
  refine Reads.require fun semicolon r₄ h₄ hsemi => ?_
  refine (readUnless_reads hexpr .rightParen (r := r₄) (by omega)).bind fun increment r₅ h₅ => ?_
  refine Reads.require fun rparen r₆ h₆ hr => ?_
  refine (hstmt r₆ (by omega)).bind fun s r₇ h₇ => ?_
  refine Reads.pure (by omega) ?_
  rintro ts ⟨hanging, hs, helse⟩ us hu cs hc is hi
  refine ⟨hanging, ?_, helse⟩
  have := Derives.for hk hl hi hc hsemi hu hr hs
  simpa using this

/-- The second branch of an `if`. -/
theorem readElse_reads (hstmt : StatementReader n statement) (hn : 16 * r.rest.length ≤ n) :
    Reads (readElse statement) r (r.rest.length + 1) fun e r' us =>
      (us = [] ∧ e = none ∧ r'.nextIs .kwElse = false) ∨
        ∃ kwElse es s hanging, us = kwElse :: es ∧ e = some s ∧ r.nextIs .kwElse = true ∧
          kwElse.kind = .kwElse ∧ Derives (.statement hanging s) es ∧
          (hanging = true → r'.nextIs .kwElse = false) := by
  unfold readElse
  refine Reads.ifAccept ?_ ?_
  · intro kwElse r₁ h₁ hk hnext
    refine (hstmt r₁ (by omega)).bind fun s r₂ h₂ => ?_
    refine Reads.pure (by omega) ?_
    rintro es ⟨hanging, hs, helse⟩
    exact .inr ⟨kwElse, es, s, hanging, by rw [List.append_nil], rfl, hnext, hk, hs, helse⟩
  · intro hnext
    exact Reads.pure (by omega) (.inl ⟨rfl, rfl, hnext⟩)

/-- The rest of an `if`.  If an `else` follows, the first branch does not hang, for behind
one that hangs there is no `else`. -/
theorem readIf_reads (hexpr : ExprReader n expr) (hstmt : StatementReader n statement)
    {keyword : Token} (hk : keyword.kind = .kwIf) (hn : 16 * r.rest.length + 12 ≤ n) :
    Reads (readIf expr statement) r r.rest.length fun s r' us =>
      ∃ hanging, Derives (.statement hanging s) (keyword :: us) ∧
        (hanging = true → r'.nextIs .kwElse = false) := by
  unfold readIf
  refine Reads.require fun lparen r₁ h₁ hl => ?_
  refine (hexpr .comma r₁ (by simp only [Level.steps]; omega)).bind fun c r₂ h₂ => ?_
  refine Reads.require fun rparen r₃ h₃ hr => ?_
  refine (hstmt r₃ (by omega)).bind fun t r₄ h₄ => ?_
  refine (readElse_reads hstmt (r := r₄) (by omega)).bind fun e r₅ h₅ => ?_
  refine Reads.pure (by omega) ?_
  rintro us (⟨rfl, rfl, hnext⟩ | ⟨kwElse, es, s, hanging, rfl, rfl, hnext, helse, hs, hend⟩)
    ts ⟨hanging', ht, hopen⟩ cs hc
  · refine ⟨true, ?_, fun _ => hnext⟩
    have := Derives.ifThen hk hl hc hr ht
    simpa using this
  · refine ⟨hanging, ?_, hend⟩
    have hclosed : hanging' = false := by
      cases hanging' with
      | false => rfl
      | true => rw [hopen rfl] at hnext; exact absurd hnext (by decide)
    subst hclosed
    have := Derives.ifElse hk hl hc hr ht helse hs
    simpa using this

/-- The rest of a `while` loop. -/
theorem readWhile_reads (hexpr : ExprReader n expr) (hstmt : StatementReader n statement)
    {keyword : Token} (hk : keyword.kind = .kwWhile) (hn : 16 * r.rest.length + 12 ≤ n) :
    Reads (readWhile expr statement) r r.rest.length fun s r' us =>
      ∃ hanging, Derives (.statement hanging s) (keyword :: us) ∧
        (hanging = true → r'.nextIs .kwElse = false) := by
  unfold readWhile
  refine Reads.require fun lparen r₁ h₁ hl => ?_
  refine (hexpr .comma r₁ (by simp only [Level.steps]; omega)).bind fun c r₂ h₂ => ?_
  refine Reads.require fun rparen r₃ h₃ hr => ?_
  refine (hstmt r₃ (by omega)).bind fun s r₄ h₄ => ?_
  refine Reads.pure (by omega) ?_
  rintro ts ⟨hanging, hs, helse⟩ cs hc
  refine ⟨hanging, ?_, helse⟩
  have := Derives.while hk hl hc hr hs
  simpa using this

/-- The rest of a `print` statement. -/
theorem readPrint_reads (hexpr : ExprReader n expr) {keyword : Token}
    (hk : keyword.kind = .kwPrint) (hn : 16 * r.rest.length + 11 ≤ n) :
    Reads (readPrint expr) r r.rest.length fun s _ us =>
      Derives (.statement false s) (keyword :: us) := by
  unfold readPrint
  refine (hexpr .comma r hn).bind fun e r₁ h₁ => ?_
  refine Reads.require fun semicolon r₂ h₂ hsemi => ?_
  refine Reads.pure (by omega) ?_
  intro ts he
  exact .print hk he hsemi

/-- The rest of a `return` statement. -/
theorem readReturn_reads (hexpr : ExprReader n expr) {keyword : Token}
    (hk : keyword.kind = .kwReturn) (hn : 16 * r.rest.length + 11 ≤ n) :
    Reads (readReturn expr keyword) r r.rest.length fun s _ us =>
      Derives (.statement false s) (keyword :: us) := by
  unfold readReturn
  refine (readUnless_reads hexpr .semicolon hn).bind fun e r₁ h₁ => ?_
  refine Reads.require fun semicolon r₂ h₂ hsemi => ?_
  refine Reads.pure (by omega) ?_
  intro ts he
  exact .return hk he hsemi

/-- The rest of a `break` or `continue` statement. -/
theorem readJump_reads {keyword : Token}
    (hk : keyword.kind = .kwBreak ∨ keyword.kind = .kwContinue) :
    Reads (readJump keyword) r r.rest.length fun s _ us =>
      Derives (.statement false s) (keyword :: us) := by
  unfold readJump
  refine Reads.require fun semicolon r₁ h₁ hsemi => ?_
  refine Reads.pure (by omega) ?_
  rcases hk with hk | hk
  · rw [hk]
    exact .break hk hsemi
  · rw [hk]
    exact .continue hk hsemi

end Parts

/-! ### The descent -/

/-- What the functions of the descent do within depth `n`. -/
structure DescentReads (n : Nat) : Prop where
  /-- Expressions. -/
  expr : ExprReader n (readExpr n)
  /-- Operators and right operands, behind a first operand. -/
  operands : ∀ level left r, 16 * r.rest.length + 1 ≤ n →
    Reads (readOperands n level left) r (r.rest.length + 1) fun e _ us =>
      ∀ ts, Derives (.expr level left) ts → Derives (.expr level e) (ts ++ us)
  /-- Calls and properties, behind an expression. -/
  suffixes : ∀ e r, 16 * r.rest.length + 1 ≤ n →
    Reads (readSuffixes n e) r (r.rest.length + 1) fun e' _ us =>
      ∀ ts, Derives (.expr .call e) ts → Derives (.expr .call e') (ts ++ us)
  /-- Arguments, behind those read so far. -/
  arguments : ∀ known r, 16 * r.rest.length + 11 ≤ n →
    Reads (readArguments n known) r r.rest.length fun es _ us =>
      ∃ es', es = known.reverse ++ es' ∧ Derives (.arguments es') us ∧ es.length ≤ maxListed
  /-- Statements. -/
  statement : StatementReader n (readStatement n)
  /-- Declarations. -/
  declaration : ∀ r, r.rest ≠ [] → 16 * r.rest.length + 13 ≤ n →
    Reads (readDeclaration n) r r.rest.length fun s _ us =>
      ∃ stmt, s = some stmt ∧ Derives (.declaration stmt) us
  /-- Blocks. -/
  block : BlockReader n (readBlock n)
  /-- Members of classes. -/
  members : MembersReader n (readMembers n)

namespace DescentReads

variable {n : Nat}

theorem steps_tighter {level : Level} (h : level ≠ .primary) :
    level.tighter.steps + 1 = level.steps := by
  cases level with
  | primary => exact absurd rfl h
  | _ => rfl

/-- A conditional or an assignment, from what stands in the place of its target. -/
theorem assignment_expr (ih : DescentReads n) (r : Reading) (hn : 16 * r.rest.length + 9 ≤ n) :
    Reads (readExpr (n + 1) .assignment) r r.rest.length fun e _ us =>
      Derives (.expr .assignment e) us := by
  rw [readExpr]
  refine (ih.expr .disjunction r hn).bind fun left r₁ h₁ => ?_
  refine (readBranches_reads ih.expr left (r := r₁) (by omega)).bind fun target r₂ h₂ => ?_
  refine (readAssigned_reads ih.expr target (r := r₂) (by omega)).mono (by omega) ?_
  rintro e _ us hassigned vs hbranches ts hleft
  rcases hassigned with ⟨rfl, rfl⟩ | ⟨equals, ws, v, rfl, heq, hv, htarget⟩
  · -- nothing is assigned
    rcases hbranches with ⟨rfl, rfl⟩ | ⟨question, us, colon, ws, t, f, rfl, rfl, hq, ht, hc, hf⟩
    · rw [List.append_nil, List.append_nil]
      exact .lift hleft
    · have := Derives.conditional hleft hq ht hc hf
      simpa using this
  · -- the target is a name or a property, and hence not a conditional
    rcases hbranches with ⟨rfl, rfl⟩ | ⟨question, us, colon, ws, t, f, rfl, rfl, hq, ht, hc, hf⟩
    · rcases htarget with ⟨name, rfl, rfl⟩ | ⟨object, name, rfl, rfl⟩
      · exact .assign hleft heq hv
      · exact .set hleft heq hv
    · rcases htarget with ⟨name, hcontra, -⟩ | ⟨object, name, hcontra, -⟩ <;> cases hcontra

/-- An operator before its operand, or what binds tighter. -/
theorem unary_expr (ih : DescentReads n) (r : Reading) (hn : 16 * r.rest.length + 2 ≤ n) :
    Reads (readExpr (n + 1) .unary) r r.rest.length fun e _ us =>
      Derives (.expr .unary e) us := by
  rw [readExpr]
  refine Reads.matchAccept ?_ ?_
  · intro operator r₁ h₁ hop
    refine (ih.expr .unary r₁ (by simp only [Level.steps]; omega)).bind fun e r₂ h₂ => ?_
    refine Reads.pure (by omega) ?_
    intro ts he
    have hop' : operator.kind = .bang ∨ operator.kind = .minus := by simpa using hop
    rw [List.append_nil]
    exact .unary hop' he
  · exact (ih.expr .call r hn).mono (Nat.le_refl _) fun _ _ _ h => .lift h

/-- An expression of any level. -/
theorem expr_succ (ih : DescentReads n) : ExprReader (n + 1) (readExpr (n + 1)) := by
  intro level r hn
  by_cases hassign : level = .assignment
  · subst hassign
    exact ih.assignment_expr r (Nat.le_of_succ_le_succ hn)
  by_cases hunary : level = .unary
  · subst hunary
    exact ih.unary_expr r (Nat.le_of_succ_le_succ hn)
  by_cases hcall : level = .call
  · subst hcall
    rw [readExpr]
    refine (ih.expr .primary r (Nat.le_of_succ_le_succ hn)).bind fun e r₁ h₁ => ?_
    refine (ih.suffixes e r₁ (by omega)).mono (by omega) ?_
    intro e' _ us hsuffix ts he
    exact hsuffix ts (.lift he)
  by_cases hprimary : level = .primary
  · subst hprimary
    rw [readExpr]
    exact readPrimary_reads ih.expr ih.block (Nat.le_of_succ_le_succ hn)
  -- the levels of operators between operands
  rw [readExpr.eq_6 _ _ hassign hunary hcall hprimary]
  have hsteps := steps_tighter hprimary
  refine (ih.expr level.tighter r (by omega)).bind fun left r₁ h₁ => ?_
  refine (ih.operands level left r₁ (by omega)).mono (by omega) ?_
  intro e _ us hoperands ts hleft
  exact hoperands ts (.lift hleft)

/-- The operators of a level, each with its right operand. -/
theorem operands_succ (ih : DescentReads n) (level : Level) (left : Expr) (r : Reading)
    (hn : 16 * r.rest.length + 1 ≤ n + 1) :
    Reads (readOperands (n + 1) level left) r (r.rest.length + 1) fun e _ us =>
      ∀ ts, Derives (.expr level left) ts → Derives (.expr level e) (ts ++ us) := by
  rw [readOperands]
  refine Reads.matchAccept ?_ ?_
  · intro operator r₁ h₁ hop
    have hsteps : level.tighter.steps ≤ 10 := by cases level <;> decide
    refine (ih.expr level.tighter r₁ (by omega)).bind fun right r₂ h₂ => ?_
    refine (ih.operands level (level.join left operator right) r₂ (by omega)).mono (by omega) ?_
    intro e _ us hoperands rs hright ts hleft
    have := hoperands _ (.join hop hleft hright)
    simpa using this
  · refine Reads.pure (by omega) ?_
    intro ts hleft
    rw [List.append_nil]
    exact hleft

/-- The calls and properties behind an expression. -/
theorem suffixes_succ (ih : DescentReads n) (e : Expr) (r : Reading)
    (hn : 16 * r.rest.length + 1 ≤ n + 1) :
    Reads (readSuffixes (n + 1) e) r (r.rest.length + 1) fun e' _ us =>
      ∀ ts, Derives (.expr .call e) ts → Derives (.expr .call e') (ts ++ us) := by
  rw [readSuffixes]
  refine Reads.ifAccept ?_ ?_
  · intro lparen r₁ h₁ hl _
    refine Reads.look rfl ?_
    split
    · refine Reads.require fun rparen r₂ h₂ hr => ?_
      refine (ih.suffixes (.call e rparen []) r₂ (by omega)).mono (by omega) ?_
      intro e' _ us hsuffix ts he
      have := hsuffix _ (.callEmpty he hl hr)
      simpa using this
    · refine (ih.arguments [] r₁ (by omega)).bind fun es r₂ h₂ => ?_
      refine Reads.require fun rparen r₃ h₃ hr => ?_
      refine (ih.suffixes (.call e rparen es) r₃ (by omega)).mono (by omega) ?_
      rintro e' _ us hsuffix as ⟨es', rfl, hes, hlen⟩ ts he
      have := hsuffix _ (.call he hl hes hlen hr)
      simpa using this
  · intro _
    refine Reads.ifAccept ?_ ?_
    · intro dot r₁ h₁ hdot _
      refine Reads.require fun name r₂ h₂ hname => ?_
      refine (ih.suffixes (.get e name) r₂ (by omega)).mono (by omega) ?_
      intro e' _ us hsuffix ts he
      have := hsuffix _ (.get he hdot hname)
      simpa using this
    · intro _
      refine Reads.pure (by omega) ?_
      intro ts he
      rw [List.append_nil]
      exact he

/-- The arguments of a call that are still to be read. -/
theorem arguments_succ (ih : DescentReads n) (known : List Expr) (r : Reading)
    (hn : 16 * r.rest.length + 11 ≤ n + 1) :
    Reads (readArguments (n + 1) known) r r.rest.length fun es _ us =>
      ∃ es', es = known.reverse ++ es' ∧ Derives (.arguments es') us ∧
        es.length ≤ maxListed := by
  rw [readArguments]
  refine (checkRoom_reads .arguments known.length r).bind fun _ r₁ h₁ => ?_
  refine (ih.expr .assignment r₁ (by simp only [Level.steps]; omega)).bind fun e r₂ h₂ => ?_
  refine Reads.ifAccept ?_ ?_
  · intro comma r₃ h₃ hcomma _
    refine (ih.arguments (e :: known) r₃ (by omega)).mono (by omega) ?_
    rintro es _ us ⟨es', rfl, hes, hlen⟩ ts he _ ⟨rfl, -⟩
    refine ⟨e :: es', ?_, .argumentCons he hcomma hes, hlen⟩
    rw [List.reverse_cons, List.append_assoc, List.singleton_append]
  · intro _
    refine Reads.pure (by omega) ?_
    rintro ts he _ ⟨rfl, hroom⟩
    refine ⟨[e], List.reverse_cons, ?_, ?_⟩
    · simpa using Derives.argument he
    · rw [List.length_reverse, List.length_cons]
      exact hroom

/-- A statement. -/
theorem statement_succ (ih : DescentReads n) :
    StatementReader (n + 1) (readStatement (n + 1)) := by
  intro r hn
  -- a statement that does not end in another one does not hang
  have hclosed : ∀ {s : Stmt} {r' : Reading} {us : List Token},
      Derives (.statement false s) us →
      ∃ hanging, Derives (.statement hanging s) us ∧
        (hanging = true → r'.nextIs .kwElse = false) :=
    fun h => ⟨false, h, fun hf => absurd hf (by decide)⟩
  rw [readStatement]
  refine Reads.matchAccept ?_ ?_
  · intro word r₁ h₁ hword
    simp only
    split
    · next hk =>
      exact (readFor_reads ih.expr ih.statement hk (by omega)).mono (by omega) fun _ _ _ h => h
    · next hk =>
      exact (readIf_reads ih.expr ih.statement hk (by omega)).mono (by omega) fun _ _ _ h => h
    · next hk =>
      exact (readPrint_reads ih.expr hk (by omega)).mono (by omega) fun _ _ _ h => hclosed h
    · next hk =>
      exact (readReturn_reads ih.expr hk (by omega)).mono (by omega) fun _ _ _ h => hclosed h
    · next hk =>
      exact (readWhile_reads ih.expr ih.statement hk (by omega)).mono (by omega) fun _ _ _ h => h
    · next hk =>
      refine (ih.block r₁ (by omega)).bind fun ss r₂ h₂ => ?_
      refine Reads.pure (by omega) ?_
      intro us hss
      rw [List.append_nil]
      exact hclosed (.block hk hss)
    · next h₂ h₃ h₄ h₅ h₆ h₇ =>
      have hk : word.kind = .kwBreak ∨ word.kind = .kwContinue := by
        simp only [List.mem_cons, List.not_mem_nil, or_false] at hword
        rcases hword with h | h | h | h | h | h | h | h
        · exact absurd h h₂
        · exact absurd h h₃
        · exact absurd h h₄
        · exact absurd h h₅
        · exact absurd h h₆
        · exact .inl h
        · exact .inr h
        · exact absurd h h₇
      exact (readJump_reads hk).mono (by omega) fun _ _ _ h => hclosed h
  · refine (readExpressionStatement_reads ih.expr (by omega)).mono (Nat.le_refl _) ?_
    rintro _ _ _ ⟨e, ts, semicolon, rfl, rfl, he, hsemi⟩
    exact hclosed (.expression he hsemi)

/-- A declaration, with recovery. -/
theorem declaration_succ (ih : DescentReads n) (r : Reading) (hne : r.rest ≠ [])
    (hn : 16 * r.rest.length + 13 ≤ n + 1) :
    Reads (readDeclaration (n + 1)) r r.rest.length fun s _ us =>
      ∃ stmt, s = some stmt ∧ Derives (.declaration stmt) us := by
  rw [readDeclaration]
  refine recovering_reads hne ?_
  refine Reads.ifAccept ?_ ?_
  · intro keyword r₁ h₁ hk _
    exact (readClass_reads ih.members hk (by omega)).mono (by omega) fun _ _ _ h => h
  · intro _
    refine Reads.ifStartsFunction ?_ ?_
    · intro keyword r₁ h₁ hk
      refine (readFunction_reads ih.block .function (r := r₁) (by omega)).bind fun f r₂ h₂ => ?_
      refine Reads.pure (by omega) ?_
      intro us hf
      rw [List.append_nil]
      exact .functionDeclaration hk hf
    · refine Reads.ifAccept ?_ ?_
      · intro keyword r₁ h₁ hk _
        refine (readVariable_reads ih.expr hk (by omega)).mono (by omega) fun _ _ _ h => ?_
        exact .variableDeclaration h
      · intro _
        refine (ih.statement r (by omega)).mono (Nat.le_refl _) ?_
        rintro s _ us ⟨hanging, hs, -⟩
        exact .statementDeclaration hs

/-- Declarations up to the brace that closes them. -/
theorem block_succ (ih : DescentReads n) : BlockReader (n + 1) (readBlock (n + 1)) := by
  intro r hn
  rw [readBlock]
  refine Reads.look rfl ?_
  split
  · refine Reads.require fun rbrace r₁ h₁ hr => ?_
    exact Reads.pure (by omega) (.body .declarationsNil hr)
  · next hends =>
    have hne : r.rest ≠ [] := by
      intro hnil
      simp [hnil] at hends
    refine (ih.declaration r hne (by omega)).bind fun s r₁ h₁ => ?_
    refine (ih.block r₁ (by omega)).bind fun ss r₂ h₂ => ?_
    refine Reads.pure (by omega) ?_
    rintro us hss ts ⟨stmt, rfl, hs⟩
    rw [List.append_nil]
    cases hss with
    | body hds hrb =>
      have := Derives.body (.declarationsCons hs hds) hrb
      simpa using this

/-- The members of a class up to the brace that closes them. -/
theorem members_succ (ih : DescentReads n) : MembersReader (n + 1) (readMembers (n + 1)) := by
  intro r hn
  rw [readMembers]
  refine Reads.look rfl ?_
  split
  · exact Reads.pure (by omega) .membersNil
  · refine Reads.ifAccept ?_ ?_
    · intro keyword r₁ h₁ hk _
      refine (readFunction_reads ih.block .staticMethod (r := r₁) (by omega)).bind
        fun f r₂ h₂ => ?_
      refine (ih.members r₂ (by omega)).bind fun ms r₃ h₃ => ?_
      refine Reads.pure (by omega) ?_
      intro us hms ts hf
      rw [List.append_nil]
      exact .staticCons hk hf hms
    · intro _
      refine (readFunction_reads ih.block .method (by omega)).bind fun f r₁ h₁ => ?_
      refine (ih.members r₁ (by omega)).bind fun ms r₂ h₂ => ?_
      refine Reads.pure (by omega) ?_
      intro us hms ts hf
      rw [List.append_nil]
      exact .methodCons hf hms

end DescentReads

/-- **The descent reads the grammar**, within any depth. -/
theorem descentReads (n : Nat) : DescentReads n := by
  induction n with
  | zero =>
    -- no depth is enough for anything
    refine ⟨?_, ?_, ?_, ?_, ?_, ?_, ?_, ?_⟩
    · intro level r hn
      cases level <;> simp only [Level.steps] at hn <;> omega
    · intro level left r hn
      omega
    · intro e r hn
      omega
    · intro known r hn
      omega
    · intro r hn
      omega
    · intro r hne hn
      omega
    · intro r hn
      omega
    · intro r hn
      omega
  | succ n ih =>
    exact ⟨ih.expr_succ, ih.operands_succ, ih.suffixes_succ, ih.arguments_succ,
      ih.statement_succ, ih.declaration_succ, ih.block_succ, ih.members_succ⟩

/-! ### Whole programs -/

/-- A whole program is read to its end. -/
theorem readProgram_reads (n : Nat) (r : Reading) (hn : 16 * r.rest.length + 14 ≤ n) :
    Reads (readProgram n) r (r.rest.length + 1) fun ss r' us =>
      r'.rest = [] ∧ Derives (.declarations ss) us := by
  induction n generalizing r with
  | zero => omega
  | succ n ih =>
    rw [readProgram]
    refine Reads.look rfl ?_
    split
    · next hend =>
      refine Reads.pure (by omega) ⟨?_, .declarationsNil⟩
      exact List.isEmpty_iff.mp hend
    · next hend =>
      have hne : r.rest ≠ [] := fun hnil => hend (List.isEmpty_iff.mpr hnil)
      refine ((descentReads n).declaration r hne (by omega)).bind fun s r₁ h₁ => ?_
      refine (ih r₁ (by omega)).bind fun ss r₂ h₂ => ?_
      refine Reads.pure (by omega) ?_
      rintro us ⟨hend, hss⟩ ts ⟨stmt, rfl, hs⟩
      refine ⟨hend, ?_⟩
      rw [List.append_nil]
      exact .declarationsCons hs hss

/-- A fault does not leave the declaration in which it is noticed. -/
theorem readDeclaration_ne_fault (n : Nat) (r r' : Reading) :
    readDeclaration n r ≠ .error .fault r' := by
  cases n with
  | zero =>
    rw [readDeclaration]
    exact fun h => by cases h
  | succ n =>
    rw [readDeclaration]
    unfold recovering
    split <;> exact fun h => by cases h

/-- No fault leaves the reading of a program. -/
theorem readProgram_ne_fault (n : Nat) (r r' : Reading) : readProgram n r ≠ .error .fault r' := by
  induction n generalizing r with
  | zero =>
    rw [readProgram]
    exact fun h => by cases h
  | succ n ih =>
    rw [readProgram]
    intro h
    rcases ReadM.bind_eq_error h with h | ⟨ended, r₁, -, h⟩
    · cases h
    cases ended with
    | true => cases h
    | false =>
      rcases ReadM.bind_eq_error h with h | ⟨s, r₂, -, h⟩
      · exact readDeclaration_ne_fault n r₁ r' h
      rcases ReadM.bind_eq_error h with h | ⟨ss, r₃, -, h⟩
      · exact ih r₂ h
      · cases h

/-- Reading comes to an end for all tokens. -/
theorem readProgram_eq_ok (tokens : List Token) (final : Token) :
    ∃ program r, readProgram (descentBound tokens.length) ⟨tokens, final, #[]⟩ = .ok program r := by
  have hread := readProgram_reads (descentBound tokens.length) ⟨tokens, final, #[]⟩
    (by simp only [descentBound]; omega)
  unfold Reads at hread
  cases hp : readProgram (descentBound tokens.length) ⟨tokens, final, #[]⟩ with
  | ok program r => exact ⟨program, r, rfl⟩
  | error stop r =>
    rw [hp] at hread
    cases stop with
    | fault => exact absurd hp (readProgram_ne_fault _ _ _)
    | tooDeep => exact hread.elim

/-- A reading of tokens that records no fault gives a program that the tokens form. -/
theorem Program.ofTokens_derives {tokens : List Token} {final : Token}
    (h : (Program.ofTokens tokens final).faults = []) :
    Derives (.declarations (Program.ofTokens tokens final).program) tokens := by
  have hread := readProgram_reads (descentBound tokens.length) ⟨tokens, final, #[]⟩
    (by simp only [descentBound]; omega)
  obtain ⟨program, r, hp⟩ := readProgram_eq_ok tokens final
  unfold Reads at hread
  unfold Program.ofTokens at h ⊢
  rw [hp] at hread h ⊢
  obtain ⟨-, -, used, hused, hD⟩ := hread
  have hclean : r.faults.size = 0 := by
    rw [← Array.length_toList, List.length_eq_zero_iff]
    exact h
  obtain ⟨hend, hprogram⟩ := hD hclean
  rw [hend, List.append_nil] at hused
  rw [show tokens = used from hused]
  exact hprogram

end LoxLang
