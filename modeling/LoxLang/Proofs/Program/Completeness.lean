import LoxLang.Proofs.Program.Taking

/-!
# The descent reads all of the grammar

Tokens that form a phrase are read as that phrase, without a fault, if what stands behind
them cannot belong to it.  What can belong to an expression are the operators, marks and
words that go on with one of its level or of a tighter one; what can belong to a statement
is an `else`, if the statement hangs.

An expression of a level with operators is read in two parts: the operand furthest to the
left, and then the operators with their right operands, one after the other.  A derivation
goes the other way round, from the last operator to the first.  The statement about such a
level is therefore about the reading *up to* the end of the expression, where it goes on
with what comes next, whatever it is.

## Main definitions

* `Phrase.Taken` — what it means that the tokens of a phrase are read as that phrase.

## Main results

* `Derives.taken` — **the tokens of a phrase are read as that phrase.**
* `Program.ofTokens_eq_iff` — **a program is read from the tokens that form it, and from
  no others.**
-/

namespace LoxLang

/-! ### Reading a phrase -/

/-- The tokens of a phrase are read as that phrase, on enough depth for them and what is
behind them. -/
def Phrase.Taken : Phrase → List Token → Prop
  | .expr level e, ts => ∀ n rest, 16 * (ts.length + rest.length) + level.steps ≤ n →
      Stops level.operandSteps rest →
      ∃ k, 16 * rest.length < k ∧ Becomes (readExpr n level) (ts ++ rest) (level.goOn k e) rest
  | .optional e, ts => ∀ n (t : Token) rest, 16 * (ts.length + rest.length) + 27 ≤ n →
      t.kind = .semicolon ∨ t.kind = .rightParen →
      Takes (readUnless t.kind (readExpr n)) (ts ++ t :: rest) e (t :: rest)
  | .arguments es, ts => ∀ n known rest, 16 * (ts.length + rest.length) + 11 ≤ n →
      known.length + es.length ≤ maxListed → Stops Level.comma.steps rest →
      Takes (readArguments n known) (ts ++ rest) (known.reverse ++ es) rest
  | .variable s, ts => ∀ n rest, 16 * (ts.length + rest.length) ≤ n →
      Takes (readVariable (readExpr n)) (ts.tail ++ rest) s rest
  | .clause s, ts => ∀ n rest, 16 * (ts.length + rest.length) + 11 ≤ n →
      Takes (readClause (readExpr n)) (ts ++ rest) s rest
  | .statement hanging s, ts => ∀ n rest, 16 * (ts.length + rest.length) + 12 ≤ n →
      (hanging = true → NextIsNot .kwElse rest) → Takes (readStatement n) (ts ++ rest) s rest
  | .declaration s, ts => ∀ n rest, 16 * (ts.length + rest.length) + 13 ≤ n →
      NextIsNot .kwElse rest → Takes (readDeclaration n) (ts ++ rest) (some s) rest
  | .declarations ss, ts => ∀ n (rbrace : Token) rest,
      16 * (ts.length + rest.length) + 30 ≤ n → rbrace.kind = .rightBrace →
      Takes (readBlock n) (ts ++ rbrace :: rest) ss rest
  | .body ss, ts => ∀ n rest, 16 * (ts.length + rest.length) + 14 ≤ n →
      Takes (readBlock n) (ts ++ rest) ss rest
  | .function role f, ts => ∀ n rest, 16 * (ts.length + rest.length) ≤ n →
      Takes (readFunction n (readBlock n) role) (ts ++ rest) f rest
  | .members methods statics, ts => ∀ n (rbrace : Token) rest,
      16 * (ts.length + rest.length) + 30 ≤ n → rbrace.kind = .rightBrace →
      Takes (readMembers n) (ts ++ rbrace :: rest) (methods, statics) (rbrace :: rest)

namespace Phrase.Taken

variable {n : Nat} {level : Level} {e : Expr} {ts us rest : List Token}

/-- An expression is read if the next token does not go on with it. -/
theorem takes_expr (h : (Phrase.expr level e).Taken ts)
    (hn : 16 * (ts.length + rest.length) + level.steps ≤ n) (hrest : Stops level.steps rest) :
    Takes (readExpr n level) (ts ++ rest) e rest := by
  obtain ⟨k, hk, heq⟩ := h n rest hn (hrest.mono level.operandSteps_le)
  exact heq.trans (Level.takes_goOn (by omega) e hrest)

/-! #### Expressions -/

/-- Where a level has operators, it goes on with them behind its first operand. -/
theorem goOn_operators {kind : TokenKind} (h : kind ∈ level.operators) :
    level.goOn n e = readOperands n level e ∧ level.operandSteps = level.tighter.steps ∧
      level.tighter.steps < level.steps := by
  cases level with
  | assignment | unary | call | primary => exact absurd h List.not_mem_nil
  | _ => exact ⟨rfl, rfl, by decide⟩

theorem readBranches_not {expr : Level → ReadM Expr} (h : NextIsNot .question rest) :
    Takes (readBranches expr e) rest e rest :=
  (Takes.accept_not h).bind Takes.pure

theorem readAssigned_not {expr : Level → ReadM Expr} (h : NextIsNot .equal rest) :
    Takes (readAssigned expr e) rest e rest := by
  refine (Takes.accept?_not ?_).bind Takes.pure
  intro t ht hmem
  exact h t ht (List.mem_singleton.mp hmem)

/-- What binds tighter than a level. -/
theorem lift (hbegins : BeginsExpr level.tighter ts)
    (h : (Phrase.expr level.tighter e).Taken ts) : (Phrase.expr level e).Taken ts := by
  by_cases hprimary : level = .primary
  · subst hprimary
    exact h
  intro n rest hn hrest
  have hsteps := DescentReads.steps_tighter hprimary
  obtain ⟨n, rfl⟩ : ∃ k, n = k + 1 := ⟨n - 1, by omega⟩
  have hlen : 0 < ts.length := by
    obtain ⟨t, us, rfl, -⟩ := hbegins
    exact Nat.succ_pos _
  have htighter : level.tighter.steps ≤ level.operandSteps := by cases level <;> decide
  have hoperand := h.takes_expr (n := n) (by omega) (hrest.mono htighter)
  by_cases hassign : level = .assignment
  · -- neither branches nor a value follow
    subst hassign
    refine ⟨_, Nat.lt_succ_self _, ?_⟩
    rw [readExpr]
    refine hoperand.bind ((readBranches_not (hrest.nextIsNot (by decide))).bind ?_)
    exact readAssigned_not (hrest.nextIsNot (by decide))
  by_cases hunary : level = .unary
  · -- the operand does not begin with an operator
    subst hunary
    refine ⟨_, Nat.lt_succ_self _, ?_⟩
    rw [readExpr]
    refine (Takes.accept?_not ?_).bind hoperand
    obtain ⟨t, us, rfl, hk, -⟩ := hbegins
    rintro u ⟨⟩ hmem
    rcases hk with hk | ⟨-, hk⟩
    · revert hk hmem
      cases t.kind <;> decide
    · exact absurd hk (by decide)
  refine ⟨n, by omega, ?_⟩
  by_cases hcall : level = .call
  · subst hcall
    rw [readExpr]
    exact hoperand.becomes
  rw [readExpr.eq_6 _ _ hassign hunary hcall hprimary]
  cases level with
  | assignment | unary | call | primary => contradiction
  | _ => exact hoperand.becomes

/-- Two operands and the operator between them. -/
theorem join {l r : Expr} {operator : Token} {ls rs : List Token}
    (hop : operator.kind ∈ level.operators) (hl : (Phrase.expr level l).Taken ls)
    (hr : (Phrase.expr level.tighter r).Taken rs) :
    (Phrase.expr level (level.join l operator r)).Taken (ls ++ operator :: rs) := by
  intro n rest hn hrest
  obtain ⟨-, hoperand, hlt⟩ := goOn_operators (n := n) (e := l) hop
  rw [hoperand] at hrest
  simp only [List.length_append, List.length_cons] at hn
  -- the left operand is read up to the operator
  obtain ⟨k, hk, heq⟩ := hl n (operator :: (rs ++ rest))
    (by simp only [List.length_append, List.length_cons]; omega)
    (by rw [Stops.cons, Level.reach_of_mem_operators hop]; omega)
  obtain ⟨k, rfl⟩ : ∃ j, k = j + 1 := ⟨k - 1, by omega⟩
  simp only [List.length_append, List.length_cons] at hk
  have hsteps : level.tighter.steps ≤ 10 := by cases level <;> decide
  refine ⟨k, by omega, ?_⟩
  rw [List.append_assoc, List.cons_append]
  refine heq.trans ?_
  rw [(goOn_operators hop).1, (goOn_operators hop).1, readOperands]
  refine (Takes.accept? hop).becomes.trans ?_
  exact (hr.takes_expr (by omega) hrest).becomes

/-- A conditional. -/
theorem conditional {c t f : Expr} {question colon : Token} {cs ts fs : List Token}
    (hc : (Phrase.expr .disjunction c).Taken cs) (hq : question.kind = .question)
    (ht : (Phrase.expr .assignment t).Taken ts) (hcolon : colon.kind = .colon)
    (hf : (Phrase.expr .assignment f).Taken fs) :
    (Phrase.expr .assignment (.conditional c t f)).Taken (cs ++ question :: ts ++ colon :: fs) := by
  intro n rest hn hrest
  simp only [List.length_append, List.length_cons, Level.steps] at hn
  obtain ⟨n, rfl⟩ : ∃ k, n = k + 1 := ⟨n - 1, by omega⟩
  refine ⟨_, Nat.lt_succ_self _, ?_⟩
  rw [readExpr]
  simp only [List.append_assoc, List.cons_append]
  refine (hc.takes_expr (by simp only [List.length_append, List.length_cons, Level.steps]; omega)
    (by rw [Stops.cons, hq]; decide)).bind ?_
  have hbranches : Takes (readBranches (readExpr n) c)
      (question :: (ts ++ colon :: (fs ++ rest))) (.conditional c t f) rest := by
    refine (Takes.accept hq).bind ?_
    refine (ht.takes_expr (by simp only [List.length_append, List.length_cons, Level.steps]; omega)
      (by rw [Stops.cons, hcolon]; decide)).bind ?_
    refine (Takes.require hcolon).bind ?_
    exact (hf.takes_expr (by simp only [Level.steps]; omega) hrest).bind Takes.pure
  exact hbranches.bind (readAssigned_not (hrest.nextIsNot (by decide)))

/-- An assignment to a target, which `assignTo` makes of the target and the value. -/
theorem assigned {target value result : Expr} {equals : Token} {ts vs : List Token}
    (ht : (Phrase.expr .disjunction target).Taken ts) (heq : equals.kind = .equal)
    (hv : (Phrase.expr .assignment value).Taken vs)
    (hresult : ∀ us, Takes (assignTo target equals value) us result us) :
    (Phrase.expr .assignment result).Taken (ts ++ equals :: vs) := by
  intro n rest hn hrest
  simp only [List.length_append, List.length_cons, Level.steps] at hn
  obtain ⟨n, rfl⟩ : ∃ k, n = k + 1 := ⟨n - 1, by omega⟩
  refine ⟨_, Nat.lt_succ_self _, ?_⟩
  rw [readExpr]
  simp only [List.append_assoc, List.cons_append]
  refine (ht.takes_expr (by simp only [List.length_append, List.length_cons, Level.steps]; omega)
    (by rw [Stops.cons, heq]; decide)).bind ?_
  refine (readBranches_not (by rw [nextIsNot_cons, heq]; decide)).bind ?_
  refine (Takes.accept? (by rw [heq]; decide)).bind ?_
  exact (hv.takes_expr (by simp only [Level.steps]; omega) hrest).bind (hresult rest)

/-- An operator before its operand. -/
theorem unary {operator : Token} (hop : operator.kind = .bang ∨ operator.kind = .minus)
    (h : (Phrase.expr .unary e).Taken ts) :
    (Phrase.expr .unary (.unary operator e)).Taken (operator :: ts) := by
  intro n rest hn hrest
  simp only [List.length_cons, Level.steps] at hn
  obtain ⟨n, rfl⟩ : ∃ k, n = k + 1 := ⟨n - 1, by omega⟩
  refine ⟨_, Nat.lt_succ_self _, ?_⟩
  rw [readExpr]
  refine (Takes.accept? (by simpa using hop)).bind ?_
  exact (h.takes_expr (by simp only [Level.steps]; omega) hrest).bind Takes.pure

/-- A suffix behind an expression, which the reading of suffixes goes over. -/
theorem suffix {e' : Expr} (h : (Phrase.expr .call e).Taken ts)
    (hsuffix : ∀ k rest, 16 * (us.length + rest.length) < k →
      ∃ k', 16 * rest.length < k' ∧
        Becomes (readSuffixes k e) (us ++ rest) (readSuffixes k' e') rest) :
    (Phrase.expr .call e').Taken (ts ++ us) := by
  intro n rest hn _
  rw [List.length_append] at hn
  obtain ⟨k, hk, hread⟩ := h n (us ++ rest) (by rw [List.length_append]; omega) Stops.primary
  obtain ⟨k', hk', hread'⟩ := hsuffix k rest (by rw [List.length_append] at hk; omega)
  rw [List.append_assoc]
  exact ⟨k', hk', hread.trans hread'⟩

/-- A call without arguments. -/
theorem callEmpty {callee : Expr} {lparen rparen : Token}
    (hc : (Phrase.expr .call callee).Taken ts) (hl : lparen.kind = .leftParen)
    (hr : rparen.kind = .rightParen) :
    (Phrase.expr .call (.call callee rparen [])).Taken (ts ++ [lparen, rparen]) := by
  refine hc.suffix fun k rest hk => ?_
  simp only [List.length_cons, List.length_nil] at hk
  obtain ⟨k, rfl⟩ : ∃ j, k = j + 1 := ⟨k - 1, by omega⟩
  refine ⟨k, by omega, ?_⟩
  rw [readSuffixes]
  refine (Takes.accept hl).becomes.trans ?_
  refine (Takes.nextIs hr).becomes.trans ?_
  exact (Takes.require hr).becomes

/-- A call with arguments. -/
theorem call {callee : Expr} {es : List Expr} {lparen rparen : Token}
    (hc : (Phrase.expr .call callee).Taken ts) (hl : lparen.kind = .leftParen)
    (hbegins : BeginsExpr .assignment us) (hes : (Phrase.arguments es).Taken us)
    (hlen : es.length ≤ maxListed) (hr : rparen.kind = .rightParen) :
    (Phrase.expr .call (.call callee rparen es)).Taken (ts ++ lparen :: us ++ [rparen]) := by
  rw [List.append_assoc]
  refine hc.suffix fun k rest hk => ?_
  simp only [List.length_append, List.length_cons, List.length_nil] at hk
  obtain ⟨k, rfl⟩ : ∃ j, k = j + 1 := ⟨k - 1, by omega⟩
  refine ⟨k, by omega, ?_⟩
  rw [readSuffixes]
  simp only [List.cons_append, List.append_assoc, List.nil_append]
  refine (Takes.accept hl).becomes.trans ?_
  refine (Takes.nextIs_not ((hbegins.append _).nextIsNot .rightParen rfl)).becomes.trans ?_
  refine (hes k [] (rparen :: rest) (by simp only [List.length_cons]; omega) ?_ ?_).becomes.trans ?_
  · rw [List.length_nil, Nat.zero_add]
    exact hlen
  · rw [Stops.cons, hr]
    decide
  · exact (Takes.require hr).becomes

/-- A property. -/
theorem get {object : Expr} {dot name : Token} (ho : (Phrase.expr .call object).Taken ts)
    (hdot : dot.kind = .dot) (hname : name.kind = .identifier) :
    (Phrase.expr .call (.get object name)).Taken (ts ++ [dot, name]) := by
  refine ho.suffix fun k rest hk => ?_
  simp only [List.length_cons, List.length_nil] at hk
  obtain ⟨k, rfl⟩ : ∃ j, k = j + 1 := ⟨k - 1, by omega⟩
  refine ⟨k, by omega, ?_⟩
  rw [readSuffixes]
  refine (Takes.accept_not (nextIsNot_cons.mpr (by rw [hdot]; decide))).becomes.trans ?_
  refine (Takes.accept hdot).becomes.trans ?_
  exact (Takes.require hname).becomes

/-- A single argument. -/
theorem argument (h : (Phrase.expr .assignment e).Taken ts) : (Phrase.arguments [e]).Taken ts := by
  intro n known rest hn hlen hrest
  obtain ⟨n, rfl⟩ : ∃ k, n = k + 1 := ⟨n - 1, by omega⟩
  rw [readArguments]
  refine (Takes.checkRoom hlen).bind ?_
  refine (h.takes_expr (by simp only [Level.steps]; omega) (hrest.mono (by decide))).bind ?_
  refine (Takes.accept_not (hrest.nextIsNot (by decide))).bind ?_
  rw [← List.reverse_cons]
  exact Takes.pure

/-- An argument, a comma and further arguments. -/
theorem argumentCons {es : List Expr} {comma : Token} (h : (Phrase.expr .assignment e).Taken ts)
    (hcomma : comma.kind = .comma) (hes : (Phrase.arguments es).Taken us) :
    (Phrase.arguments (e :: es)).Taken (ts ++ comma :: us) := by
  intro n known rest hn hlen hrest
  simp only [List.length_append, List.length_cons] at hn hlen
  obtain ⟨n, rfl⟩ : ∃ k, n = k + 1 := ⟨n - 1, by omega⟩
  rw [readArguments]
  simp only [List.append_assoc, List.cons_append]
  refine (Takes.checkRoom (by omega)).bind ?_
  refine (h.takes_expr (by simp only [List.length_append, List.length_cons, Level.steps]; omega)
    (by rw [Stops.cons, hcomma]; decide)).bind ?_
  refine (Takes.accept hcomma).bind ?_
  have hmore := hes n (e :: known) rest (by omega) (by simp only [List.length_cons]; omega) hrest
  rw [List.reverse_cons, List.append_assoc] at hmore
  exact hmore

/-- A part that stands alone is read by its first token. -/
theorem part (h : ∀ n rest, 16 * (ts.length + rest.length) ≤ n →
    Takes (readPrimary n (readExpr n) (readBlock n)) (ts ++ rest) e rest) :
    (Phrase.expr .primary e).Taken ts := by
  intro n rest hn _
  simp only [Level.steps] at hn
  obtain ⟨n, rfl⟩ : ∃ k, n = k + 1 := ⟨n - 1, by omega⟩
  refine ⟨_, Nat.lt_succ_self _, ?_⟩
  rw [readExpr]
  exact h n rest (by omega)

/-- An expression in parentheses. -/
theorem grouping {lparen rparen : Token} (hl : lparen.kind = .leftParen)
    (h : (Phrase.expr .comma e).Taken ts) (hr : rparen.kind = .rightParen) :
    (Phrase.expr .primary (.grouping e)).Taken (lparen :: ts ++ [rparen]) := by
  refine part fun n rest hn => ?_
  simp only [List.length_append, List.length_cons, List.length_nil] at hn
  have hinner : Takes (readGrouping (readExpr n)) (ts ++ rparen :: rest) (.grouping e) rest := by
    refine (h.takes_expr (by simp only [List.length_cons, Level.steps]; omega)
      (by rw [Stops.cons, hr]; decide)).bind ?_
    exact (Takes.require hr).bind Takes.pure
  refine Becomes.trans (fun final faults => ?_) hinner
  simp [readPrimary, hl]

end Phrase.Taken

/-! #### Functions -/

theorem ParameterNames.takes {names ts : List Token} (h : ParameterNames names ts) (n : Nat)
    (known rest : List Token) {rparen : Token} (hn : ts.length ≤ n)
    (hlen : known.length + names.length ≤ maxListed) (hr : rparen.kind = .rightParen) :
    Takes (readParametersFrom n known) (ts ++ rparen :: rest) (known.reverse ++ names) rest := by
  induction h generalizing n known with
  | @one name hname =>
    obtain ⟨n, rfl⟩ : ∃ k, n = k + 1 := ⟨n - 1, by rw [List.length_singleton] at hn; omega⟩
    rw [readParametersFrom, ← List.reverse_cons]
    refine (Takes.checkRoom hlen).bind ((Takes.require hname).bind ?_)
    refine (Takes.accept_not (nextIsNot_cons.mpr (by rw [hr]; decide))).bind ?_
    exact (Takes.require hr).bind Takes.pure
  | @more name comma names ts hname hcomma _ ih =>
    simp only [List.length_cons] at hn hlen
    obtain ⟨n, rfl⟩ : ∃ k, n = k + 1 := ⟨n - 1, by omega⟩
    rw [readParametersFrom]
    refine (Takes.checkRoom (by omega)).bind ((Takes.require hname).bind ?_)
    refine (Takes.accept hcomma).bind ?_
    have hmore := ih n (name :: known) (by omega) (by simp only [List.length_cons]; omega)
    rw [List.reverse_cons, List.append_assoc] at hmore
    exact hmore

/-- A list of parameters is read from behind its opening parenthesis. -/
theorem ParameterList.takes {params ps : List Token} (h : ParameterList params ps) (n : Nat)
    (rest : List Token) (hn : ps.length ≤ n) :
    ∃ lparen us, ps = lparen :: us ∧ lparen.kind = .leftParen ∧
      Takes (readParameters n) (us ++ rest) params rest := by
  cases h with
  | none hl hr =>
    refine ⟨_, _, rfl, hl, ?_⟩
    exact (Takes.nextIs hr).bind ((Takes.require hr).bind Takes.pure)
  | @some lparen rparen names ts hl hnames hlen hr =>
    refine ⟨lparen, ts ++ [rparen], rfl, hl, ?_⟩
    simp only [List.length_append, List.length_cons, List.length_nil] at hn
    have hnot : NextIsNot .rightParen (ts ++ rparen :: rest) := by
      cases hnames with
      | one hname | more hname _ _ =>
        rw [List.cons_append, nextIsNot_cons, hname]
        decide
    rw [List.append_assoc]
    refine (Takes.nextIs_not hnot).bind ?_
    exact hnames.takes n [] rest (by omega) (by rw [List.length_nil, Nat.zero_add]; exact hlen) hr

namespace Phrase.Taken

variable {n : Nat} {ts us rest : List Token} {ss : List Stmt}

/-- A function without a name. -/
theorem lambda {keyword lbrace : Token} {params : List Token} {ps bs : List Token}
    (hk : keyword.kind = .kwFun) (hps : ParameterList params ps)
    (hl : lbrace.kind = .leftBrace) (hbody : (Phrase.body ss).Taken bs) :
    (Phrase.expr .primary (.lambda keyword params ss)).Taken (keyword :: ps ++ lbrace :: bs) := by
  refine part fun n rest hn => ?_
  simp only [List.length_append, List.length_cons] at hn
  obtain ⟨lparen, us, rfl, hlparen, hparams⟩ :=
    hps.takes n (lbrace :: (bs ++ rest)) (by omega)
  have hrest : Takes (readLambda n (readBlock n) keyword)
      (lparen :: (us ++ lbrace :: (bs ++ rest))) (.lambda keyword params ss) rest := by
    refine (Takes.require hlparen).bind (hparams.bind ((Takes.require hl).bind ?_))
    exact (hbody n rest (by omega)).bind Takes.pure
  refine Becomes.trans (fun final faults => ?_) hrest
  simp [readPrimary, hk]

/-- A function from its name on. -/
theorem function {role : FunctionRole} {name lbrace : Token} {params : List Token}
    {ps bs : List Token} (hname : name.kind = .identifier) (hps : ParameterList params ps)
    (hl : lbrace.kind = .leftBrace) (hbody : (Phrase.body ss).Taken bs) :
    (Phrase.function role (.mk name params ss)).Taken (name :: ps ++ lbrace :: bs) := by
  intro n rest hn
  simp only [List.length_append, List.length_cons] at hn
  obtain ⟨lparen, us, rfl, hlparen, hparams⟩ :=
    hps.takes n (lbrace :: (bs ++ rest)) (by omega)
  simp only [List.append_assoc, List.cons_append]
  refine (Takes.require hname).bind ?_
  refine (Takes.nextIs_not (by rw [nextIsNot_cons, hlparen]; decide)).bind ?_
  rw [Bool.and_false]
  refine (Takes.require hlparen).bind (hparams.bind ((Takes.require hl).bind ?_))
  exact (hbody n rest (by omega)).bind Takes.pure

/-- A method that leaves out its list of parameters. -/
theorem bareMethod {name lbrace : Token} {bs : List Token} (hname : name.kind = .identifier)
    (hl : lbrace.kind = .leftBrace) (hbody : (Phrase.body ss).Taken bs) :
    (Phrase.function .method (.mk name [] ss)).Taken (name :: lbrace :: bs) := by
  intro n rest hn
  simp only [List.length_cons] at hn
  refine (Takes.require hname).bind ((Takes.nextIs hl).bind ?_)
  refine (Takes.require hl).bind ?_
  exact (hbody n rest (by omega)).bind Takes.pure

/-! #### Statements -/

variable {e c : Expr} {t : Stmt}

theorem absent : (Phrase.optional none).Taken [] := by
  intro n t rest _ _
  exact (Takes.nextIs rfl).bind Takes.pure

theorem present (hbegins : BeginsExpr .comma ts) (h : (Phrase.expr .comma e).Taken ts) :
    (Phrase.optional (some e)).Taken ts := by
  intro n t rest hn hk
  have hnot : NextIsNot t.kind (ts ++ t :: rest) := by
    rcases hk with hk | hk <;> rw [hk] <;> exact (hbegins.append _).nextIsNot _ rfl
  refine (Takes.nextIs_not hnot).bind ?_
  refine (h.takes_expr (by simp only [List.length_cons, Level.steps]; omega) ?_).bind Takes.pure
  rw [Stops.cons]
  rcases hk with hk | hk <;> rw [hk] <;> decide

/-- An expression of any level up to a semicolon or a parenthesis. -/
theorem takes_upTo {mark : Token} (h : (Phrase.expr .comma e).Taken ts)
    (hn : 16 * (ts.length + rest.length) + 27 ≤ n)
    (hk : mark.kind = .semicolon ∨ mark.kind = .rightParen) :
    Takes (readExpr n .comma) (ts ++ mark :: rest) e (mark :: rest) := by
  refine h.takes_expr (by simp only [List.length_cons, Level.steps]; omega) ?_
  rw [Stops.cons]
  rcases hk with hk | hk <;> rw [hk] <;> decide

theorem bareVariable {keyword name semicolon : Token} (hname : name.kind = .identifier)
    (hsemi : semicolon.kind = .semicolon) :
    (Phrase.variable (.var name none)).Taken [keyword, name, semicolon] := by
  intro n rest hn
  refine (Takes.require hname).bind ?_
  have hnone : Takes (readIfMarked .equal (readExpr n)) (semicolon :: rest) none
      (semicolon :: rest) :=
    (Takes.accept_not (by rw [nextIsNot_cons, hsemi]; decide)).bind Takes.pure
  exact hnone.bind ((Takes.require hsemi).bind Takes.pure)

theorem «variable» {keyword name equals semicolon : Token} (hname : name.kind = .identifier)
    (heq : equals.kind = .equal) (h : (Phrase.expr .comma e).Taken ts)
    (hsemi : semicolon.kind = .semicolon) :
    (Phrase.variable (.var name (some e))).Taken
      (keyword :: name :: equals :: ts ++ [semicolon]) := by
  intro n rest hn
  simp only [List.length_append, List.length_cons, List.length_nil] at hn
  simp only [List.append_assoc, List.cons_append, List.nil_append, List.tail_cons]
  refine (Takes.require hname).bind ?_
  have hsome : Takes (readIfMarked .equal (readExpr n)) (equals :: (ts ++ semicolon :: rest))
      (some e) (semicolon :: rest) := by
    refine (Takes.accept heq).bind ?_
    exact (h.takes_upTo (by omega) (.inl hsemi)).bind Takes.pure
  exact hsome.bind ((Takes.require hsemi).bind Takes.pure)

/-- An expression that stands as a statement, or in place of one. -/
theorem takes_expressionStatement {semicolon : Token} (h : (Phrase.expr .comma e).Taken ts)
    (hsemi : semicolon.kind = .semicolon) (hn : 16 * (ts.length + rest.length) + 27 ≤ n) :
    Takes (readExpressionStatement (readExpr n)) (ts ++ [semicolon] ++ rest) (.expression e)
      rest := by
  rw [List.append_assoc]
  exact (h.takes_upTo hn (.inl hsemi)).bind ((Takes.require hsemi).bind Takes.pure)

theorem noClause {semicolon : Token} (hsemi : semicolon.kind = .semicolon) :
    (Phrase.clause none).Taken [semicolon] := by
  intro n rest _
  exact (Takes.accept hsemi).bind Takes.pure

theorem variableClause (hbegins : ∃ t us, ts = t :: us ∧ t.kind = .kwVar)
    (h : (Phrase.variable t).Taken ts) : (Phrase.clause (some t)).Taken ts := by
  intro n rest hn
  obtain ⟨keyword, us, rfl, hk⟩ := hbegins
  refine (Takes.accept_not (by rw [List.cons_append, nextIsNot_cons, hk]; decide)).bind ?_
  refine (Takes.accept hk).bind ?_
  exact (h n rest (by omega)).bind Takes.pure

theorem expressionClause {semicolon : Token} (hbegins : BeginsExpr .comma ts)
    (h : (Phrase.expr .comma e).Taken ts) (hsemi : semicolon.kind = .semicolon) :
    (Phrase.clause (some (.expression e))).Taken (ts ++ [semicolon]) := by
  intro n rest hn
  rw [List.length_append, List.length_singleton] at hn
  have hbegins' := (hbegins.append [semicolon]).append rest
  refine (Takes.accept_not (hbegins'.nextIsNot .semicolon rfl)).bind ?_
  refine (Takes.accept_not (hbegins'.nextIsNot .kwVar rfl)).bind ?_
  exact (h.takes_expressionStatement hsemi (by omega)).bind Takes.pure

/-- An expression as a statement. -/
theorem expression {semicolon : Token} (hbegins : BeginsExpr .comma ts)
    (h : (Phrase.expr .comma e).Taken ts) (hsemi : semicolon.kind = .semicolon) :
    (Phrase.statement false (.expression e)).Taken (ts ++ [semicolon]) := by
  intro n rest hn _
  rw [List.length_append, List.length_singleton] at hn
  obtain ⟨n, rfl⟩ : ∃ k, n = k + 1 := ⟨n - 1, by omega⟩
  rw [readStatement]
  have hbegins' := (hbegins.append [semicolon]).append rest
  refine (Takes.accept?_not hbegins'.not_statementWords).bind ?_
  exact h.takes_expressionStatement hsemi (by omega)

/-- A statement that begins with a word is read by that word. -/
theorem statement_of_word {word : Token} {hanging : Bool} (hk : word.kind ∈ statementWords)
    (h : ∀ n rest, 16 * (ts.length + rest.length) + 27 ≤ n →
      (hanging = true → NextIsNot .kwElse rest) →
      Takes (match word.kind with
        | .kwFor => readFor (readExpr n) (readStatement n) word
        | .kwIf => readIf (readExpr n) (readStatement n)
        | .kwPrint => readPrint (readExpr n)
        | .kwReturn => readReturn (readExpr n) word
        | .kwWhile => readWhile (readExpr n) (readStatement n)
        | .leftBrace => do return .block word.position (← readBlock n)
        | _ => readJump word) (ts ++ rest) t rest) :
    (Phrase.statement hanging t).Taken (word :: ts) := by
  intro n rest hn hnot
  rw [List.length_cons] at hn
  obtain ⟨n, rfl⟩ : ∃ k, n = k + 1 := ⟨n - 1, by omega⟩
  rw [readStatement]
  exact (Takes.accept? hk).bind (h n rest (by omega) hnot)

theorem print {keyword semicolon : Token} (hk : keyword.kind = .kwPrint)
    (h : (Phrase.expr .comma e).Taken ts) (hsemi : semicolon.kind = .semicolon) :
    (Phrase.statement false (.print e)).Taken (keyword :: ts ++ [semicolon]) := by
  rw [List.cons_append]
  refine statement_of_word (by rw [hk]; decide) fun n rest hn _ => ?_
  rw [List.length_append] at hn
  simp only [hk, List.append_assoc, List.cons_append, List.nil_append]
  exact (h.takes_upTo (by omega) (.inl hsemi)).bind ((Takes.require hsemi).bind Takes.pure)

theorem «return» {keyword semicolon : Token} {value : Option Expr} (hk : keyword.kind = .kwReturn)
    (h : (Phrase.optional value).Taken ts) (hsemi : semicolon.kind = .semicolon) :
    (Phrase.statement false (.return keyword value)).Taken (keyword :: ts ++ [semicolon]) := by
  rw [List.cons_append]
  refine statement_of_word (by rw [hk]; decide) fun n rest hn _ => ?_
  rw [List.length_append] at hn
  simp only [hk, List.append_assoc, List.cons_append, List.nil_append]
  have hvalue := h n semicolon rest (by omega) (.inl hsemi)
  rw [hsemi] at hvalue
  exact hvalue.bind ((Takes.require hsemi).bind Takes.pure)

theorem «break» {keyword semicolon : Token} (hk : keyword.kind = .kwBreak)
    (hsemi : semicolon.kind = .semicolon) :
    (Phrase.statement false (.break keyword)).Taken [keyword, semicolon] := by
  refine statement_of_word (by rw [hk]; decide) fun n rest _ _ => ?_
  simp only [hk]
  refine (Takes.require hsemi).bind ?_
  rw [hk]
  exact Takes.pure

theorem «continue» {keyword semicolon : Token} (hk : keyword.kind = .kwContinue)
    (hsemi : semicolon.kind = .semicolon) :
    (Phrase.statement false (.continue keyword)).Taken [keyword, semicolon] := by
  refine statement_of_word (by rw [hk]; decide) fun n rest _ _ => ?_
  simp only [hk]
  refine (Takes.require hsemi).bind ?_
  rw [hk]
  exact Takes.pure

theorem block {lbrace : Token} (hl : lbrace.kind = .leftBrace) (h : (Phrase.body ss).Taken ts) :
    (Phrase.statement false (.block lbrace.position ss)).Taken (lbrace :: ts) := by
  refine statement_of_word (by rw [hl]; decide) fun n rest hn _ => ?_
  simp only [hl]
  exact (h n rest (by omega)).bind Takes.pure

/-- An `if` without an `else`. -/
theorem ifThen {keyword lparen rparen : Token} {hanging : Bool} {cs : List Token}
    (hk : keyword.kind = .kwIf) (hl : lparen.kind = .leftParen)
    (hc : (Phrase.expr .comma c).Taken cs) (hr : rparen.kind = .rightParen)
    (ht : (Phrase.statement hanging t).Taken ts) :
    (Phrase.statement true (.ifElse c t none)).Taken
      (keyword :: lparen :: cs ++ rparen :: ts) := by
  simp only [List.cons_append]
  refine statement_of_word (by rw [hk]; decide) fun n rest hn hnot => ?_
  simp only [List.length_append, List.length_cons] at hn
  simp only [hk, List.append_assoc, List.cons_append]
  refine (Takes.require hl).bind ?_
  refine (hc.takes_upTo (by simp only [List.length_append]; omega) (.inr hr)).bind ?_
  refine (Takes.require hr).bind ?_
  refine (ht n rest (by omega) fun _ => hnot rfl).bind ?_
  have helse : Takes (readElse (readStatement n)) rest none rest :=
    (Takes.accept_not (hnot rfl)).bind Takes.pure
  exact helse.bind Takes.pure

/-- An `if` with an `else`. -/
theorem ifElse {keyword lparen rparen kwElse : Token} {f : Stmt} {hanging : Bool}
    {cs fs : List Token} (hk : keyword.kind = .kwIf) (hl : lparen.kind = .leftParen)
    (hc : (Phrase.expr .comma c).Taken cs) (hr : rparen.kind = .rightParen)
    (ht : (Phrase.statement false t).Taken ts) (helse : kwElse.kind = .kwElse)
    (hf : (Phrase.statement hanging f).Taken fs) :
    (Phrase.statement hanging (.ifElse c t (some f))).Taken
      (keyword :: lparen :: cs ++ rparen :: ts ++ kwElse :: fs) := by
  simp only [List.cons_append]
  refine statement_of_word (by rw [hk]; decide) fun n rest hn hnot => ?_
  simp only [List.length_append, List.length_cons] at hn
  simp only [hk, List.append_assoc, List.cons_append]
  refine (Takes.require hl).bind ?_
  refine (hc.takes_upTo (by simp only [List.length_append, List.length_cons]; omega)
    (.inr hr)).bind ?_
  refine (Takes.require hr).bind ?_
  refine (ht n _ (by simp only [List.length_append, List.length_cons]; omega) nofun).bind ?_
  have hsecond : Takes (readElse (readStatement n)) (kwElse :: (fs ++ rest)) (some f) rest :=
    (Takes.accept helse).bind ((hf n rest (by omega) hnot).bind Takes.pure)
  exact hsecond.bind Takes.pure

theorem «while» {keyword lparen rparen : Token} {hanging : Bool} {cs : List Token}
    (hk : keyword.kind = .kwWhile) (hl : lparen.kind = .leftParen)
    (hc : (Phrase.expr .comma c).Taken cs) (hr : rparen.kind = .rightParen)
    (ht : (Phrase.statement hanging t).Taken ts) :
    (Phrase.statement hanging (.while c t none)).Taken
      (keyword :: lparen :: cs ++ rparen :: ts) := by
  simp only [List.cons_append]
  refine statement_of_word (by rw [hk]; decide) fun n rest hn hnot => ?_
  simp only [List.length_append, List.length_cons] at hn
  simp only [hk, List.append_assoc, List.cons_append]
  refine (Takes.require hl).bind ?_
  refine (hc.takes_upTo (by simp only [List.length_append]; omega) (.inr hr)).bind ?_
  exact (Takes.require hr).bind ((ht n rest (by omega) hnot).bind Takes.pure)

theorem «for» {keyword lparen semicolon rparen : Token} {initializer : Option Stmt}
    {condition increment : Option Expr} {hanging : Bool} {is cs us : List Token}
    (hk : keyword.kind = .kwFor) (hl : lparen.kind = .leftParen)
    (hi : (Phrase.clause initializer).Taken is) (hc : (Phrase.optional condition).Taken cs)
    (hsemi : semicolon.kind = .semicolon) (hu : (Phrase.optional increment).Taken us)
    (hr : rparen.kind = .rightParen) (ht : (Phrase.statement hanging t).Taken ts) :
    (Phrase.statement hanging (forLoop keyword.position initializer condition increment t)).Taken
      (keyword :: lparen :: is ++ cs ++ semicolon :: us ++ rparen :: ts) := by
  simp only [List.cons_append]
  refine statement_of_word (by rw [hk]; decide) fun n rest hn hnot => ?_
  simp only [List.length_append, List.length_cons] at hn
  simp only [hk, List.append_assoc, List.cons_append]
  refine (Takes.require hl).bind ?_
  refine (hi n _ (by simp only [List.length_append, List.length_cons]; omega)).bind ?_
  have hcondition := hc n semicolon (us ++ rparen :: (ts ++ rest))
    (by simp only [List.length_append, List.length_cons]; omega) (.inl hsemi)
  rw [hsemi] at hcondition
  refine hcondition.bind ((Takes.require hsemi).bind ?_)
  have hincrement := hu n rparen (ts ++ rest) (by simp only [List.length_append]; omega) (.inr hr)
  rw [hr] at hincrement
  refine hincrement.bind ((Takes.require hr).bind ?_)
  exact (ht n rest (by omega) hnot).bind Takes.pure

/-! #### Declarations -/

theorem startsFunction_not {word : Token} (hk : word.kind ≠ .kwFun) :
    Takes startsFunction (word :: ts) false (word :: ts) := by
  intro final faults
  cases ts <;> simp [startsFunction, hk, Pure.pure, EStateM.pure]

theorem statementDeclaration {hanging : Bool} (hbegins : BeginsStatement ts)
    (h : (Phrase.statement hanging t).Taken ts) : (Phrase.declaration t).Taken ts := by
  intro n rest hn hnot
  obtain ⟨n, rfl⟩ : ∃ k, n = k + 1 := ⟨n - 1, by omega⟩
  rw [readDeclaration]
  refine Takes.recovering ?_
  -- none of the words is there by which a declaration is told from a statement
  obtain ⟨hclass, hvar, hfun⟩ : NextIsNot .kwClass (ts ++ rest) ∧ NextIsNot .kwVar (ts ++ rest) ∧
      Takes startsFunction (ts ++ rest) false (ts ++ rest) := by
    rcases hbegins with hexpr | ⟨word, us, rfl, hk⟩
    · refine ⟨(hexpr.append rest).nextIsNot _ rfl, (hexpr.append rest).nextIsNot _ rfl, ?_⟩
      obtain ⟨t, us, rfl, -, hfun⟩ := hexpr
      by_cases hk : t.kind = .kwFun
      · obtain ⟨u, vs, rfl, hu⟩ := hfun hk
        intro final faults
        simp [startsFunction, hu, Pure.pure, EStateM.pure]
      · exact startsFunction_not hk
    · have hne : ∀ kind, kind ∉ statementWords → word.kind ≠ kind := fun _ hnot he => hnot (he ▸ hk)
      exact ⟨nextIsNot_cons.mpr (hne _ (by decide)), nextIsNot_cons.mpr (hne _ (by decide)),
        startsFunction_not (hne _ (by decide))⟩
  refine (Takes.accept_not hclass).bind (hfun.bind ?_)
  exact (Takes.accept_not hvar).bind (h n rest (by omega) fun _ => hnot)

theorem variableDeclaration (hbegins : ∃ t us, ts = t :: us ∧ t.kind = .kwVar)
    (h : (Phrase.variable t).Taken ts) : (Phrase.declaration t).Taken ts := by
  intro n rest hn _
  obtain ⟨keyword, us, rfl, hk⟩ := hbegins
  obtain ⟨n, rfl⟩ : ∃ k, n = k + 1 := ⟨n - 1, by omega⟩
  rw [readDeclaration]
  refine Takes.recovering ?_
  refine (Takes.accept_not (by rw [List.cons_append, nextIsNot_cons, hk]; decide)).bind ?_
  refine (startsFunction_not (by rw [hk]; decide)).bind ?_
  exact (Takes.accept hk).bind (h n rest (by omega))

theorem functionDeclaration {keyword : Token} {f : FunctionDecl} (hk : keyword.kind = .kwFun)
    (hbegins : ∃ t us, ts = t :: us ∧ t.kind = .identifier)
    (h : (Phrase.function .function f).Taken ts) :
    (Phrase.declaration (.function f)).Taken (keyword :: ts) := by
  intro n rest hn _
  rw [List.length_cons] at hn
  obtain ⟨n, rfl⟩ : ∃ k, n = k + 1 := ⟨n - 1, by omega⟩
  rw [readDeclaration]
  refine Takes.recovering ?_
  refine (Takes.accept_not (by rw [List.cons_append, nextIsNot_cons, hk]; decide)).bind ?_
  have hstarts : Takes startsFunction (keyword :: ts ++ rest) true (keyword :: ts ++ rest) := by
    obtain ⟨name, us, rfl, hname⟩ := hbegins
    intro final faults
    simp [startsFunction, hk, hname, Pure.pure, EStateM.pure]
  refine hstarts.bind ((Takes.accept hk).bind ?_)
  exact (h n rest (by omega)).bind Takes.pure

theorem classDeclaration {keyword name lbrace rbrace : Token} {superclass : Option Token}
    {methods statics : List FunctionDecl} {cs ms : List Token} (hk : keyword.kind = .kwClass)
    (hname : name.kind = .identifier) (hs : SuperclassClause superclass cs)
    (hl : lbrace.kind = .leftBrace) (hm : (Phrase.members methods statics).Taken ms)
    (hr : rbrace.kind = .rightBrace) :
    (Phrase.declaration (.classDecl name superclass methods statics)).Taken
      (keyword :: name :: cs ++ lbrace :: ms ++ [rbrace]) := by
  intro n rest hn _
  simp only [List.length_append, List.length_cons, List.length_nil] at hn
  obtain ⟨n, rfl⟩ : ∃ k, n = k + 1 := ⟨n - 1, by omega⟩
  rw [readDeclaration]
  refine Takes.recovering ?_
  simp only [List.append_assoc, List.cons_append, List.nil_append]
  refine (Takes.accept hk).bind ((Takes.require hname).bind ?_)
  have hsuper : Takes readSuperclassName (cs ++ lbrace :: (ms ++ rbrace :: rest)) superclass
      (lbrace :: (ms ++ rbrace :: rest)) := by
    cases hs with
    | none =>
      exact (Takes.accept_not (nextIsNot_cons.mpr (by rw [hl]; decide))).bind Takes.pure
    | some hless hname =>
      exact (Takes.accept hless).bind ((Takes.require hname).bind Takes.pure)
  refine hsuper.bind ((Takes.require hl).bind ?_)
  exact (hm n rbrace rest (by omega) hr).bind ((Takes.require hr).bind Takes.pure)

theorem declarationsNil : (Phrase.declarations []).Taken [] := by
  intro n rbrace rest hn hr
  obtain ⟨n, rfl⟩ : ∃ k, n = k + 1 := ⟨n - 1, by omega⟩
  rw [readBlock]
  exact (Takes.blockEnds hr).bind ((Takes.require hr).bind Takes.pure)

/-- What a declaration is followed by in a list of them does not begin with `else`. -/
theorem nextIsNot_else {rbrace : Token} (h : Derives (.declarations ss) ts)
    (hr : rbrace.kind ≠ .kwElse) (rest : List Token) :
    NextIsNot .kwElse (ts ++ rbrace :: rest) := by
  cases h with
  | declarationsNil => exact nextIsNot_cons.mpr hr
  | declarationsCons h _ =>
    obtain ⟨t, us, rfl, helse, -⟩ := h.declaration_begins
    exact nextIsNot_cons.mpr helse

theorem declarationsCons {s : Stmt} (hd : Derives (.declaration s) ts)
    (hds : Derives (.declarations ss) us) (h : (Phrase.declaration s).Taken ts)
    (hs : (Phrase.declarations ss).Taken us) :
    (Phrase.declarations (s :: ss)).Taken (ts ++ us) := by
  intro n rbrace rest hn hr
  rw [List.length_append] at hn
  obtain ⟨n, rfl⟩ : ∃ k, n = k + 1 := ⟨n - 1, by omega⟩
  have hnot := nextIsNot_else hds (by rw [hr]; decide) rest
  have hfirst := h n (us ++ rbrace :: rest)
    (by simp only [List.length_append, List.length_cons]; omega) hnot
  obtain ⟨t, vs, rfl, -, hbrace⟩ := hd.declaration_begins
  rw [List.length_cons] at hn
  rw [readBlock, List.append_assoc]
  refine (Takes.blockEnds_not hbrace).bind (hfirst.bind ?_)
  exact (hs n rbrace rest (by omega) hr).bind Takes.pure

theorem body {rbrace : Token} (h : (Phrase.declarations ss).Taken ts)
    (hr : rbrace.kind = .rightBrace) : (Phrase.body ss).Taken (ts ++ [rbrace]) := by
  intro n rest hn
  rw [List.length_append, List.length_singleton] at hn
  rw [List.append_assoc]
  exact h n rbrace rest (by omega) hr

theorem membersNil : (Phrase.members [] []).Taken [] := by
  intro n rbrace rest hn hr
  obtain ⟨n, rfl⟩ : ∃ k, n = k + 1 := ⟨n - 1, by omega⟩
  rw [readMembers]
  exact (Takes.blockEnds hr).bind Takes.pure

theorem methodCons {f : FunctionDecl} {methods statics : List FunctionDecl}
    (hbegins : ∃ t us, ts = t :: us ∧ t.kind = .identifier)
    (h : (Phrase.function .method f).Taken ts) (hs : (Phrase.members methods statics).Taken us) :
    (Phrase.members (f :: methods) statics).Taken (ts ++ us) := by
  intro n rbrace rest hn hr
  rw [List.length_append] at hn
  obtain ⟨n, rfl⟩ : ∃ k, n = k + 1 := ⟨n - 1, by omega⟩
  have hfirst := h n (us ++ rbrace :: rest)
    (by simp only [List.length_append, List.length_cons]; omega)
  obtain ⟨name, vs, rfl, hname⟩ := hbegins
  rw [List.length_cons] at hn
  rw [readMembers, List.append_assoc]
  refine (Takes.blockEnds_not (by rw [hname]; decide)).bind ?_
  refine (Takes.accept_not (nextIsNot_cons.mpr (by rw [hname]; decide))).bind (hfirst.bind ?_)
  exact (hs n rbrace rest (by omega) hr).bind Takes.pure

theorem staticCons {keyword : Token} {f : FunctionDecl} {methods statics : List FunctionDecl}
    (hk : keyword.kind = .kwClass) (h : (Phrase.function .staticMethod f).Taken ts)
    (hs : (Phrase.members methods statics).Taken us) :
    (Phrase.members methods (f :: statics)).Taken (keyword :: ts ++ us) := by
  intro n rbrace rest hn hr
  simp only [List.length_append, List.length_cons] at hn
  obtain ⟨n, rfl⟩ : ∃ k, n = k + 1 := ⟨n - 1, by omega⟩
  rw [readMembers]
  simp only [List.append_assoc, List.cons_append]
  refine (Takes.blockEnds_not (by rw [hk]; decide)).bind ((Takes.accept hk).bind ?_)
  refine (h n (us ++ rbrace :: rest)
    (by simp only [List.length_append, List.length_cons]; omega)).bind ?_
  exact (hs n rbrace rest (by omega) hr).bind Takes.pure

end Phrase.Taken

/-- The tokens of a phrase are read as that phrase. -/
theorem Derives.taken {phrase : Phrase} {ts : List Token} (h : Derives phrase ts) :
    phrase.Taken ts := by
  induction h with
  | lift h ih => exact .lift h.begins ih
  | join hop _ _ ihl ihr => exact .join hop ihl ihr
  | conditional _ hq _ hcolon _ ihc iht ihe => exact .conditional ihc hq iht hcolon ihe
  | assign _ heq _ iht ihv | set _ heq _ iht ihv =>
    exact .assigned iht heq ihv fun _ => Takes.pure
  | unary hop _ ih => exact .unary hop ih
  | callEmpty _ hl hr ih => exact .callEmpty ih hl hr
  | call _ hl hes hlen hr ihc ihes => exact .call ihc hl hes.begins ihes hlen hr
  | get _ hdot hname ih => exact .get ih hdot hname
  | «false» hk | «true» hk | nil hk | this hk | name hk =>
    refine .part fun n rest _ final faults => ?_
    simp [readPrimary, hk, Pure.pure, EStateM.pure]
  | literal hk =>
    refine .part fun n rest _ final faults => ?_
    rcases hk with hk | hk <;> simp [readPrimary, hk, Pure.pure, EStateM.pure]
  | grouping hl _ hr ih => exact .grouping hl ih hr
  | lambda hk hps hl _ ih => exact .lambda hk hps hl ih
  | absent => exact .absent
  | present h ih => exact .present h.begins ih
  | argument _ ih => exact .argument ih
  | argumentCons _ hcomma _ ih ihs => exact .argumentCons ih hcomma ihs
  | bareVariable _ hname hsemi => exact .bareVariable hname hsemi
  | «variable» _ hname heq _ hsemi ih => exact .variable hname heq ih hsemi
  | noClause hsemi => exact .noClause hsemi
  | variableClause h ih => exact .variableClause h.begins ih
  | expressionClause h hsemi ih => exact .expressionClause h.begins ih hsemi
  | expression h hsemi ih => exact .expression h.begins ih hsemi
  | print hk _ hsemi ih => exact .print hk ih hsemi
  | «return» hk _ hsemi ih => exact .return hk ih hsemi
  | «break» hk hsemi => exact .break hk hsemi
  | «continue» hk hsemi => exact .continue hk hsemi
  | block hl _ ih => exact .block hl ih
  | ifThen hk hl _ hr _ ihc iht => exact .ifThen hk hl ihc hr iht
  | ifElse hk hl _ hr _ helse _ ihc iht ihe => exact .ifElse hk hl ihc hr iht helse ihe
  | «while» hk hl _ hr _ ihc ihs => exact .while hk hl ihc hr ihs
  | «for» hk hl _ _ hsemi _ hr _ ihi ihc ihu ihs => exact .for hk hl ihi ihc hsemi ihu hr ihs
  | statementDeclaration h ih => exact .statementDeclaration h.begins ih
  | variableDeclaration h ih => exact .variableDeclaration h.begins ih
  | functionDeclaration hk h ih => exact .functionDeclaration hk h.begins ih
  | classDeclaration hk hname hs hl _ hr ih => exact .classDeclaration hk hname hs hl ih hr
  | declarationsNil => exact .declarationsNil
  | declarationsCons h hs ih ihs => exact .declarationsCons h hs ih ihs
  | body _ hr ih => exact .body ih hr
  | function hname hps hl _ ih => exact .function hname hps hl ih
  | bareMethod hname hl _ ih => exact .bareMethod hname hl ih
  | membersNil => exact .membersNil
  | methodCons h _ ih ihs => exact .methodCons h.begins ih ihs
  | staticCons hk _ _ ih ihs => exact .staticCons hk ih ihs

/-! ### Whole programs -/

/-- The declarations of a program are read to the end of the text. -/
theorem Derives.takes_program {program : Program} {ts : List Token}
    (h : Derives (.declarations program) ts) {n : Nat} (hn : 16 * ts.length + 14 ≤ n) :
    Takes (readProgram n) ts program [] := by
  induction program generalizing ts n with
  | nil =>
    cases h
    obtain ⟨n, rfl⟩ : ∃ k, n = k + 1 := ⟨n - 1, by omega⟩
    rw [readProgram]
    exact fun _ _ => rfl
  | cons s ss ih =>
    cases h with
    | @declarationsCons _ _ ts us h hs =>
      rw [List.length_append] at hn
      obtain ⟨n, rfl⟩ : ∃ k, n = k + 1 := ⟨n - 1, by omega⟩
      -- behind a declaration there is another one or the end, and no `else`
      have hnot : NextIsNot .kwElse us := by
        cases hs with
        | declarationsNil =>
          intro t ht
          cases ht
        | declarationsCons hnext _ =>
          obtain ⟨t, vs, rfl, helse, -⟩ := hnext.declaration_begins
          exact nextIsNot_cons.mpr helse
      have hfirst := h.taken n us (by omega) hnot
      obtain ⟨t, vs, rfl, -⟩ := h.declaration_begins
      rw [List.length_cons] at hn
      rw [readProgram]
      have hmore : Takes atEnd (t :: vs ++ us) Bool.false (t :: vs ++ us) := fun _ _ => rfl
      exact hmore.bind (hfirst.bind ((ih hs (by omega)).bind Takes.pure))

/-- A program is read without fault from the tokens that form it, and from no others. -/
theorem Program.ofTokens_eq_iff {program : Program} {tokens : List Token} {final : Token} :
    Program.ofTokens tokens final = ⟨program, []⟩ ↔ Derives (.declarations program) tokens := by
  constructor
  · intro h
    have hfaults : (Program.ofTokens tokens final).faults = [] := by rw [h]
    have hderives := Program.ofTokens_derives hfaults
    rw [h] at hderives
    exact hderives
  · intro h
    have hread : readProgram (descentBound tokens.length) ⟨tokens, final, #[]⟩
        = .ok program ⟨[], final, #[]⟩ :=
      h.takes_program (by simp only [descentBound]; omega) final #[]
    simp only [Program.ofTokens, hread]

end LoxLang
