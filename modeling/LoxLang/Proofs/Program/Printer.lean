import LoxLang.Proofs.Program.Completeness
import LoxLang.Proofs.Program.Tokens

/-!
# Printing programs

A program is printed as tokens.  The tree keeps the tokens of its names, operators and
keywords, and these are printed as they are; the marks and words between them are made
anew.  Reading does not look at the text of such a mark, so it has none, and its position
only matters for the brace that opens a block.

A loop with an increment is printed as a `for` loop without an initializer, and every
function with its list of parameters.  No parentheses are added, so a tree can be printed
only if every operand is of a level that its place allows, and if no `else` is printed
behind a branch that would take it.  These are exactly the trees that reading gives: a
program is *well formed* if and only if it is read back from what it is printed as.

## Main definitions

* `Expr.tokens`, `Stmt.tokens`, `Program.tokens` — the printed form.
* `Expr.level`, `Stmt.hangs` — which places a tree fits in.
* `Expr.wellFormed`, `Stmt.wellFormed`, `Program.wellFormed` — the trees that can be
  printed.

## Main results

* `Program.wellFormed_iff_derives` — the tokens of a well-formed program form it.
* `Program.wellFormed_iff_read_back` — **a program is well formed if and only if it is read
  back from its tokens, without a fault.**
-/

namespace LoxLang

/-! ### The printed form -/

/-- A mark or a word that the tree does not keep. -/
def Token.mark (kind : TokenKind) : Token := { kind, lexeme := "", line := 0 }

@[simp] theorem Token.kind_mark (kind : TokenKind) : (Token.mark kind).kind = kind := rfl

/-- The token for a constant. -/
def Literal.token : Literal → Token
  | .nil => .mark .kwNil
  | .bool false => .mark .kwFalse
  | .bool true => .mark .kwTrue
  | .number x => { Token.mark .number with literal := .number x }
  | .text s => { Token.mark .string with literal := .text s }

/-- Tokens with commas between them. -/
def separated : List (List Token) → List Token
  | [] => []
  | [ts] => ts
  | ts :: us :: tss => ts ++ .mark .comma :: separated (us :: tss)

/-- A list of parameters. -/
def parameterTokens (params : List Token) : List Token :=
  .mark .leftParen :: separated (params.map fun param => [param]) ++ [.mark .rightParen]

/-- The part of a class declaration that names the superclass. -/
def superclassTokens : Option Token → List Token
  | none => []
  | some name => [.mark .less, name]

mutual

/-- The tokens of an expression. -/
def Expr.tokens : Expr → List Token
  | .literal value => [value.token]
  | .grouping e => .mark .leftParen :: e.tokens ++ [.mark .rightParen]
  | .unary operator e => operator :: e.tokens
  | .binary l operator r => l.tokens ++ operator :: r.tokens
  | .logical l operator r => l.tokens ++ operator :: r.tokens
  | .conditional c t e =>
      c.tokens ++ .mark .question :: t.tokens ++ .mark .colon :: e.tokens
  | .assign name value => [name] ++ .mark .equal :: value.tokens
  | .variable name => [name]
  | .call callee paren arguments =>
      callee.tokens ++ .mark .leftParen :: separated (exprsTokens arguments) ++ [paren]
  | .get object name => object.tokens ++ [.mark .dot, name]
  | .set object name value => object.tokens ++ [.mark .dot, name] ++ .mark .equal :: value.tokens
  | .this keyword => [keyword]
  | .lambda keyword params body =>
      keyword :: parameterTokens params
        ++ .mark .leftBrace :: (stmtsTokens body ++ [.mark .rightBrace])

/-- The tokens of each of some expressions. -/
def exprsTokens : List Expr → List (List Token)
  | [] => []
  | e :: es => e.tokens :: exprsTokens es

/-- The tokens of a statement. -/
def Stmt.tokens : Stmt → List Token
  | .expression e => e.tokens ++ [.mark .semicolon]
  | .print e => .mark .kwPrint :: e.tokens ++ [.mark .semicolon]
  | .var name none => [.mark .kwVar, name, .mark .semicolon]
  | .var name (some e) =>
      .mark .kwVar :: name :: .mark .equal :: e.tokens ++ [.mark .semicolon]
  | .block position body =>
      { Token.mark .leftBrace with position := position }
        :: (stmtsTokens body ++ [.mark .rightBrace])
  | .ifElse c t none =>
      .mark .kwIf :: .mark .leftParen :: c.tokens ++ .mark .rightParen :: t.tokens
  | .ifElse c t (some e) =>
      .mark .kwIf :: .mark .leftParen :: c.tokens ++ .mark .rightParen :: t.tokens
        ++ .mark .kwElse :: e.tokens
  | .while c body none =>
      .mark .kwWhile :: .mark .leftParen :: c.tokens ++ .mark .rightParen :: body.tokens
  | .while c body (some i) =>
      .mark .kwFor :: .mark .leftParen :: [.mark .semicolon] ++ c.tokens
        ++ .mark .semicolon :: i.tokens ++ .mark .rightParen :: body.tokens
  | .break keyword => [keyword, .mark .semicolon]
  | .continue keyword => [keyword, .mark .semicolon]
  | .function f => .mark .kwFun :: f.tokens
  | .return keyword none => [keyword, .mark .semicolon]
  | .return keyword (some e) => keyword :: e.tokens ++ [.mark .semicolon]
  | .classDecl name superclass methods statics =>
      .mark .kwClass :: name :: superclassTokens superclass
        ++ .mark .leftBrace :: (methodsTokens methods ++ staticsTokens statics)
        ++ [.mark .rightBrace]

/-- The tokens of statements. -/
def stmtsTokens : List Stmt → List Token
  | [] => []
  | s :: ss => s.tokens ++ stmtsTokens ss

/-- The tokens of a function from its name on. -/
def FunctionDecl.tokens : FunctionDecl → List Token
  | .mk name params body =>
      name :: parameterTokens params
        ++ .mark .leftBrace :: (stmtsTokens body ++ [.mark .rightBrace])

/-- The tokens of the methods of a class. -/
def methodsTokens : List FunctionDecl → List Token
  | [] => []
  | f :: fs => f.tokens ++ methodsTokens fs

/-- The tokens of the static methods of a class. -/
def staticsTokens : List FunctionDecl → List Token
  | [] => []
  | f :: fs => .mark .kwClass :: f.tokens ++ staticsTokens fs

end

/-- The tokens of a program. -/
def Program.tokens (program : Program) : List Token := stmtsTokens program

/-! ### Well-formed trees -/

/-- The level whose operands an operator joins. -/
def TokenKind.level : TokenKind → Level
  | .comma => .comma
  | .kwOr => .disjunction
  | .kwAnd => .conjunction
  | .bangEqual | .equalEqual => .equality
  | .greater | .greaterEqual | .less | .lessEqual => .comparison
  | .minus | .plus => .term
  | _ => .factor

/-- The level of an expression, the tightest one that it fits in. -/
def Expr.level : Expr → Level
  | .binary _ operator _ | .logical _ operator _ => operator.kind.level
  | .conditional _ _ _ | .assign _ _ | .set _ _ _ => .assignment
  | .unary _ _ => .unary
  | .call _ _ _ | .get _ _ => .call
  | .literal _ | .grouping _ | .variable _ | .this _ | .lambda _ _ _ => .primary

/-- Whether an expression can stand at a place for expressions of a level. -/
def Expr.fits (e : Expr) (level : Level) : Bool := e.level.steps ≤ level.steps

/-- Whether a statement ends in an `if` without an `else`. -/
def Stmt.hangs : Stmt → Bool
  | .ifElse _ _ none => true
  | .ifElse _ _ (some e) => e.hangs
  | .while _ body _ => body.hangs
  | _ => false

/-- Whether a statement can be a branch or the body of a loop; a declaration cannot. -/
def Stmt.isStatement : Stmt → Bool
  | .var _ _ | .function _ | .classDecl _ _ _ _ => false
  | _ => true

/-- Whether some tokens can be the parameters of a function. -/
def wellFormedParameters (params : List Token) : Bool :=
  params.length ≤ maxListed && params.all (·.kind == .identifier)

mutual

/-- Whether the parts of an expression fit in their places. -/
def Expr.wellFormed : Expr → Bool
  | .literal _ => true
  | .grouping e => e.wellFormed
  | .unary operator e =>
      (operator.kind == .bang || operator.kind == .minus) && e.wellFormed && e.fits .unary
  | .binary l operator r =>
      operator.kind.isBinary && l.wellFormed && l.fits operator.kind.level
        && r.wellFormed && r.fits operator.kind.level.tighter
  | .logical l operator r =>
      (operator.kind == .kwAnd || operator.kind == .kwOr) && l.wellFormed
        && l.fits operator.kind.level && r.wellFormed && r.fits operator.kind.level.tighter
  | .conditional c t e =>
      c.wellFormed && c.fits .disjunction && t.wellFormed && t.fits .assignment
        && e.wellFormed && e.fits .assignment
  | .assign name value => name.kind == .identifier && value.wellFormed && value.fits .assignment
  | .variable name => name.kind == .identifier
  | .call callee paren arguments =>
      callee.wellFormed && callee.fits .call && paren.kind == .rightParen
        && arguments.length ≤ maxListed && exprsWellFormed arguments
  | .get object name => object.wellFormed && object.fits .call && name.kind == .identifier
  | .set object name value =>
      object.wellFormed && object.fits .call && name.kind == .identifier
        && value.wellFormed && value.fits .assignment
  | .this keyword => keyword.kind == .kwThis
  | .lambda keyword params body =>
      keyword.kind == .kwFun && wellFormedParameters params && stmtsWellFormed body

/-- Whether some expressions can be the arguments of a call. -/
def exprsWellFormed : List Expr → Bool
  | [] => true
  | e :: es => e.wellFormed && e.fits .assignment && exprsWellFormed es

/-- Whether the parts of a statement fit in their places. -/
def Stmt.wellFormed : Stmt → Bool
  | .expression e => e.wellFormed
  | .print e => e.wellFormed
  | .var name none => name.kind == .identifier
  | .var name (some e) => name.kind == .identifier && e.wellFormed
  | .block _ body => stmtsWellFormed body
  | .ifElse c t none => c.wellFormed && t.wellFormed && t.isStatement
  | .ifElse c t (some e) =>
      c.wellFormed && t.wellFormed && t.isStatement && !t.hangs && e.wellFormed && e.isStatement
  | .while c body none => c.wellFormed && body.wellFormed && body.isStatement
  | .while c body (some i) =>
      c.wellFormed && body.wellFormed && body.isStatement && i.wellFormed
  | .break keyword => keyword.kind == .kwBreak
  | .continue keyword => keyword.kind == .kwContinue
  | .function f => f.wellFormed
  | .return keyword none => keyword.kind == .kwReturn
  | .return keyword (some e) => keyword.kind == .kwReturn && e.wellFormed
  | .classDecl name superclass methods statics =>
      name.kind == .identifier && superclass.all (·.kind == .identifier)
        && functionsWellFormed methods && functionsWellFormed statics

/-- Whether statements are well formed. -/
def stmtsWellFormed : List Stmt → Bool
  | [] => true
  | s :: ss => s.wellFormed && stmtsWellFormed ss

/-- Whether the parts of a function fit in their places. -/
def FunctionDecl.wellFormed : FunctionDecl → Bool
  | .mk name params body =>
      name.kind == .identifier && wellFormedParameters params && stmtsWellFormed body

/-- Whether functions are well formed. -/
def functionsWellFormed : List FunctionDecl → Bool
  | [] => true
  | f :: fs => f.wellFormed && functionsWellFormed fs

end

/-- Whether a program is well formed. -/
def Program.wellFormed (program : Program) : Bool := stmtsWellFormed program

/-! ### Printed tokens form the tree -/

/-- What is of a level is of every level that binds less. -/
theorem Derives.widen {e : Expr} {level : Level} {ts : List Token}
    (h : Derives (.expr level e) ts) (level' : Level) (hle : level.steps ≤ level'.steps) :
    Derives (.expr level' e) ts := by
  by_cases heq : level = level'
  · rwa [← heq]
  · have hne : level' ≠ .primary := by
      rintro rfl
      exact heq (by revert hle; cases level <;> decide)
    have hsteps := DescentReads.steps_tighter hne
    have hlt : level.steps ≠ level'.steps := by
      intro hsame
      exact heq (by revert hsame; cases level <;> cases level' <;> decide)
    exact .lift (h.widen level'.tighter (by omega))
termination_by level'.steps
decreasing_by omega

/-- Every expression can stand where any expression can. -/
theorem Derives.widen_comma {e : Expr} {level : Level} {ts : List Token}
    (h : Derives (.expr level e) ts) : Derives (.expr .comma e) ts :=
  h.widen .comma (by cases level <;> decide)

theorem Expr.derives_of_fits {e : Expr} {level : Level} {ts : List Token}
    (h : Derives (.expr e.level e) ts) (hfits : e.fits level = true) :
    Derives (.expr level e) ts :=
  h.widen level (of_decide_eq_true hfits)

theorem TokenKind.level_of_isBinary {kind : TokenKind} (h : kind.isBinary = true) (l : Expr)
    (operator : Token) (r : Expr) :
    kind ∈ kind.level.operators ∧ kind.level.join l operator r = .binary l operator r := by
  cases kind with
  | comma | bangEqual | equalEqual | greater | greaterEqual | less | lessEqual | minus | plus
  | slash | star => exact ⟨by decide, rfl⟩
  | _ => exact absurd h Bool.false_ne_true

theorem TokenKind.level_of_logical {kind : TokenKind} (h : kind = .kwAnd ∨ kind = .kwOr)
    (l : Expr) (operator : Token) (r : Expr) :
    kind ∈ kind.level.operators ∧ kind.level.join l operator r = .logical l operator r := by
  rcases h with rfl | rfl <;> exact ⟨by decide, rfl⟩

theorem Literal.derives (value : Literal) :
    Derives (.expr .primary (.literal value)) [value.token] := by
  match value with
  | .nil => exact .nil rfl
  | .bool false => exact .false rfl
  | .bool true => exact .true rfl
  | .number x => exact .literal (t := Literal.token (.number x)) (.inl rfl)
  | .text s => exact .literal (t := Literal.token (.text s)) (.inr rfl)

theorem parameterNames_separated {params : List Token} (hne : params ≠ [])
    (hnames : ∀ p ∈ params, p.kind = .identifier) :
    ParameterNames params (separated (params.map fun param => [param])) := by
  induction params with
  | nil => exact absurd rfl hne
  | cons p ps ih =>
    obtain ⟨hp, hps⟩ := List.forall_mem_cons.mp hnames
    cases ps with
    | nil => exact .one hp
    | cons q qs => exact .more hp rfl (ih (List.cons_ne_nil q qs) hps)

theorem parameterList_tokens {params : List Token} (h : wellFormedParameters params = true) :
    ParameterList params (parameterTokens params) := by
  simp only [wellFormedParameters, Bool.and_eq_true, decide_eq_true_eq, List.all_eq_true,
    beq_iff_eq] at h
  by_cases hne : params = []
  · subst hne
    exact .none rfl rfl
  · exact .some rfl (parameterNames_separated hne h.2) h.1 rfl

theorem superclassClause_tokens {superclass : Option Token}
    (h : superclass.all (·.kind == .identifier) = true) :
    SuperclassClause superclass (superclassTokens superclass) := by
  cases superclass with
  | none => exact .none
  | some name => exact .some rfl (beq_iff_eq.mp h)

/-- The category of a statement. -/
def Stmt.phrase : Stmt → Phrase
  | .var name e => .variable (.var name e)
  | .function f => .declaration (.function f)
  | .classDecl name superclass methods statics =>
      .declaration (.classDecl name superclass methods statics)
  | s => .statement s.hangs s

theorem Stmt.phrase_of_isStatement {s : Stmt} (h : s.isStatement = true) :
    s.phrase = .statement s.hangs s := by
  cases s with
  | var | function | classDecl => exact absurd h Bool.false_ne_true
  | _ => rfl

theorem Stmt.derives_declaration {s : Stmt} {ts : List Token} (h : Derives s.phrase ts) :
    Derives (.declaration s) ts := by
  cases s with
  | var => exact .variableDeclaration h
  | function | classDecl => exact h
  | _ => exact .statementDeclaration h

mutual

theorem Expr.derives : ∀ e : Expr, e.wellFormed = true → Derives (.expr e.level e) e.tokens
  | .literal value, _ => value.derives
  | .grouping e, h => .grouping rfl (e.derives h).widen_comma rfl
  | .unary operator e, h => by
      simp only [Expr.wellFormed, Bool.and_eq_true, Bool.or_eq_true, beq_iff_eq] at h
      obtain ⟨⟨hop, he⟩, hfits⟩ := h
      exact .unary hop (e.derives_of_fits (e.derives he) hfits)
  | .binary l operator r, h => by
      simp only [Expr.wellFormed, Bool.and_eq_true] at h
      obtain ⟨⟨⟨⟨hop, hl⟩, hlfits⟩, hr⟩, hrfits⟩ := h
      obtain ⟨hmem, hjoin⟩ := TokenKind.level_of_isBinary hop l operator r
      have hjoined := Derives.join hmem (l.derives_of_fits (l.derives hl) hlfits)
        (r.derives_of_fits (r.derives hr) hrfits)
      rwa [hjoin] at hjoined
  | .logical l operator r, h => by
      simp only [Expr.wellFormed, Bool.and_eq_true, Bool.or_eq_true, beq_iff_eq] at h
      obtain ⟨⟨⟨⟨hop, hl⟩, hlfits⟩, hr⟩, hrfits⟩ := h
      obtain ⟨hmem, hjoin⟩ := TokenKind.level_of_logical hop l operator r
      have hjoined := Derives.join hmem (l.derives_of_fits (l.derives hl) hlfits)
        (r.derives_of_fits (r.derives hr) hrfits)
      rwa [hjoin] at hjoined
  | .conditional c t e, h => by
      simp only [Expr.wellFormed, Bool.and_eq_true] at h
      obtain ⟨⟨⟨⟨⟨hc, hcfits⟩, ht⟩, htfits⟩, he⟩, hefits⟩ := h
      exact .conditional (c.derives_of_fits (c.derives hc) hcfits) rfl
        (t.derives_of_fits (t.derives ht) htfits) rfl (e.derives_of_fits (e.derives he) hefits)
  | .assign name value, h => by
      simp only [Expr.wellFormed, Bool.and_eq_true, beq_iff_eq] at h
      obtain ⟨⟨hname, hv⟩, hfits⟩ := h
      have htarget := (Derives.name hname).widen .disjunction (by decide)
      exact .assign htarget rfl (value.derives_of_fits (value.derives hv) hfits)
  | .variable name, h => .name (beq_iff_eq.mp h)
  | .call callee paren arguments, h => by
      simp only [Expr.wellFormed, Bool.and_eq_true, beq_iff_eq, decide_eq_true_eq] at h
      obtain ⟨⟨⟨⟨hc, hfits⟩, hr⟩, hlen⟩, hargs⟩ := h
      have hcallee := callee.derives_of_fits (callee.derives hc) hfits
      by_cases hne : arguments = []
      · subst hne
        show Derives _ (callee.tokens ++ [.mark .leftParen] ++ [paren])
        rw [List.append_assoc]
        exact .callEmpty hcallee rfl hr
      · exact .call hcallee rfl (exprsDerive arguments hne hargs) hlen hr
  | .get object name, h => by
      simp only [Expr.wellFormed, Bool.and_eq_true, beq_iff_eq] at h
      obtain ⟨⟨ho, hfits⟩, hname⟩ := h
      exact .get (object.derives_of_fits (object.derives ho) hfits) rfl hname
  | .set object name value, h => by
      simp only [Expr.wellFormed, Bool.and_eq_true, beq_iff_eq] at h
      obtain ⟨⟨⟨⟨ho, hofits⟩, hname⟩, hv⟩, hvfits⟩ := h
      have htarget := (Derives.get (object.derives_of_fits (object.derives ho) hofits)
        (Token.kind_mark .dot) hname).widen .disjunction (by decide)
      exact .set htarget rfl (value.derives_of_fits (value.derives hv) hvfits)
  | .this keyword, h => .this (beq_iff_eq.mp h)
  | .lambda keyword params body, h => by
      simp only [Expr.wellFormed, Bool.and_eq_true, beq_iff_eq] at h
      obtain ⟨⟨hk, hparams⟩, hbody⟩ := h
      exact .lambda hk (parameterList_tokens hparams) rfl (.body (stmtsDerive body hbody) rfl)

theorem exprsDerive : ∀ es : List Expr, es ≠ [] → exprsWellFormed es = true →
    Derives (.arguments es) (separated (exprsTokens es))
  | [], hne, _ => absurd rfl hne
  | [e], _, h => by
      simp only [exprsWellFormed, Bool.and_eq_true] at h
      exact .argument (e.derives_of_fits (e.derives h.1.1) h.1.2)
  | e :: e' :: es, _, h => by
      simp only [exprsWellFormed, Bool.and_eq_true] at h
      have hmore := exprsDerive (e' :: es) (List.cons_ne_nil _ _)
        (by simp only [exprsWellFormed, Bool.and_eq_true]; exact h.2)
      exact .argumentCons (e.derives_of_fits (e.derives h.1.1) h.1.2) rfl hmore

theorem Stmt.derives : ∀ s : Stmt, s.wellFormed = true → Derives s.phrase s.tokens
  | .expression e, h => .expression (e.derives h).widen_comma rfl
  | .print e, h => .print rfl (e.derives h).widen_comma rfl
  | .var name none, h => .bareVariable rfl (beq_iff_eq.mp h) rfl
  | .var name (some e), h => by
      simp only [Stmt.wellFormed, Bool.and_eq_true, beq_iff_eq] at h
      exact .variable rfl h.1 rfl (e.derives h.2).widen_comma rfl
  | .block position body, h => by
      have hl : { Token.mark .leftBrace with position := position }.kind = .leftBrace := rfl
      exact .block hl (.body (stmtsDerive body h) rfl)
  | .ifElse c t none, h => by
      simp only [Stmt.wellFormed, Bool.and_eq_true] at h
      obtain ⟨⟨hc, ht⟩, hstmt⟩ := h
      have htrue := t.derives ht
      rw [Stmt.phrase_of_isStatement hstmt] at htrue
      exact .ifThen rfl rfl (c.derives hc).widen_comma rfl htrue
  | .ifElse c t (some e), h => by
      simp only [Stmt.wellFormed, Bool.and_eq_true, Bool.not_eq_eq_eq_not, Bool.not_true] at h
      obtain ⟨⟨⟨⟨⟨hc, ht⟩, hstmt⟩, hhangs⟩, he⟩, hstmt'⟩ := h
      have htrue := t.derives ht
      have hfalse := e.derives he
      rw [Stmt.phrase_of_isStatement hstmt, hhangs] at htrue
      rw [Stmt.phrase_of_isStatement hstmt'] at hfalse
      exact .ifElse rfl rfl (c.derives hc).widen_comma rfl htrue rfl hfalse
  | .while c body none, h => by
      simp only [Stmt.wellFormed, Bool.and_eq_true] at h
      obtain ⟨⟨hc, hb⟩, hstmt⟩ := h
      have hbody := body.derives hb
      rw [Stmt.phrase_of_isStatement hstmt] at hbody
      exact .while rfl rfl (c.derives hc).widen_comma rfl hbody
  | .while c body (some i), h => by
      simp only [Stmt.wellFormed, Bool.and_eq_true] at h
      obtain ⟨⟨⟨hc, hb⟩, hstmt⟩, hi⟩ := h
      have hbody := body.derives hb
      rw [Stmt.phrase_of_isStatement hstmt] at hbody
      exact .for rfl rfl (.noClause rfl)
        (.present (c.derives hc).widen_comma) rfl
        (.present (i.derives hi).widen_comma) rfl hbody
  | .break keyword, h => .break (beq_iff_eq.mp h) rfl
  | .continue keyword, h => .continue (beq_iff_eq.mp h) rfl
  | .function f, h => .functionDeclaration rfl (f.derives .function h)
  | .return keyword none, h => .return (beq_iff_eq.mp h) .absent rfl
  | .return keyword (some e), h => by
      simp only [Stmt.wellFormed, Bool.and_eq_true, beq_iff_eq] at h
      exact .return h.1 (.present (e.derives h.2).widen_comma) rfl
  | .classDecl name superclass methods statics, h => by
      simp only [Stmt.wellFormed, Bool.and_eq_true, beq_iff_eq] at h
      obtain ⟨⟨⟨hname, hsuper⟩, hmethods⟩, hstatics⟩ := h
      exact .classDeclaration rfl hname (superclassClause_tokens hsuper) rfl
        (methodsDerive methods hmethods (staticsDerive statics hstatics)) rfl

theorem stmtsDerive : ∀ ss : List Stmt, stmtsWellFormed ss = true →
    Derives (.declarations ss) (stmtsTokens ss)
  | [], _ => .declarationsNil
  | s :: ss, h => by
      simp only [stmtsWellFormed, Bool.and_eq_true] at h
      exact .declarationsCons (Stmt.derives_declaration (s.derives h.1)) (stmtsDerive ss h.2)

theorem FunctionDecl.derives : ∀ (f : FunctionDecl) (role : FunctionRole), f.wellFormed = true →
    Derives (.function role f) f.tokens
  | .mk name params body, role, h => by
      simp only [FunctionDecl.wellFormed, Bool.and_eq_true, beq_iff_eq] at h
      obtain ⟨⟨hname, hparams⟩, hbody⟩ := h
      exact .function hname (parameterList_tokens hparams) rfl (.body (stmtsDerive body hbody) rfl)

theorem methodsDerive : ∀ (fs : List FunctionDecl) {statics : List FunctionDecl}
    {us : List Token}, functionsWellFormed fs = true → Derives (.members [] statics) us →
    Derives (.members fs statics) (methodsTokens fs ++ us)
  | [], _, _, _, hstatics => hstatics
  | f :: fs, _, us, h, hstatics => by
      simp only [functionsWellFormed, Bool.and_eq_true] at h
      rw [methodsTokens, List.append_assoc]
      exact .methodCons (f.derives .method h.1) (methodsDerive fs h.2 hstatics)

theorem staticsDerive : ∀ fs : List FunctionDecl, functionsWellFormed fs = true →
    Derives (.members [] fs) (staticsTokens fs)
  | [], _ => .membersNil
  | f :: fs, h => by
      simp only [functionsWellFormed, Bool.and_eq_true] at h
      exact .staticCons rfl (f.derives .staticMethod h.1) (staticsDerive fs h.2)

end

/-! ### What tokens form is well formed -/

/-- The parts of a phrase fit in their places. -/
def Phrase.WellFormed : Phrase → Prop
  | .expr level e => e.wellFormed = true ∧ e.fits level = true
  | .optional e => ∀ x ∈ e, x.wellFormed = true
  | .arguments es => exprsWellFormed es = true
  | .clause s => ∀ x ∈ s, x.wellFormed = true
  | .statement hanging s =>
      s.wellFormed = true ∧ s.isStatement = true ∧ (s.hangs = true → hanging = true)
  | .variable s | .declaration s => s.wellFormed = true
  | .declarations ss | .body ss => stmtsWellFormed ss = true
  | .function _ f => f.wellFormed = true
  | .members methods statics =>
      functionsWellFormed methods = true ∧ functionsWellFormed statics = true

theorem ParameterNames.kind_eq {names ts : List Token} (h : ParameterNames names ts) :
    ∀ name ∈ names, name.kind = .identifier := by
  induction h with
  | one hname => exact List.forall_mem_singleton.mpr hname
  | more hname _ _ ih => exact List.forall_mem_cons.mpr ⟨hname, ih⟩

theorem ParameterList.wellFormed {params ps : List Token} (h : ParameterList params ps) :
    wellFormedParameters params = true := by
  simp only [wellFormedParameters, Bool.and_eq_true, decide_eq_true_eq, List.all_eq_true,
    beq_iff_eq]
  cases h with
  | none _ _ => exact ⟨Nat.zero_le _, nofun⟩
  | some _ hnames hlen _ => exact ⟨hlen, hnames.kind_eq⟩

theorem SuperclassClause.wellFormed {superclass : Option Token} {ts : List Token}
    (h : SuperclassClause superclass ts) : superclass.all (·.kind == .identifier) = true := by
  cases h with
  | none => rfl
  | some _ hname => exact beq_iff_eq.mpr hname

/-- The form in which a `for` loop is kept is that of a loop, perhaps in a block. -/
theorem Phrase.wellFormed_forLoop {position : Nat} {initializer : Option Stmt}
    {condition increment : Option Expr} {s : Stmt} {hanging : Bool}
    (hi : (Phrase.clause initializer).WellFormed) (hc : (Phrase.optional condition).WellFormed)
    (hu : (Phrase.optional increment).WellFormed) (hs : (Phrase.statement hanging s).WellFormed) :
    (Phrase.statement hanging
      (forLoop position initializer condition increment s)).WellFormed := by
  obtain ⟨hs, hstmt, hhangs⟩ := hs
  have hcondition : (condition.getD (.literal (.bool true))).wellFormed = true := by
    cases condition with
    | none => rfl
    | some c => exact hc c rfl
  have hloop : (Stmt.while (condition.getD (.literal (.bool true))) s increment).wellFormed
      = true := by
    cases increment with
    | none => simp [Stmt.wellFormed, hcondition, hs, hstmt]
    | some i => simp [Stmt.wellFormed, hcondition, hs, hstmt, hu i rfl]
  cases initializer with
  | none => exact ⟨hloop, rfl, hhangs⟩
  | some init =>
    refine ⟨?_, rfl, nofun⟩
    simp [forLoop, Stmt.wellFormed, stmtsWellFormed, hi init rfl, hloop]

theorem Level.level_of_mem_operators {level : Level} {kind : TokenKind}
    (h : kind ∈ level.operators) : kind.level = level := by
  revert kind
  cases level <;> decide

theorem Level.wellFormed_join {level : Level} {l r : Expr} {operator : Token}
    (hop : operator.kind ∈ level.operators) (hl : (Phrase.expr level l).WellFormed)
    (hr : (Phrase.expr level.tighter r).WellFormed) :
    (Phrase.expr level (level.join l operator r)).WellFormed := by
  have hlevel := Level.level_of_mem_operators hop
  have hfits : decide (operator.kind.level.steps ≤ level.steps) = true := by
    rw [hlevel]
    exact decide_eq_true (Nat.le_refl _)
  rcases Level.join_eq hop l r with heq | ⟨heq, hk⟩
  · have hk : operator.kind = .kwAnd ∨ operator.kind = .kwOr := by
      cases level with
      | disjunction => exact .inr (List.mem_singleton.mp hop)
      | conjunction => exact .inl (List.mem_singleton.mp hop)
      | _ => exact absurd heq nofun
    rw [heq]
    refine ⟨?_, hfits⟩
    simp only [Expr.wellFormed, hlevel, Bool.and_eq_true, Bool.or_eq_true, beq_iff_eq]
    exact ⟨⟨⟨⟨hk, hl.1⟩, hl.2⟩, hr.1⟩, hr.2⟩
  · rw [heq]
    refine ⟨?_, hfits⟩
    simp only [Expr.wellFormed, hlevel, Bool.and_eq_true]
    exact ⟨⟨⟨⟨hk, hl.1⟩, hl.2⟩, hr.1⟩, hr.2⟩

/-- What tokens form is well formed. -/
theorem Derives.wellFormed {phrase : Phrase} {ts : List Token} (h : Derives phrase ts) :
    phrase.WellFormed := by
  induction h with
  | @lift level e _ _ ih =>
    exact ⟨ih.1, decide_eq_true (Nat.le_trans (of_decide_eq_true ih.2) level.steps_tighter_le)⟩
  | join hop _ _ ihl ihr => exact Level.wellFormed_join hop ihl ihr
  | lambda hk hps _ _ ih =>
    refine ⟨?_, rfl⟩
    simp only [Expr.wellFormed, Bool.and_eq_true, beq_iff_eq]
    exact ⟨⟨hk, hps.wellFormed⟩, ih⟩
  | @«return» _ _ e _ hk _ _ ih =>
    refine ⟨?_, rfl, nofun⟩
    cases e with
    | none => exact beq_iff_eq.mpr hk
    | some e =>
      simp only [Stmt.wellFormed, Bool.and_eq_true, beq_iff_eq]
      exact ⟨hk, ih e rfl⟩
  | «for» _ _ _ _ _ _ _ _ ihi ihc ihu ihs => exact Phrase.wellFormed_forLoop ihi ihc ihu ihs
  | classDeclaration _ hname hs _ _ _ ih =>
    have hsuper := hs.wellFormed
    simp only [Phrase.WellFormed, Stmt.wellFormed, Bool.and_eq_true, beq_iff_eq]
    exact ⟨⟨⟨hname, hsuper⟩, ih.1⟩, ih.2⟩
  | function hname hps _ _ ih =>
    simp only [Phrase.WellFormed, FunctionDecl.wellFormed, Bool.and_eq_true, beq_iff_eq]
    exact ⟨⟨hname, hps.wellFormed⟩, ih⟩
  | bareMethod hname _ _ ih =>
    simp only [Phrase.WellFormed, FunctionDecl.wellFormed, Bool.and_eq_true, beq_iff_eq]
    exact ⟨⟨hname, rfl⟩, ih⟩
  | _ =>
    simp_all [Phrase.WellFormed, Expr.wellFormed, exprsWellFormed, Stmt.wellFormed,
      stmtsWellFormed, functionsWellFormed, Expr.fits, Expr.level, Stmt.hangs, Stmt.isStatement]

/-- The programs that are well formed are those that some tokens form, and then they are
formed by their own. -/
theorem Program.wellFormed_iff_derives {program : Program} :
    program.wellFormed = true ↔ Derives (.declarations program) program.tokens :=
  ⟨stmtsDerive program, fun h => h.wellFormed⟩

/-- **A program is well formed if and only if it is read back from its tokens, without a
fault.** -/
theorem Program.wellFormed_iff_read_back (program : Program) (final : Token) :
    program.wellFormed = true ↔ Program.ofTokens program.tokens final = ⟨program, []⟩ := by
  rw [Program.ofTokens_eq_iff]
  exact Program.wellFormed_iff_derives

end LoxLang
