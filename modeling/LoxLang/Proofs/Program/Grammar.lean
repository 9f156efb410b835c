import LoxLang.Program.OfTokens

/-!
# The grammar

Which tokens form which programs, said without reference to how they are read.  A
phrase is a piece of program together with its syntactic category, and a derivation
relates it to the tokens it is written with, all of them and in their order.  The
tokens that a tree keeps are therefore the ones at their places among the tokens.

Expressions of a level are made of expressions of the same level on the left of an
operator and of the next tighter level on its right, so that operators associate to
the left.  The last branch of a conditional and the value of an assignment are of the
level of assignments again, so that these associate to the right.  An assignment has
a name or a property on its left, and nothing else.

A statement is *hanging* if it ends in an `if` without an `else`.  The first branch of
an `if` that has an `else` does not hang, so that an `else` belongs to the nearest `if`.

## Main definitions

* `ParameterNames`, `ParameterList`, `SuperclassClause` — the parts without expressions.
* `Phrase` — a piece of program with its category.
* `Derives` — the tokens that form a phrase.
-/

namespace LoxLang

/-! ### Parts without expressions -/

/-- One or more names, separated by commas. -/
inductive ParameterNames : List Token → List Token → Prop
  /-- A single name. -/
  | one {name : Token} (hname : name.kind = .identifier) : ParameterNames [name] [name]
  /-- A name, a comma and further names. -/
  | more {name comma : Token} {names ts : List Token} (hname : name.kind = .identifier)
      (hcomma : comma.kind = .comma) (hmore : ParameterNames names ts) :
      ParameterNames (name :: names) (name :: comma :: ts)

/-- Parameters between parentheses, not more than are allowed. -/
inductive ParameterList : List Token → List Token → Prop
  /-- No parameters. -/
  | none {lparen rparen : Token} (hl : lparen.kind = .leftParen) (hr : rparen.kind = .rightParen) :
      ParameterList [] [lparen, rparen]
  /-- Some parameters. -/
  | some {lparen rparen : Token} {names ts : List Token} (hl : lparen.kind = .leftParen)
      (hnames : ParameterNames names ts) (hlen : names.length ≤ maxListed)
      (hr : rparen.kind = .rightParen) : ParameterList names (lparen :: ts ++ [rparen])

/-- The part of a class declaration that names the superclass, if there is one. -/
inductive SuperclassClause : Option Token → List Token → Prop
  /-- No superclass. -/
  | none : SuperclassClause none []
  /-- `<` and the name of the superclass. -/
  | some {less name : Token} (hless : less.kind = .less) (hname : name.kind = .identifier) :
      SuperclassClause (some name) [less, name]

/-! ### Phrases and their derivations -/

/-- A piece of program with its syntactic category. -/
inductive Phrase where
  /-- An expression of a level. -/
  | expr (level : Level) (e : Expr)
  /-- An expression, or nothing. -/
  | optional (e : Option Expr)
  /-- One or more arguments, separated by commas. -/
  | arguments (es : List Expr)
  /-- The declaration of a variable. -/
  | variable (s : Stmt)
  /-- The first clause of a `for` loop, with its semicolon. -/
  | clause (s : Option Stmt)
  /-- A statement; `hanging` if it ends in an `if` without an `else`. -/
  | statement (hanging : Bool) (s : Stmt)
  /-- A declaration or a statement. -/
  | declaration (s : Stmt)
  /-- Declarations and statements. -/
  | declarations (ss : List Stmt)
  /-- Declarations and statements up to a brace, with it. -/
  | body (ss : List Stmt)
  /-- A function from its name on. -/
  | function (role : FunctionRole) (f : FunctionDecl)
  /-- The members of a class. -/
  | members (methods statics : List FunctionDecl)

/-- The tokens that form a phrase. -/
inductive Derives : Phrase → List Token → Prop
  /-- What binds tighter than a level is of that level. -/
  | lift {level : Level} {e : Expr} {ts : List Token}
      (h : Derives (.expr level.tighter e) ts) : Derives (.expr level e) ts
  /-- Two operands and the operator between them; the left operand is of the same level. -/
  | join {level : Level} {l r : Expr} {operator : Token} {ls rs : List Token}
      (hop : operator.kind ∈ level.operators) (hl : Derives (.expr level l) ls)
      (hr : Derives (.expr level.tighter r) rs) :
      Derives (.expr level (level.join l operator r)) (ls ++ operator :: rs)
  /-- A conditional. -/
  | conditional {c t e : Expr} {question colon : Token} {cs ts es : List Token}
      (hc : Derives (.expr .disjunction c) cs) (hq : question.kind = .question)
      (ht : Derives (.expr .assignment t) ts) (hcolon : colon.kind = .colon)
      (he : Derives (.expr .assignment e) es) :
      Derives (.expr .assignment (.conditional c t e)) (cs ++ question :: ts ++ colon :: es)
  /-- An assignment to a name. -/
  | assign {name equals : Token} {value : Expr} {ts vs : List Token}
      (ht : Derives (.expr .disjunction (.variable name)) ts) (heq : equals.kind = .equal)
      (hv : Derives (.expr .assignment value) vs) :
      Derives (.expr .assignment (.assign name value)) (ts ++ equals :: vs)
  /-- An assignment to a property. -/
  | set {object value : Expr} {name equals : Token} {ts vs : List Token}
      (ht : Derives (.expr .disjunction (.get object name)) ts) (heq : equals.kind = .equal)
      (hv : Derives (.expr .assignment value) vs) :
      Derives (.expr .assignment (.set object name value)) (ts ++ equals :: vs)
  /-- An operator before its operand. -/
  | unary {operator : Token} {e : Expr} {ts : List Token}
      (hop : operator.kind = .bang ∨ operator.kind = .minus)
      (he : Derives (.expr .unary e) ts) :
      Derives (.expr .unary (.unary operator e)) (operator :: ts)
  /-- A call without arguments. -/
  | callEmpty {callee : Expr} {lparen rparen : Token} {ts : List Token}
      (hc : Derives (.expr .call callee) ts) (hl : lparen.kind = .leftParen)
      (hr : rparen.kind = .rightParen) :
      Derives (.expr .call (.call callee rparen [])) (ts ++ [lparen, rparen])
  /-- A call with arguments, not more than are allowed. -/
  | call {callee : Expr} {es : List Expr} {lparen rparen : Token} {ts us : List Token}
      (hc : Derives (.expr .call callee) ts) (hl : lparen.kind = .leftParen)
      (hes : Derives (.arguments es) us) (hlen : es.length ≤ maxListed)
      (hr : rparen.kind = .rightParen) :
      Derives (.expr .call (.call callee rparen es)) (ts ++ lparen :: us ++ [rparen])
  /-- A property. -/
  | get {object : Expr} {dot name : Token} {ts : List Token}
      (ho : Derives (.expr .call object) ts) (hdot : dot.kind = .dot)
      (hname : name.kind = .identifier) :
      Derives (.expr .call (.get object name)) (ts ++ [dot, name])
  /-- `false` -/
  | false {t : Token} (h : t.kind = .kwFalse) :
      Derives (.expr .primary (.literal (.bool Bool.false))) [t]
  /-- `true` -/
  | true {t : Token} (h : t.kind = .kwTrue) :
      Derives (.expr .primary (.literal (.bool Bool.true))) [t]
  /-- `nil` -/
  | nil {t : Token} (h : t.kind = .kwNil) : Derives (.expr .primary (.literal .nil)) [t]
  /-- A number or a string. -/
  | literal {t : Token} (h : t.kind = .number ∨ t.kind = .string) :
      Derives (.expr .primary (.literal t.literal)) [t]
  /-- `this` -/
  | this {t : Token} (h : t.kind = .kwThis) : Derives (.expr .primary (.this t)) [t]
  /-- A name. -/
  | name {t : Token} (h : t.kind = .identifier) : Derives (.expr .primary (.variable t)) [t]
  /-- An expression in parentheses. -/
  | grouping {e : Expr} {lparen rparen : Token} {ts : List Token}
      (hl : lparen.kind = .leftParen) (he : Derives (.expr .comma e) ts)
      (hr : rparen.kind = .rightParen) :
      Derives (.expr .primary (.grouping e)) (lparen :: ts ++ [rparen])
  /-- A function without a name. -/
  | lambda {keyword lbrace : Token} {params : List Token} {ss : List Stmt} {ps bs : List Token}
      (hk : keyword.kind = .kwFun) (hps : ParameterList params ps)
      (hl : lbrace.kind = .leftBrace) (hbody : Derives (.body ss) bs) :
      Derives (.expr .primary (.lambda keyword params ss)) (keyword :: ps ++ lbrace :: bs)
  /-- Nothing. -/
  | absent : Derives (.optional none) []
  /-- An expression of any level. -/
  | present {e : Expr} {ts : List Token} (h : Derives (.expr .comma e) ts) :
      Derives (.optional (some e)) ts
  /-- A single argument. -/
  | argument {e : Expr} {ts : List Token} (h : Derives (.expr .assignment e) ts) :
      Derives (.arguments [e]) ts
  /-- An argument, a comma and further arguments. -/
  | argumentCons {e : Expr} {es : List Expr} {comma : Token} {ts us : List Token}
      (h : Derives (.expr .assignment e) ts) (hcomma : comma.kind = .comma)
      (hes : Derives (.arguments es) us) :
      Derives (.arguments (e :: es)) (ts ++ comma :: us)
  /-- A variable without a value. -/
  | bareVariable {keyword name semicolon : Token} (hk : keyword.kind = .kwVar)
      (hname : name.kind = .identifier) (hsemi : semicolon.kind = .semicolon) :
      Derives (.variable (.var name none)) [keyword, name, semicolon]
  /-- A variable with a value. -/
  | variable {keyword name equals semicolon : Token} {e : Expr} {ts : List Token}
      (hk : keyword.kind = .kwVar) (hname : name.kind = .identifier)
      (heq : equals.kind = .equal) (he : Derives (.expr .comma e) ts)
      (hsemi : semicolon.kind = .semicolon) :
      Derives (.variable (.var name (some e))) (keyword :: name :: equals :: ts ++ [semicolon])
  /-- No initializer. -/
  | noClause {semicolon : Token} (hsemi : semicolon.kind = .semicolon) :
      Derives (.clause none) [semicolon]
  /-- A declared variable as initializer. -/
  | variableClause {s : Stmt} {ts : List Token} (h : Derives (.variable s) ts) :
      Derives (.clause (some s)) ts
  /-- An expression as initializer. -/
  | expressionClause {e : Expr} {semicolon : Token} {ts : List Token}
      (h : Derives (.expr .comma e) ts) (hsemi : semicolon.kind = .semicolon) :
      Derives (.clause (some (.expression e))) (ts ++ [semicolon])
  /-- An expression as a statement. -/
  | expression {e : Expr} {semicolon : Token} {ts : List Token}
      (h : Derives (.expr .comma e) ts) (hsemi : semicolon.kind = .semicolon) :
      Derives (.statement Bool.false (.expression e)) (ts ++ [semicolon])
  /-- A `print` statement. -/
  | print {keyword semicolon : Token} {e : Expr} {ts : List Token}
      (hk : keyword.kind = .kwPrint) (h : Derives (.expr .comma e) ts)
      (hsemi : semicolon.kind = .semicolon) :
      Derives (.statement Bool.false (.print e)) (keyword :: ts ++ [semicolon])
  /-- A `return` statement. -/
  | return {keyword semicolon : Token} {e : Option Expr} {ts : List Token}
      (hk : keyword.kind = .kwReturn) (h : Derives (.optional e) ts)
      (hsemi : semicolon.kind = .semicolon) :
      Derives (.statement Bool.false (.return keyword e)) (keyword :: ts ++ [semicolon])
  /-- A `break` statement. -/
  | break {keyword semicolon : Token} (hk : keyword.kind = .kwBreak)
      (hsemi : semicolon.kind = .semicolon) :
      Derives (.statement Bool.false (.break keyword)) [keyword, semicolon]
  /-- A `continue` statement. -/
  | continue {keyword semicolon : Token} (hk : keyword.kind = .kwContinue)
      (hsemi : semicolon.kind = .semicolon) :
      Derives (.statement Bool.false (.continue keyword)) [keyword, semicolon]
  /-- A block, which begins at its opening brace. -/
  | block {lbrace : Token} {ss : List Stmt} {ts : List Token}
      (hl : lbrace.kind = .leftBrace) (h : Derives (.body ss) ts) :
      Derives (.statement Bool.false (.block lbrace.position ss)) (lbrace :: ts)
  /-- An `if` without an `else`. -/
  | ifThen {keyword lparen rparen : Token} {c : Expr} {t : Stmt} {hanging : Bool}
      {cs ts : List Token} (hk : keyword.kind = .kwIf) (hl : lparen.kind = .leftParen)
      (hc : Derives (.expr .comma c) cs) (hr : rparen.kind = .rightParen)
      (ht : Derives (.statement hanging t) ts) :
      Derives (.statement Bool.true (.ifElse c t none))
        (keyword :: lparen :: cs ++ rparen :: ts)
  /-- An `if` with an `else`, whose first branch does not hang. -/
  | ifElse {keyword lparen rparen kwElse : Token} {c : Expr} {t e : Stmt} {hanging : Bool}
      {cs ts es : List Token} (hk : keyword.kind = .kwIf) (hl : lparen.kind = .leftParen)
      (hc : Derives (.expr .comma c) cs) (hr : rparen.kind = .rightParen)
      (ht : Derives (.statement Bool.false t) ts) (helse : kwElse.kind = .kwElse)
      (he : Derives (.statement hanging e) es) :
      Derives (.statement hanging (.ifElse c t (some e)))
        (keyword :: lparen :: cs ++ rparen :: ts ++ kwElse :: es)
  /-- A `while` loop. -/
  | while {keyword lparen rparen : Token} {c : Expr} {s : Stmt} {hanging : Bool}
      {cs ts : List Token} (hk : keyword.kind = .kwWhile) (hl : lparen.kind = .leftParen)
      (hc : Derives (.expr .comma c) cs) (hr : rparen.kind = .rightParen)
      (hs : Derives (.statement hanging s) ts) :
      Derives (.statement hanging (.while c s none)) (keyword :: lparen :: cs ++ rparen :: ts)
  /-- A `for` loop, in the form in which it is kept. -/
  | for {keyword lparen semicolon rparen : Token} {initializer : Option Stmt}
      {condition increment : Option Expr} {s : Stmt} {hanging : Bool} {is cs us ts : List Token}
      (hk : keyword.kind = .kwFor) (hl : lparen.kind = .leftParen)
      (hi : Derives (.clause initializer) is) (hc : Derives (.optional condition) cs)
      (hsemi : semicolon.kind = .semicolon) (hu : Derives (.optional increment) us)
      (hr : rparen.kind = .rightParen) (hs : Derives (.statement hanging s) ts) :
      Derives (.statement hanging (forLoop keyword.position initializer condition increment s))
        (keyword :: lparen :: is ++ cs ++ semicolon :: us ++ rparen :: ts)
  /-- A statement. -/
  | statementDeclaration {s : Stmt} {hanging : Bool} {ts : List Token}
      (h : Derives (.statement hanging s) ts) : Derives (.declaration s) ts
  /-- A declared variable. -/
  | variableDeclaration {s : Stmt} {ts : List Token} (h : Derives (.variable s) ts) :
      Derives (.declaration s) ts
  /-- A declared function. -/
  | functionDeclaration {keyword : Token} {f : FunctionDecl} {ts : List Token}
      (hk : keyword.kind = .kwFun) (h : Derives (.function .function f) ts) :
      Derives (.declaration (.function f)) (keyword :: ts)
  /-- A declared class. -/
  | classDeclaration {keyword name lbrace rbrace : Token} {superclass : Option Token}
      {methods statics : List FunctionDecl} {ss ms : List Token} (hk : keyword.kind = .kwClass)
      (hname : name.kind = .identifier) (hs : SuperclassClause superclass ss)
      (hl : lbrace.kind = .leftBrace) (hm : Derives (.members methods statics) ms)
      (hr : rbrace.kind = .rightBrace) :
      Derives (.declaration (.classDecl name superclass methods statics))
        (keyword :: name :: ss ++ lbrace :: ms ++ [rbrace])
  /-- No declarations. -/
  | declarationsNil : Derives (.declarations []) []
  /-- A declaration and further ones. -/
  | declarationsCons {s : Stmt} {ss : List Stmt} {ts us : List Token}
      (h : Derives (.declaration s) ts) (hs : Derives (.declarations ss) us) :
      Derives (.declarations (s :: ss)) (ts ++ us)
  /-- Declarations and the brace that closes them. -/
  | body {rbrace : Token} {ss : List Stmt} {ts : List Token}
      (h : Derives (.declarations ss) ts) (hr : rbrace.kind = .rightBrace) :
      Derives (.body ss) (ts ++ [rbrace])
  /-- A function with its list of parameters. -/
  | function {role : FunctionRole} {name lbrace : Token} {params : List Token} {ss : List Stmt}
      {ps bs : List Token} (hname : name.kind = .identifier) (hps : ParameterList params ps)
      (hl : lbrace.kind = .leftBrace) (hbody : Derives (.body ss) bs) :
      Derives (.function role (.mk name params ss)) (name :: ps ++ lbrace :: bs)
  /-- A method that leaves out its list of parameters. -/
  | bareMethod {name lbrace : Token} {ss : List Stmt} {bs : List Token}
      (hname : name.kind = .identifier) (hl : lbrace.kind = .leftBrace)
      (hbody : Derives (.body ss) bs) :
      Derives (.function .method (.mk name [] ss)) (name :: lbrace :: bs)
  /-- No members. -/
  | membersNil : Derives (.members [] []) []
  /-- A method and further members. -/
  | methodCons {f : FunctionDecl} {methods statics : List FunctionDecl} {ts us : List Token}
      (h : Derives (.function .method f) ts) (hs : Derives (.members methods statics) us) :
      Derives (.members (f :: methods) statics) (ts ++ us)
  /-- A static method and further members. -/
  | staticCons {keyword : Token} {f : FunctionDecl} {methods statics : List FunctionDecl}
      {ts us : List Token} (hk : keyword.kind = .kwClass)
      (h : Derives (.function .staticMethod f) ts) (hs : Derives (.members methods statics) us) :
      Derives (.members methods (f :: statics)) (keyword :: ts ++ us)

end LoxLang
