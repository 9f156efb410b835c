import LoxLang.Proofs.Program.Descent

/-!
# Reading without a fault

What a step of a reading does with tokens that are as it expects them: it takes them,
gives a result and records nothing.  Which tokens a step takes depends on the token behind
them, for an operator goes on with an expression and an `else` with an `if`, and on the
token in front, for a phrase is told from others by what it begins with.

## Main definitions

* `Becomes`, `Takes` — a step reads some tokens without a fault.
* `TokenKind.reach`, `Stops` — which tokens go on with an expression of a level.
* `Level.goOn` — how an expression is read on behind its first operand.
* `Phrase.Begins` — what a phrase can begin with.

## Main results

* `Takes.bind` — one step after another.
* `Level.takes_goOn` — reading an expression ends where the next token does not go on.
* `Derives.begins` — the tokens of a phrase begin as the phrase says.
-/

namespace LoxLang

variable {α β : Type}

/-! ### Steps without a fault -/

/-- From the tokens `ts` a step does what another one does from `us`. -/
def Becomes (step : ReadM α) (ts : List Token) (step' : ReadM α) (us : List Token) : Prop :=
  ∀ final faults, step ⟨ts, final, faults⟩ = step' ⟨us, final, faults⟩

/-- From the tokens `ts` a step gives `a`, leaves `rest` and records nothing. -/
def Takes (step : ReadM α) (ts : List Token) (a : α) (rest : List Token) : Prop :=
  Becomes step ts (Pure.pure a) rest

theorem Becomes.trans {step step' step'' : ReadM α} {ts us vs : List Token}
    (h : Becomes step ts step' us) (h' : Becomes step' us step'' vs) : Becomes step ts step'' vs :=
  fun final faults => (h final faults).trans (h' final faults)

/-- The next token, if there is one, is not of a kind. -/
def NextIsNot (kind : TokenKind) (rest : List Token) : Prop := ∀ t ∈ rest.head?, t.kind ≠ kind

@[simp] theorem nextIsNot_cons {kind : TokenKind} {t : Token} {rest : List Token} :
    NextIsNot kind (t :: rest) ↔ t.kind ≠ kind := by
  simp [NextIsNot]

namespace Takes

variable {ts us rest : List Token} {a : α} {b : β} {t : Token} {kind : TokenKind}

theorem pure : Takes (Pure.pure a) ts a ts := fun _ _ => rfl

/-- Behind what a step takes, it goes on with the next one. -/
theorem becomes {step : ReadM α} {next : α → ReadM β} (h : Takes step ts a us) :
    Becomes (step >>= next) ts (next a) us := by
  intro final faults
  have hstep : step ⟨ts, final, faults⟩ = .ok a ⟨us, final, faults⟩ := h final faults
  simp only [Bind.bind, EStateM.bind, hstep]

/-- A step after another. -/
theorem bind {step : ReadM α} {next : α → ReadM β} (h : Takes step ts a us)
    (h' : Takes (next a) us b rest) : Takes (step >>= next) ts b rest :=
  h.becomes.trans h'

theorem require {cause : SyntaxCause} (hk : t.kind = kind) :
    Takes (require kind cause) (t :: rest) t rest := by
  intro final faults
  simp [LoxLang.require, hk, Pure.pure, EStateM.pure]

theorem accept (hk : t.kind = kind) : Takes (accept kind) (t :: rest) true rest := by
  intro final faults
  simp [LoxLang.accept, hk, Pure.pure, EStateM.pure]

theorem accept_not (h : NextIsNot kind rest) : Takes (LoxLang.accept kind) rest false rest := by
  intro final faults
  cases rest with
  | nil => rfl
  | cons t rest => simp [LoxLang.accept, nextIsNot_cons.mp h, Pure.pure, EStateM.pure]

theorem accept? {kinds : List TokenKind} (hk : t.kind ∈ kinds) :
    Takes (accept? kinds) (t :: rest) (some t) rest := by
  intro final faults
  simp [LoxLang.accept?, hk, Pure.pure, EStateM.pure]

theorem accept?_not {kinds : List TokenKind} (h : ∀ t ∈ rest.head?, t.kind ∉ kinds) :
    Takes (LoxLang.accept? kinds) rest none rest := by
  intro final faults
  cases rest with
  | nil => rfl
  | cons t rest => simp [LoxLang.accept?, h t rfl, Pure.pure, EStateM.pure]

theorem nextIs (hk : t.kind = kind) : Takes (nextIs kind) (t :: rest) true (t :: rest) := by
  intro final faults
  simp [LoxLang.nextIs, Reading.nextIs, hk, Pure.pure, EStateM.pure]

theorem nextIs_not (h : NextIsNot kind rest) : Takes (LoxLang.nextIs kind) rest false rest := by
  intro final faults
  cases rest with
  | nil => rfl
  | cons t rest =>
    simp [LoxLang.nextIs, Reading.nextIs, nextIsNot_cons.mp h, Pure.pure, EStateM.pure]

theorem blockEnds (hk : t.kind = .rightBrace) :
    Takes blockEnds (t :: rest) true (t :: rest) := by
  intro final faults
  simp [LoxLang.blockEnds, Reading.nextIs, hk, Pure.pure, EStateM.pure]

theorem blockEnds_not (hk : t.kind ≠ .rightBrace) :
    Takes LoxLang.blockEnds (t :: rest) false (t :: rest) := by
  intro final faults
  simp [LoxLang.blockEnds, Reading.nextIs, hk, Pure.pure, EStateM.pure]

theorem checkRoom {list : BoundedList} {length : Nat} (h : length < maxListed) :
    Takes (checkRoom list length) ts () ts := by
  unfold LoxLang.checkRoom
  rw [if_neg (Nat.not_le_of_lt h)]
  exact pure

theorem recovering {declaration : ReadM Stmt} {s : Stmt} (h : Takes declaration ts s rest) :
    Takes (recovering declaration) ts (some s) rest := by
  intro final faults
  have hdecl : declaration ⟨ts, final, faults⟩ = .ok s ⟨rest, final, faults⟩ := h final faults
  simp only [LoxLang.recovering, hdecl]
  rfl

end Takes

/-! ### What goes on with an expression -/

/-- How far up the levels the expressions reach that a token can go on with. -/
def TokenKind.reach : TokenKind → Nat
  | .leftParen | .dot => Level.call.steps
  | .slash | .star => Level.factor.steps
  | .minus | .plus => Level.term.steps
  | .greater | .greaterEqual | .less | .lessEqual => Level.comparison.steps
  | .bangEqual | .equalEqual => Level.equality.steps
  | .kwAnd => Level.conjunction.steps
  | .kwOr => Level.disjunction.steps
  | .question | .equal => Level.assignment.steps
  | .comma => Level.comma.steps
  | _ => Level.comma.steps + 1

/-- The next token, if there is one, does not go on with an expression that is `height`
steps above the tokens. -/
def Stops (height : Nat) (rest : List Token) : Prop := ∀ t ∈ rest.head?, height < t.kind.reach

namespace Stops

variable {height : Nat} {rest : List Token} {t : Token}

@[simp] theorem cons : Stops height (t :: rest) ↔ height < t.kind.reach := by simp [Stops]

theorem mono {height' : Nat} (h : Stops height rest) (hle : height' ≤ height) :
    Stops height' rest := fun t ht => Nat.lt_of_le_of_lt hle (h t ht)

theorem nextIsNot {kind : TokenKind} (h : Stops height rest) (hk : kind.reach ≤ height) :
    NextIsNot kind rest := by
  intro t ht heq
  have hlt := h t ht
  rw [heq] at hlt
  omega

/-- Nothing goes on with what stands alone. -/
theorem primary : Stops Level.primary.steps rest := by
  intro t _
  cases t.kind <;> decide

end Stops

theorem Level.reach_of_mem_operators {level : Level} {kind : TokenKind}
    (h : kind ∈ level.operators) : kind.reach = level.steps := by
  revert kind
  cases level <;> decide

/-- How far up the operands of a level are that are read before any of its operators. -/
def Level.operandSteps : Level → Nat
  | assignment => assignment.steps
  | unary => unary.steps
  | level => level.tighter.steps

theorem Level.operandSteps_le (level : Level) : level.operandSteps ≤ level.steps := by
  cases level <;> decide

/-- How an expression of a level is read on behind its first operand. -/
def Level.goOn (n : Nat) : Level → Expr → ReadM Expr
  | assignment, e | unary, e | primary, e => pure e
  | call, e => readSuffixes n e
  | level, e => readOperands n level e

/-- Behind its first operand nothing is left to read if the next token does not go on. -/
theorem Level.takes_goOn {level : Level} {n : Nat} (hn : 0 < n) (e : Expr) {rest : List Token}
    (h : Stops level.steps rest) : Takes (level.goOn n e) rest e rest := by
  obtain ⟨n, rfl⟩ : ∃ k, n = k + 1 := ⟨n - 1, by omega⟩
  have hoperands : Takes (readOperands (n + 1) level e) rest e rest := by
    rw [readOperands]
    refine (Takes.accept?_not ?_).bind Takes.pure
    intro t ht hmem
    have hlt := h t ht
    rw [Level.reach_of_mem_operators hmem] at hlt
    exact Nat.lt_irrefl _ hlt
  cases level with
  | assignment | unary | primary => exact Takes.pure
  | call =>
    show Takes (readSuffixes (n + 1) e) rest e rest
    rw [readSuffixes]
    refine (Takes.accept_not (h.nextIsNot (by decide))).bind ?_
    exact (Takes.accept_not (h.nextIsNot (by decide))).bind Takes.pure
  | _ => exact hoperands

/-! ### What a phrase begins with -/

/-- The kinds of tokens that a part can begin with that stands alone. -/
def TokenKind.beginsPart : TokenKind → Bool
  | .kwFalse | .kwTrue | .kwNil | .number | .string | .kwThis | .identifier | .kwFun
  | .leftParen => true
  | _ => false

/-- Some tokens begin as an expression of a level does: with a part that stands alone, or
with an operator before its operand.  A function without a name has a parenthesis behind
its keyword. -/
def BeginsExpr (level : Level) (ts : List Token) : Prop :=
  ∃ t us, ts = t :: us ∧
    (t.kind.beginsPart = true ∨
      (t.kind = .bang ∨ t.kind = .minus) ∧ Level.unary.steps ≤ level.steps) ∧
    (t.kind = .kwFun → ∃ u vs, us = u :: vs ∧ u.kind = .leftParen)

/-- The words and marks that a statement can begin with, unless it is an expression. -/
def statementWords : List TokenKind :=
  [.kwFor, .kwIf, .kwPrint, .kwReturn, .kwWhile, .kwBreak, .kwContinue, .leftBrace]

/-- Some tokens begin as a statement does. -/
def BeginsStatement (ts : List Token) : Prop :=
  BeginsExpr .comma ts ∨ ∃ t us, ts = t :: us ∧ t.kind ∈ statementWords

/-- What the tokens of a phrase begin with. -/
def Phrase.Begins : Phrase → List Token → Prop
  | .expr level _, ts => BeginsExpr level ts
  | .arguments _, ts => BeginsExpr .assignment ts
  | .variable _, ts => ∃ t us, ts = t :: us ∧ t.kind = .kwVar
  | .statement _ _, ts => BeginsStatement ts
  | .declaration _, ts =>
      BeginsStatement ts ∨ ∃ t us, ts = t :: us ∧ t.kind ∈ [.kwVar, .kwFun, .kwClass]
  | .function _ _, ts => ∃ t us, ts = t :: us ∧ t.kind = .identifier
  | _, _ => True

theorem Level.steps_tighter_le (level : Level) : level.tighter.steps ≤ level.steps := by
  cases level <;> decide

namespace BeginsExpr

variable {level level' : Level} {ts us : List Token}

theorem append (h : BeginsExpr level ts) (us : List Token) : BeginsExpr level (ts ++ us) := by
  obtain ⟨t, vs, rfl, hk, hfun⟩ := h
  refine ⟨t, vs ++ us, rfl, hk, fun hf => ?_⟩
  obtain ⟨u, ws, rfl, hu⟩ := hfun hf
  exact ⟨u, ws ++ us, rfl, hu⟩

theorem mono (h : BeginsExpr level ts) (hle : level.steps ≤ level'.steps) :
    BeginsExpr level' ts := by
  obtain ⟨t, vs, rfl, hk, hfun⟩ := h
  exact ⟨t, vs, rfl, hk.imp_right fun ho => ⟨ho.1, Nat.le_trans ho.2 hle⟩, hfun⟩

/-- A part that stands alone and begins with another token than `fun`. -/
theorem part {t : Token} (hk : t.kind.beginsPart = true) (hne : t.kind ≠ .kwFun) :
    BeginsExpr level (t :: us) :=
  ⟨t, us, rfl, .inl hk, fun hf => absurd hf hne⟩

/-- An expression does not begin with a mark or word that is kept for other things. -/
theorem nextIsNot (h : BeginsExpr level ts) (kind : TokenKind)
    (hk : (kind.beginsPart || kind == .bang || kind == .minus) = false) : NextIsNot kind ts := by
  obtain ⟨t, vs, rfl, hb, -⟩ := h
  rw [nextIsNot_cons]
  rintro rfl
  simp only [Bool.or_eq_false_iff, beq_eq_false_iff_ne] at hk
  rcases hb with hb | ⟨hb, -⟩
  · rw [hk.1.1] at hb
    exact Bool.false_ne_true hb
  · exact hb.elim hk.1.2 hk.2

theorem not_statementWords (h : BeginsExpr level ts) :
    ∀ t ∈ ts.head?, t.kind ∉ statementWords := by
  obtain ⟨t, us, rfl, hk, -⟩ := h
  rintro u ⟨⟩ hmem
  rcases hk with hk | ⟨hk | hk, -⟩
  · revert hk hmem
    cases t.kind <;> decide
  · rw [hk] at hmem
    exact absurd hmem (by decide)
  · rw [hk] at hmem
    exact absurd hmem (by decide)

end BeginsExpr

/-- What a phrase derives begins as the phrase says. -/
theorem Derives.begins {phrase : Phrase} {ts : List Token} (h : Derives phrase ts) :
    phrase.Begins ts := by
  induction h with
  | @lift level _ _ _ ih => exact ih.mono level.steps_tighter_le
  | join _ _ _ ih => exact ih.append _
  | conditional _ _ _ _ _ ih =>
    rw [List.append_assoc]
    exact (ih.mono (by decide)).append _
  | assign _ _ _ ih | set _ _ _ ih => exact (ih.mono (by decide)).append _
  | @unary operator _ ts hop _ _ =>
    refine ⟨operator, ts, rfl, .inr ⟨hop, Nat.le_refl _⟩, fun hf => ?_⟩
    rw [hf] at hop
    exact absurd hop (by decide)
  | callEmpty _ _ _ ih => exact ih.append _
  | call _ _ _ _ _ ih =>
    rw [List.append_assoc]
    exact ih.append _
  | get _ _ _ ih => exact ih.append _
  | «false» hk | «true» hk | nil hk | this hk | name hk =>
    exact .part (by rw [hk]; rfl) (by rw [hk]; decide)
  | literal hk =>
    rcases hk with hk | hk <;> exact .part (by rw [hk]; rfl) (by rw [hk]; decide)
  | grouping hl => exact .part (by rw [hl]; rfl) (by rw [hl]; decide)
  | @lambda keyword lbrace _ _ ps bs hk hps _ _ _ =>
    refine ⟨keyword, ps ++ lbrace :: bs, rfl, .inl (by rw [hk]; rfl), fun _ => ?_⟩
    cases hps with
    | none hl _ => exact ⟨_, _, rfl, hl⟩
    | some hl _ _ _ => exact ⟨_, _, rfl, hl⟩
  | argument _ ih => exact ih
  | argumentCons _ _ _ ih => exact ih.append _
  | bareVariable hk | «variable» hk => exact ⟨_, _, rfl, hk⟩
  | expression _ _ ih => exact .inl (ih.append _)
  | print hk | «return» hk | «break» hk | «continue» hk | block hk | ifThen hk | ifElse hk
  | «while» hk | «for» hk => exact .inr ⟨_, _, rfl, by rw [hk]; decide⟩
  | statementDeclaration _ ih => exact .inl ih
  | variableDeclaration _ ih =>
    obtain ⟨t, us, rfl, hk⟩ := ih
    exact .inr ⟨t, us, rfl, by rw [hk]; decide⟩
  | functionDeclaration hk | classDeclaration hk =>
    exact .inr ⟨_, _, rfl, by rw [hk]; decide⟩
  | function hname | bareMethod hname => exact ⟨_, _, rfl, hname⟩
  | _ => trivial

/-- No declaration begins with `else`, and none with a closing brace. -/
theorem Derives.declaration_begins {s : Stmt} {ts : List Token} (h : Derives (.declaration s) ts) :
    ∃ t us, ts = t :: us ∧ t.kind ≠ .kwElse ∧ t.kind ≠ .rightBrace := by
  rcases h.begins with (hexpr | ⟨t, us, rfl, hk⟩) | ⟨t, us, rfl, hk⟩
  · have helse := hexpr.nextIsNot .kwElse rfl
    have hbrace := hexpr.nextIsNot .rightBrace rfl
    obtain ⟨t, us, rfl, -⟩ := hexpr
    exact ⟨t, us, rfl, nextIsNot_cons.mp helse, nextIsNot_cons.mp hbrace⟩
  · exact ⟨t, us, rfl, fun he => absurd (he ▸ hk) (by decide),
      fun he => absurd (he ▸ hk) (by decide)⟩
  · exact ⟨t, us, rfl, fun he => absurd (he ▸ hk) (by decide),
      fun he => absurd (he ▸ hk) (by decide)⟩

end LoxLang
