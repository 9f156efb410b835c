import LoxLang.Proofs.Machine.Sequence
import LoxLang.Proofs.Program.Recovery

/-!
# The meaning of `for`

A `for` statement is read as a tree of other statements: a loop, and around it a block if
there is an initializer.  Here it is a statement of its own, with rules that say what it
does: which of its clauses comes next, and in which frame.  The tree does just that.

The rules know the frame of the loop, and every clause and every body begins in it.  That a
body leaves this frame current is not taken for granted but proved.

## Main definitions

* `ForStmt` — a `for` statement with its clauses; `ForStmt.tree` is what it is read as.
* `ForStmt.ReadFrom` — the statement is what is read.
* `ForStmt.Rounds`, `ForStmt.Runs` — what a `for` statement does, round by round and as a
  whole.

## Main results

* `ForStmt.runs_iff` — the tree of a `for` statement does what the statement does.
* `readStatement_for_runs` — **so does what is read of any `for` statement.**
-/

namespace LoxLang

/-- The first clause of a `for` statement. -/
inductive ForInit where
  /-- The declaration of a variable. -/
  | var (name : Token) (value : Option Expr)
  /-- An expression. -/
  | expression (e : Expr)

/-- The clause as a statement. -/
def ForInit.stmt : ForInit → Stmt
  | .var name value => .var name value
  | .expression e => .expression e

/-- An initializer does not jump. -/
theorem ForInit.normal_of_exec {limits : Limits} {d : Nat} {m m' : Machine} {init : ForInit}
    {k : Completion} (h : exec limits d init.stmt m = .ok k m') : k = .normal := by
  cases d with
  | zero => cases h
  | succ d =>
    cases init with
    | var name value =>
      cases value with
      | none =>
        cases h
        rfl
      | some e =>
        obtain ⟨v, m₁, hv, h⟩ := exists_of_bind_eq_ok h
        cases h
        rfl
    | expression e =>
      obtain ⟨v, m₁, hv, h⟩ := exists_of_bind_eq_ok h
      cases h
      rfl

/-- A `for` statement. -/
structure ForStmt where
  /-- Where the keyword stands. -/
  position : Nat
  /-- What is done first. -/
  initializer : Option ForInit
  /-- What must hold for a round to take place. -/
  condition : Option Expr
  /-- What is done after a round. -/
  increment : Option Expr
  /-- What is done in a round. -/
  body : Stmt

namespace ForStmt

/-- What a `for` statement is read as. -/
def tree (loop : ForStmt) : Stmt :=
  forLoop loop.position (loop.initializer.map ForInit.stmt) loop.condition loop.increment
    loop.body

/-- The clauses are read one after the other, and then the body. -/
def ClausesRead (loop : ForStmt) (expr : Level → ReadM Expr) (statement : ReadM Stmt)
    (r r' : Reading) : Prop :=
  ∃ lparen semicolon rparen r₁ r₂ r₃ r₄ r₅ r₆, requireMark .openFor r = .ok lparen r₁
    ∧ readClause expr r₁ = .ok (loop.initializer.map ForInit.stmt) r₂
    ∧ readUnless .semicolon expr r₂ = .ok loop.condition r₃
    ∧ requireMark .endForCondition r₃ = .ok semicolon r₄
    ∧ readUnless .rightParen expr r₄ = .ok loop.increment r₅
    ∧ requireMark .closeFor r₅ = .ok rparen r₆
    ∧ statement r₆ = .ok loop.body r'

/-- The statement is read from its keyword on, within a depth. -/
def ReadFrom (loop : ForStmt) (n : Nat) (r r' : Reading) : Prop :=
  ∃ k keyword rest, n = k + 1 ∧ r.rest = keyword :: rest ∧ loop.position = keyword.position
    ∧ loop.ClausesRead (readExpr k) (readStatement k) { r with rest } r'

/-! ### Rules -/

/-- How a statement can end. -/
abbrev Ending := EStateM.Result Fault Machine Completion

/-- The same ending, in the frame of another machine. -/
def Ending.backIn (m : Machine) : Ending → Ending
  | .ok k m' => .ok k { m' with current := m.current }
  | .error f m' => .error f { m' with current := m.current }

theorem Ending.backIn_of_current {m m₁ : Machine} (h : m₁.current = m.current)
    (ending : Ending) : ending.backIn m₁ = ending.backIn m := by
  cases ending <;> simp only [backIn, h]

section Rules

variable (loop : ForStmt) (limits : Limits) (d : Nat) (g : FrameId)

/-- A round takes place: there is no condition, or it holds. -/
inductive Proceeds : Machine → Machine → Prop
  | always {m : Machine} (hc : loop.condition = none) : Proceeds m m
  | holds {c : Expr} {v : Value} {m m' : Machine} (hc : loop.condition = some c)
      (h : eval limits d c { m with current := g } = .ok v m') (hv : v.truthy = true) :
      Proceeds m m'

/-- The increment has been evaluated, if there is one. -/
inductive Increments : Machine → Machine → Prop
  | absent {m : Machine} (hi : loop.increment = none) : Increments m m
  | evaluated {e : Expr} {v : Value} {m m' : Machine} (hi : loop.increment = some e)
      (h : eval limits d e { m with current := g } = .ok v m') : Increments m m'

/-- What the rounds do, of which there may be so many.  The condition, the body and the
increment each begin in the frame `g` of the loop. -/
inductive Rounds : Nat → Machine → Ending → Prop
  | endless {m : Machine} : Rounds 0 m (.error .endless m)
  /-- A fault of the condition ends the statement. -/
  | conditionFails {n : Nat} {c : Expr} {f : Fault} {m m' : Machine}
      (hc : loop.condition = some c)
      (h : eval limits d c { m with current := g } = .error f m') :
      Rounds (n + 1) m (.error f m')
  /-- A condition that does not hold ends the loop. -/
  | stops {n : Nat} {c : Expr} {v : Value} {m m' : Machine} (hc : loop.condition = some c)
      (h : eval limits d c { m with current := g } = .ok v m') (hv : v.truthy = false) :
      Rounds (n + 1) m (.ok .normal m')
  /-- A fault of the body ends the statement. -/
  | bodyFails {n : Nat} {f : Fault} {m m₁ m' : Machine} (hp : Proceeds loop limits d g m m₁)
      (h : exec limits d loop.body { m₁ with current := g } = .error f m') :
      Rounds (n + 1) m (.error f m')
  /-- A body that breaks ends the loop; there is no increment. -/
  | breaks {n : Nat} {keyword : Token} {m m₁ m' : Machine} (hp : Proceeds loop limits d g m m₁)
      (h : exec limits d loop.body { m₁ with current := g } = .ok (.broke keyword) m') :
      Rounds (n + 1) m (.ok .normal m')
  /-- A body that returns ends the statement in the same way; there is no increment. -/
  | returns {n : Nat} {keyword : Token} {v : Value} {m m₁ m' : Machine}
      (hp : Proceeds loop limits d g m m₁)
      (h : exec limits d loop.body { m₁ with current := g } = .ok (.returned keyword v) m') :
      Rounds (n + 1) m (.ok (.returned keyword v) m')
  /-- A fault of the increment ends the statement. -/
  | incrementFails {n : Nat} {k : Completion} {e : Expr} {f : Fault} {m m₁ m₂ m' : Machine}
      (hp : Proceeds loop limits d g m m₁)
      (h : exec limits d loop.body { m₁ with current := g } = .ok k m₂) (hk : k.goesOn = true)
      (hi : loop.increment = some e)
      (he : eval limits d e { m₂ with current := g } = .error f m') :
      Rounds (n + 1) m (.error f m')
  /-- After a body that ends normally or continues, the increment is evaluated and the next
  round follows. -/
  | goesOn {n : Nat} {k : Completion} {m m₁ m₂ m₃ : Machine} {ending : Ending}
      (hp : Proceeds loop limits d g m m₁)
      (h : exec limits d loop.body { m₁ with current := g } = .ok k m₂) (hk : k.goesOn = true)
      (hi : Increments loop limits d g m₂ m₃) (hmore : Rounds n m₃ ending) :
      Rounds (n + 1) m ending

end Rules

/-- What a `for` statement does, to a depth.  It is in a frame of its own if it has an
initializer. -/
inductive Runs (loop : ForStmt) (limits : Limits) : Nat → Machine → Ending → Prop
  | tooDeep {m : Machine} : Runs loop limits 0 m (.error .overflow m)
  /-- Without an initializer the loop is in the frame of the statement. -/
  | bare {d : Nat} {m : Machine} {ending : Ending} (hi : loop.initializer = none)
      (h : loop.Rounds limits d m.current limits.rounds m ending) :
      Runs loop limits (d + 1) m ending
  /-- A fault of the initializer ends the statement. -/
  | initializerFails {d : Nat} {init : ForInit} {g : FrameId} {f : Fault} {m m₁ m' : Machine}
      (hi : loop.initializer = some init)
      (hg : allocate (fun s => s.newFrame (.block loop.position) (some m.current)) m = .ok g m₁)
      (h : exec limits d init.stmt { m₁ with current := g } = .error f m') :
      Runs loop limits (d + 1) m (.error f { m' with current := m.current })
  /-- The initializer runs once, and the loop follows in the same frame. -/
  | framed {d : Nat} {init : ForInit} {g : FrameId} {m m₁ m₂ : Machine} {ending : Ending}
      (hi : loop.initializer = some init)
      (hg : allocate (fun s => s.newFrame (.block loop.position) (some m.current)) m = .ok g m₁)
      (h : exec limits (d + 1) init.stmt { m₁ with current := g } = .ok .normal m₂)
      (hrounds : loop.Rounds limits d g limits.rounds m₂ ending) :
      Runs loop limits (d + 2) m (ending.backIn m)

/-! ### The rounds of the tree -/

section Rounds

variable {loop : ForStmt} {limits : Limits} {d n : Nat} {g : FrameId} {m m₁ m' : Machine}
  {ending : Ending}

/-- The condition of the tree. -/
def test (loop : ForStmt) : Expr := loop.condition.getD (.literal (.bool true))

theorem test_of_some {c : Expr} (hc : loop.condition = some c) : loop.test = c := by
  rw [test, hc]
  rfl

theorem Proceeds.current_eq (h : Proceeds loop limits d g m m₁) (hm : m.current = g) :
    m₁.current = g := by
  cases h with
  | always => exact hm
  | holds hc h => exact eval_current h

theorem Increments.current_eq (h : Increments loop limits d g m m₁) (hm : m.current = g) :
    m₁.current = g := by
  cases h with
  | absent => exact hm
  | evaluated hi h => exact eval_current h

/-- If a round takes place, then it does so in the tree.  Without a condition the tree has a
literal in its place; where this is too deep, so is the body. -/
theorem Proceeds.runLoop_eq {i : Option Expr} (h : Proceeds loop limits d g m m₁)
    (hm : m.current = g) :
    runLoop limits d loop.test loop.body i (n + 1) m
      = (exec limits d loop.body >>= afterRound limits d loop.test loop.body i n) m₁ := by
  cases h with
  | always hc =>
    have htest : loop.test = .literal (.bool true) := by rw [test, hc]; rfl
    cases d with
    | zero => rfl
    | succ d =>
      refine runLoop_of_true (v := .bool true) ?_ rfl
      rw [htest]
      rfl
  | holds hc h hv =>
    rw [Machine.at_current hm] at h
    refine runLoop_of_true ?_ hv
    rw [test_of_some hc]
    exact h

theorem Increments.evalIncrement_eq (h : Increments loop limits d g m m₁) (hm : m.current = g) :
    evalIncrement limits d loop.increment m = .ok () m₁ := by
  cases h with
  | absent hi =>
    rw [hi]
    rfl
  | evaluated hi h =>
    rw [Machine.at_current hm] at h
    rw [hi]
    exact bind_of_ok h

/-- The tree takes the rounds of the statement. -/
theorem Rounds.runLoop_eq (h : Rounds loop limits d g n m ending) (hm : m.current = g) :
    runLoop limits d loop.test loop.body loop.increment n m = ending := by
  induction h with
  | endless => rfl
  | conditionFails hc h =>
    rw [Machine.at_current hm] at h
    rw [test_of_some hc]
    exact runLoop_of_error h
  | stops hc h hv =>
    rw [Machine.at_current hm] at h
    rw [test_of_some hc]
    exact runLoop_of_false h hv
  | bodyFails hp h =>
    rw [Machine.at_current (hp.current_eq hm)] at h
    rw [hp.runLoop_eq hm, bind_of_error h]
  | breaks hp h =>
    rw [Machine.at_current (hp.current_eq hm)] at h
    rw [hp.runLoop_eq hm, bind_of_ok h]
    rfl
  | returns hp h =>
    rw [Machine.at_current (hp.current_eq hm)] at h
    rw [hp.runLoop_eq hm, bind_of_ok h]
    rfl
  | incrementFails hp h hk hi he =>
    rw [Machine.at_current (exec_current h)] at he
    rw [Machine.at_current (hp.current_eq hm)] at h
    rw [hp.runLoop_eq hm, bind_of_ok h, afterRound_of_goesOn hk, hi]
    exact bind_of_error (bind_of_error he)
  | goesOn hp h hk hi _ ih =>
    have hcurrent := exec_current h
    rw [Machine.at_current (hp.current_eq hm)] at h
    rw [hp.runLoop_eq hm, bind_of_ok h, afterRound_of_goesOn hk,
      bind_of_ok (hi.evalIncrement_eq hcurrent)]
    exact ih (hi.current_eq hcurrent)

/-- What follows the body of a round, whatever it does. -/
theorem exists_rounds_of_proceeds (hp : Proceeds loop limits d g m m₁)
    (hmore : ∀ m, ∃ ending, Rounds loop limits d g n m ending) :
    ∃ ending, Rounds loop limits d g (n + 1) m ending := by
  cases hbody : exec limits d loop.body { m₁ with current := g } with
  | error f m' => exact ⟨_, .bodyFails hp hbody⟩
  | ok k m₂ =>
    cases hk : k.goesOn with
    | false =>
      cases k with
      | broke keyword => exact ⟨_, .breaks hp hbody⟩
      | returned keyword v => exact ⟨_, .returns hp hbody⟩
      | normal | continued => cases hk
    | true =>
      cases hi : loop.increment with
      | none =>
        obtain ⟨ending, h⟩ := hmore m₂
        exact ⟨ending, .goesOn hp hbody hk (.absent hi) h⟩
      | some e =>
        cases he : eval limits d e { m₂ with current := g } with
        | error f m' => exact ⟨_, .incrementFails hp hbody hk hi he⟩
        | ok v m₃ =>
          obtain ⟨ending, h⟩ := hmore m₃
          exact ⟨ending, .goesOn hp hbody hk (.evaluated hi he) h⟩

/-- The rules leave no case out. -/
theorem exists_rounds (loop : ForStmt) (limits : Limits) (d : Nat) (g : FrameId) (n : Nat)
    (m : Machine) : ∃ ending, Rounds loop limits d g n m ending := by
  induction n generalizing m with
  | zero => exact ⟨_, .endless⟩
  | succ n ih =>
    cases hc : loop.condition with
    | none => exact exists_rounds_of_proceeds (.always hc) ih
    | some c =>
      cases h : eval limits d c { m with current := g } with
      | error f m' => exact ⟨_, .conditionFails hc h⟩
      | ok v m' =>
        cases hv : v.truthy with
        | false => exact ⟨_, .stops hc h hv⟩
        | true => exact exists_rounds_of_proceeds (.holds hc h hv) ih

/-- No jump to a loop leaves it. -/
theorem Rounds.caught (h : Rounds loop limits d g n m ending) {k : Completion}
    (hk : ending = .ok k m') : k = .normal ∨ ∃ keyword v, k = .returned keyword v := by
  induction h with
  | stops | breaks =>
    cases hk
    exact .inl rfl
  | returns =>
    cases hk
    exact .inr ⟨_, _, rfl⟩
  | goesOn _ _ _ _ _ ih => exact ih hk
  | endless | conditionFails | bodyFails | incrementFails => cases hk

theorem Rounds.caught_backIn (h : Rounds loop limits d g n m ending) {k : Completion}
    (hk : ending.backIn m₁ = .ok k m') : k = .normal ∨ ∃ keyword v, k = .returned keyword v := by
  cases hending : ending with
  | ok k' m₂ =>
    rw [hending] at hk
    cases hk
    exact h.caught hending
  | error f m₂ =>
    rw [hending] at hk
    cases hk

end Rounds

/-! ### The statement and its tree -/

section Statement

variable {loop : ForStmt} {limits : Limits} {d : Nat} {m m₁ m₂ m' : Machine} {ending : Ending}

theorem tree_of_none (hi : loop.initializer = none) :
    loop.tree = .while loop.test loop.body loop.increment := by
  rw [tree, hi]
  rfl

theorem tree_of_some {init : ForInit} (hi : loop.initializer = some init) :
    loop.tree = .block loop.position
      [init.stmt, .while loop.test loop.body loop.increment] := by
  rw [tree, hi]
  rfl

/-- A `for` statement without an initializer is a loop. -/
theorem exec_tree_of_none (hi : loop.initializer = none) :
    exec limits (d + 1) loop.tree
      = runLoop limits d loop.test loop.body loop.increment limits.rounds := by
  rw [tree_of_none hi, exec_while]

/-- With an initializer it is a block. -/
theorem exec_tree_of_some {init : ForInit} {g : FrameId} (hi : loop.initializer = some init)
    (hg : allocate (fun s => s.newFrame (.block loop.position) (some m.current)) m = .ok g m₁) :
    exec limits (d + 1) loop.tree m
      = inFrame g (runAll (exec limits d)
          [init.stmt, .while loop.test loop.body loop.increment]) m₁ := by
  rw [tree_of_some hi, exec_block hg]

/-- An action in another frame ends as it does there, back in the frame before. -/
theorem inFrame_eq_backIn {g : FrameId} {x : EvalM Completion} :
    inFrame g x m = Ending.backIn m (x { m with current := g }) := by
  rw [inFrame_eq]
  cases x { m with current := g } <;> rfl

/-- The tree does what the statement does. -/
theorem Runs.exec_eq (h : loop.Runs limits d m ending) : exec limits d loop.tree m = ending := by
  cases h with
  | tooDeep => rfl
  | bare hi h =>
    rw [exec_tree_of_none hi]
    exact h.runLoop_eq rfl
  | initializerFails hi hg h =>
    rw [exec_tree_of_some hi hg, inFrame_eq_backIn, runAll, bind_of_error h,
      Ending.backIn_of_current (allocate_current hg)]
    rfl
  | framed hi hg h hrounds =>
    have hloop := hrounds.runLoop_eq (exec_current h)
    rw [exec_tree_of_some hi hg, inFrame_eq_backIn, runAll, bind_of_ok h]
    dsimp only
    rw [runAll_singleton, exec_while, hloop, Ending.backIn_of_current (allocate_current hg)]

/-- The rules leave no case out. -/
theorem exists_runs (loop : ForStmt) (limits : Limits) (d : Nat) (m : Machine) :
    ∃ ending, loop.Runs limits d m ending := by
  cases d with
  | zero => exact ⟨_, .tooDeep⟩
  | succ d =>
    cases hi : loop.initializer with
    | none =>
      obtain ⟨ending, h⟩ := exists_rounds loop limits d m.current limits.rounds m
      exact ⟨ending, .bare hi h⟩
    | some init =>
      obtain ⟨g, m₁, hg⟩ : ∃ g m₁, allocate
          (fun s => s.newFrame (.block loop.position) (some m.current)) m = .ok g m₁ :=
        ⟨_, _, rfl⟩
      cases h : exec limits d init.stmt { m₁ with current := g } with
      | error f m₂ => exact ⟨_, .initializerFails hi hg h⟩
      | ok k m₂ =>
        obtain rfl := ForInit.normal_of_exec h
        cases d with
        | zero => cases h
        | succ d =>
          obtain ⟨ending, hrounds⟩ := exists_rounds loop limits d g limits.rounds m₂
          exact ⟨_, .framed hi hg h hrounds⟩

/-- The tree of a `for` statement does exactly what the statement does. -/
theorem runs_iff : exec limits d loop.tree m = ending ↔ loop.Runs limits d m ending := by
  constructor
  · rintro rfl
    obtain ⟨ending, h⟩ := exists_runs loop limits d m
    rw [h.exec_eq]
    exact h
  · exact Runs.exec_eq

/-- A `for` statement ends normally or by returning. -/
theorem Runs.caught (h : loop.Runs limits d m ending) {k : Completion}
    (hk : ending = .ok k m') : k = .normal ∨ ∃ keyword v, k = .returned keyword v := by
  cases h with
  | tooDeep | initializerFails => cases hk
  | bare hi h => exact h.caught hk
  | framed hi hg h hrounds => exact hrounds.caught_backIn hk

end Statement

end ForStmt

/-! ### Reading -/

section Reading

variable {n : Nat} {r r' : Reading} {s : Stmt} {expr : Level → ReadM Expr}
  {statement : ReadM Stmt}

/-- What is read as the first clause declares a variable or is an expression. -/
theorem readClause_eq_ok {clause : Option Stmt} (h : readClause expr r = .ok clause r') :
    ∃ init : Option ForInit, clause = init.map ForInit.stmt := by
  unfold readClause at h
  obtain ⟨absent, r₁, -, h⟩ := ReadM.bind_eq_ok h
  cases absent with
  | true =>
    cases h
    exact ⟨none, rfl⟩
  | false =>
    obtain ⟨declared, r₂, -, h⟩ := ReadM.bind_eq_ok h
    cases declared with
    | true =>
      obtain ⟨s, r₃, hs, h⟩ := ReadM.bind_eq_ok h
      obtain ⟨name, _, -, hs⟩ := ReadM.bind_eq_ok hs
      obtain ⟨value, _, -, hs⟩ := ReadM.bind_eq_ok hs
      obtain ⟨_, _, -, hs⟩ := ReadM.bind_eq_ok hs
      cases hs
      cases h
      exact ⟨some (.var name value), rfl⟩
    | false =>
      obtain ⟨s, r₃, hs, h⟩ := ReadM.bind_eq_ok h
      obtain ⟨e, _, -, hs⟩ := ReadM.bind_eq_ok hs
      obtain ⟨_, _, -, hs⟩ := ReadM.bind_eq_ok hs
      cases hs
      cases h
      exact ⟨some (.expression e), rfl⟩

/-- What is read behind the keyword is the tree of a `for` statement. -/
theorem readFor_eq_ok {keyword : Token} (h : readFor expr statement keyword r = .ok s r') :
    ∃ loop : ForStmt, loop.position = keyword.position ∧ loop.ClausesRead expr statement r r'
      ∧ s = loop.tree := by
  obtain ⟨lparen, r₁, h₁, h⟩ := ReadM.bind_eq_ok h
  obtain ⟨clause, r₂, h₂, h⟩ := ReadM.bind_eq_ok h
  obtain ⟨condition, r₃, h₃, h⟩ := ReadM.bind_eq_ok h
  obtain ⟨semicolon, r₄, h₄, h⟩ := ReadM.bind_eq_ok h
  obtain ⟨increment, r₅, h₅, h⟩ := ReadM.bind_eq_ok h
  obtain ⟨rparen, r₆, h₆, h⟩ := ReadM.bind_eq_ok h
  obtain ⟨body, r₇, h₇, h⟩ := ReadM.bind_eq_ok h
  obtain ⟨initializer, rfl⟩ := readClause_eq_ok h₂
  cases h
  exact ⟨⟨keyword.position, initializer, condition, increment, body⟩, rfl,
    ⟨lparen, semicolon, rparen, r₁, r₂, r₃, r₄, r₅, r₆, h₁, h₂, h₃, h₄, h₅, h₆, h₇⟩, rfl⟩

/-- A statement that begins with `for` is read as the tree of a `for` statement. -/
theorem exists_for_of_readStatement (h : readStatement n r = .ok s r')
    (hfor : r.nextIs .kwFor = true) : ∃ loop : ForStmt, loop.ReadFrom n r r' ∧ s = loop.tree := by
  cases n with
  | zero => cases h
  | succ k =>
    cases hrest : r.rest with
    | nil =>
      rw [Reading.nextIs, hrest] at hfor
      cases hfor
    | cons keyword rest =>
      have hkind : keyword.kind = .kwFor := by
        rw [Reading.nextIs, hrest] at hfor
        exact eq_of_beq hfor
      rw [readStatement] at h
      obtain ⟨word, r₁, hword, h⟩ := ReadM.bind_eq_ok h
      simp only [accept?, hrest, hkind] at hword
      cases hword
      simp only [hkind] at h
      obtain ⟨loop, hposition, hclauses, rfl⟩ := readFor_eq_ok h
      exact ⟨loop, ⟨k, keyword, rest, rfl, hrest, hposition, hclauses⟩, rfl⟩

/-- **A `for` statement means what its clauses say.**  Whatever statement is read from a
keyword `for` on, there are clauses that were read, and running the statement is running
them: to any depth, on any machine, with the same ending and the same machine after it.  No
`break` and no `continue` leaves it. -/
theorem readStatement_for_runs (hread : readStatement n r = .ok s r')
    (hfor : r.nextIs .kwFor = true) :
    ∃ loop : ForStmt, loop.ReadFrom n r r' ∧ ∀ limits d m,
      (∀ ending, exec limits d s m = ending ↔ loop.Runs limits d m ending)
        ∧ ∀ k m', exec limits d s m = .ok k m' →
          k = .normal ∨ ∃ keyword v, k = .returned keyword v := by
  obtain ⟨loop, hloop, rfl⟩ := exists_for_of_readStatement hread hfor
  refine ⟨loop, hloop, fun limits d m => ⟨fun ending => ForStmt.runs_iff, fun k m' h => ?_⟩⟩
  exact (ForStmt.runs_iff.mp h).caught rfl

/-- The statement `for (var a = nil; ; a = b) break;`. -/
theorem readStatement_for_runs_break :
    let a : Token := ⟨.identifier, "a", .nil, 1, 3⟩
    let again : Token := ⟨.identifier, "a", .nil, 1, 8⟩
    let b : Token := ⟨.identifier, "b", .nil, 1, 10⟩
    let word : Token := ⟨.kwBreak, "break", .nil, 1, 12⟩
    let tokens : List Token :=
      [⟨.kwFor, "for", .nil, 1, 0⟩, ⟨.leftParen, "(", .nil, 1, 1⟩, ⟨.kwVar, "var", .nil, 1, 2⟩, a,
        ⟨.equal, "=", .nil, 1, 4⟩, ⟨.kwNil, "nil", .nil, 1, 5⟩, ⟨.semicolon, ";", .nil, 1, 6⟩,
        ⟨.semicolon, ";", .nil, 1, 7⟩, again, ⟨.equal, "=", .nil, 1, 9⟩, b,
        ⟨.rightParen, ")", .nil, 1, 11⟩, word, ⟨.semicolon, ";", .nil, 1, 13⟩]
    let r : Reading := ⟨tokens, .endOfText 1 14, #[]⟩
    let r' : Reading := ⟨[], .endOfText 1 14, #[]⟩
    let s := forLoop 0 (some (.var a (some (.literal .nil)))) none
      (some (.assign again (.variable b))) (.break word)
    readStatement 40 r = .ok s r' ∧ r.nextIs .kwFor = true
      ∧ ∃ loop : ForStmt, loop.ReadFrom 40 r r' ∧ ∀ limits d m,
        (∀ ending, exec limits d s m = ending ↔ loop.Runs limits d m ending)
          ∧ ∀ k m', exec limits d s m = .ok k m' →
            k = .normal ∨ ∃ keyword v, k = .returned keyword v := by
  intro a again b word tokens r r' s
  have hread : readStatement 40 r = .ok s r' := by cbv
  exact ⟨hread, rfl, readStatement_for_runs hread rfl⟩

end Reading

end LoxLang
