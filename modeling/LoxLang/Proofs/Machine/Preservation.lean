import LoxLang.Proofs.Machine.Action

/-!
# Running programs keeps the machine sound

Whatever a program does, and however deeply it is nested, a sound machine remains sound.
Expressions give sound values.  Statements end in a way that fits their place: a jump ends
a statement only where there is something to leave.  Faults are blamed on what occurs in
the program.

## Main definitions

* `Evaluates` — evaluation to some depth keeps the machine sound.

## Main results

* `Laws.evaluates` — evaluation to any depth keeps the machine sound.
* `Laws.runProgram_runs` — so does running a program.
-/

namespace LoxLang

variable {R : Occurrence → Prop} {A : Fault → Prop} {D : Distances} {n' : Naming}
  {m : Machine} {p : Place} {limits : Limits} {d : Nat}

/-- Evaluation to a depth keeps the machine sound. -/
structure Evaluates (R : Occurrence → Prop) (A : Fault → Prop) (D : Distances)
    (limits limits' : Limits) (d : Nat) : Prop where
  /-- Expressions. -/
  eval : ∀ {m : Machine} {p : Place} {e : Expr}, m.At R D p → (∀ o ∈ e.occurrences p, R o) →
    Runs R A (eval limits d e) (eval limits' d e) m fun v m' => m'.Knows R v
  /-- Statements. -/
  exec : Executes R A D (exec limits d) (exec limits' d)
  /-- Calls. -/
  invoke : Invokes R A D (invoke limits d) (invoke limits' d)

/-- Nothing can be evaluated when the depth is used up. -/
theorem Laws.evaluates_zero (laws : Laws R A D limits.naming n') :
    Evaluates R A D limits { limits with naming := n' } 0 where
  eval hm _ := by
    rw [LoxLang.eval, LoxLang.eval]
    exact Runs.throw hm.sound laws.overflow
  exec hm _ _ := by
    rw [LoxLang.exec, LoxLang.exec]
    exact Runs.throw hm.sound laws.overflow
  invoke hm _ _ := by
    rw [LoxLang.invoke, LoxLang.invoke]
    exact Runs.throw hm.sound laws.overflow

/-- Calls to a depth, from statements to the depth before it. -/
theorem Evaluates.invoke_succ (ih : Evaluates R A D limits { limits with naming := n' } d) :
    Invokes R A D (LoxLang.invoke limits (d + 1))
      (LoxLang.invoke { limits with naming := n' } (d + 1)) := by
  intro m c vs hm hc hvs
  obtain ⟨closure, sites, hclosure, hchain, hfits, hinit⟩ := hc
  rw [LoxLang.invoke, LoxLang.invoke]
  refine Runs.ask ?_
  rw [hclosure]
  exact enter_runs ih.exec hm hchain hfits hinit hvs

/-- Expressions to a depth, from evaluation to the depth before it. -/
theorem Laws.eval_succ (laws : Laws R A D limits.naming n')
    (ih : Evaluates R A D limits { limits with naming := n' } d) {e : Expr} (hm : m.At R D p)
    (he : ∀ o ∈ e.occurrences p, R o) :
    Runs R A (LoxLang.eval limits (d + 1) e) (LoxLang.eval { limits with naming := n' } (d + 1) e) m
      fun v m' => m'.Knows R v := by
  cases e with
  | literal value =>
    rw [LoxLang.eval, LoxLang.eval]
    refine Runs.pure hm.sound ?_
    cases value <;> trivial
  | grouping e =>
    rw [LoxLang.eval, LoxLang.eval]
    exact ih.eval hm he
  | unary operator e =>
    rw [LoxLang.eval, LoxLang.eval]
    simp only [Expr.occurrences, List.forall_mem_cons] at he
    refine (ih.eval hm he.2).bind fun v m₁ h₁ _ => ?_
    refine Runs.ofExcept h₁.sound (fun w hw => knows_of_applyUnary hw) fun f hf => ?_
    rw [error_of_applyUnary hf]
    exact laws.blame he.1 rfl ⟨by simp, by simp⟩
  | binary l operator r =>
    rw [LoxLang.eval, LoxLang.eval]
    simp only [Expr.occurrences, List.forall_mem_cons, List.forall_mem_append] at he
    refine (ih.eval hm he.2.1).bind fun v m₁ h₁ hv => ?_
    refine (ih.eval (h₁.at hm) he.2.2).bind fun w m₂ h₂ hw => ?_
    exact Runs.ofExcept h₂.sound (fun u hu => knows_of_applyBinary hw hu) fun f hf =>
      laws.binary he.1 hf
  | logical l operator r =>
    rw [LoxLang.eval, LoxLang.eval]
    simp only [Expr.occurrences, List.forall_mem_append] at he
    refine (ih.eval hm he.1).bind fun v m₁ h₁ hv => ?_
    split
    · exact Runs.pure h₁.sound hv
    · exact ih.eval (h₁.at hm) he.2
  | conditional c t e =>
    rw [LoxLang.eval, LoxLang.eval]
    simp only [Expr.occurrences, List.forall_mem_append] at he
    refine (ih.eval hm he.1).bind fun v m₁ h₁ hv => ?_
    split
    · exact ih.eval (h₁.at hm) he.2.1
    · exact ih.eval (h₁.at hm) he.2.2
  | assign name e =>
    rw [LoxLang.eval, LoxLang.eval]
    simp only [Expr.occurrences, List.forall_mem_append, List.forall_mem_singleton] at he
    refine (ih.eval hm he.1).bind fun v m₁ h₁ hv => ?_
    refine (laws.assignName_runs (h₁.at hm) he.2 hv).bind fun _ m₂ h₂ hv₂ => ?_
    exact Runs.pure h₂.sound hv₂
  | «variable» name =>
    rw [LoxLang.eval, LoxLang.eval]
    exact laws.readName_runs hm (he _ List.mem_cons_self)
  | call callee paren arguments =>
    rw [LoxLang.eval, LoxLang.eval]
    simp only [Expr.occurrences, List.forall_mem_cons, List.forall_mem_append] at he
    refine (ih.eval hm he.2.1).bind fun f m₁ h₁ hf => ?_
    refine (Runs.mapM (S := fun m v => m.Knows R v) arguments (fun hl hv => hl.knows hv) h₁.sound
      ?_).bind fun vs m₂ h₂ hvs => ?_
    · intro e hmem m' h'
      exact ih.eval ((h₁.trans h').at hm) fun o ho =>
        he.2.2 o (mem_exprsOccurrences.mpr ⟨e, hmem, ho⟩)
    refine Runs.ask ?_
    -- what has an arity can be called, and nothing else is
    have hok := (h₁.trans h₂).ok hm.toOk
    cases harity : m₂.store.arity? f with
    | none => exact laws.failAt_runs hok he.1 rfl ⟨by simp, by simp⟩
    | some k =>
      dsimp only
      split
      · exact apply_runs ih.invoke hok harity (h₂.knows hf) hvs
      · exact laws.failAt_runs hok he.1 rfl ⟨by simp, by simp⟩
  | get object name =>
    rw [LoxLang.eval, LoxLang.eval]
    simp only [Expr.occurrences, List.forall_mem_cons] at he
    refine (ih.eval hm he.2).bind fun v m₁ h₁ hv => ?_
    exact getProperty_runs laws ih.invoke (h₁.ok hm.toOk) hv he.1
  | set object name e =>
    rw [LoxLang.eval, LoxLang.eval]
    simp only [Expr.occurrences, List.forall_mem_cons, List.forall_mem_append] at he
    refine (ih.eval hm he.2.2).bind fun v m₁ h₁ _ => ?_
    exact setProperty_runs laws (h₁.ok hm.toOk) he.1 (ih.eval (h₁.at hm) he.2.1)
  | this keyword =>
    rw [LoxLang.eval, LoxLang.eval]
    exact laws.readName_runs hm (he _ List.mem_cons_self)
  | lambda keyword params body =>
    rw [LoxLang.eval, LoxLang.eval]
    refine Runs.get ?_
    have hbody : ∀ o ∈ stmtsOccurrences body (p.enter (.function keyword.position)), R o :=
      fun o ho => he o (List.mem_cons_of_mem _ ho)
    refine (newClosure_runs hm rfl ⟨⟨keyword.position, rfl⟩, hbody⟩ rfl).bind fun c m₁ h₁ hc => ?_
    exact Runs.pure h₁.sound hc

/-- A block runs in a frame of its own. -/
theorem Evaluates.block_succ (ih : Evaluates R A D limits { limits with naming := n' } d)
    {position : Nat} {body : List Stmt} (hm : m.At R D p)
    (hs : ∀ o ∈ (Stmt.block position body).occurrences p, R o) :
    Runs R A (LoxLang.exec limits (d + 1) (.block position body))
      (LoxLang.exec { limits with naming := n' } (d + 1) (.block position body)) m
      fun c m' => c.Sound R p m' := by
  rw [LoxLang.exec, LoxLang.exec]
  simp only [Stmt.occurrences, List.forall_mem_cons] at hs
  refine Runs.get ?_
  refine (Runs.allocate
    (P := fun f m' => m'.store.Chained m'.globals f (.block position :: p.sites))
    (m.store.extends_newFrame _ _) (hm.sound.newFrame (fun k h => by cases h) hm.chained)
    (hm.chained.newFrame (.block position))).bind fun f m₁ h₁ hf => ?_
  have hat : Machine.At R D (p.scope (.block position)) { m₁ with current := f } :=
    ⟨⟨h₁.sound, h₁.distances_eq.trans hm.distances_eq⟩, hf⟩
  refine Runs.inFrame ((runAll_runs ih.exec body hat (fun k rest h => by cases h) hs.2).mono
    fun c m' _ hc => ?_)
  -- a scope changes neither the function nor the loops around a place
  cases c <;> exact hc

/-- The rounds of a loop run in the frame of the loop, one loop further in. -/
theorem Laws.while_succ (laws : Laws R A D limits.naming n')
    (ih : Evaluates R A D limits { limits with naming := n' } d) {condition : Expr} {body : Stmt}
    {increment : Option Expr} (hm : m.At R D p) (hp : p.Inside)
    (hs : ∀ o ∈ (Stmt.while condition body increment).occurrences p, R o) :
    Runs R A (LoxLang.exec limits (d + 1) (.while condition body increment))
      (LoxLang.exec { limits with naming := n' } (d + 1) (.while condition body increment)) m
      fun c m' => c.Sound R p m' := by
  have hloop : ∀ {m : Machine}, m.At R D p → m.At R D p.loop := fun h => ⟨h.toOk, h.chained⟩
  -- only the increment depends on whether there is one
  cases increment with
  | none =>
    rw [LoxLang.exec, LoxLang.exec]
    simp only [Stmt.occurrences, List.forall_mem_append] at hs
    refine repeatWhile_runs ?_ ?_ ?_ laws.endless limits.rounds hm
    · intro m' hm'
      exact (ih.eval hm' hs.1).bind fun _ m₁ h₁ _ => Runs.pure h₁.sound trivial
    · intro m' hm'
      exact ih.exec (hloop hm') hp hs.2
    · intro m' hm'
      exact Runs.pure hm'.sound trivial
  | some i =>
    rw [LoxLang.exec, LoxLang.exec]
    simp only [Stmt.occurrences, List.forall_mem_append] at hs
    refine repeatWhile_runs ?_ ?_ ?_ laws.endless limits.rounds hm
    · intro m' hm'
      exact (ih.eval hm' hs.1).bind fun _ m₁ h₁ _ => Runs.pure h₁.sound trivial
    · intro m' hm'
      exact ih.exec (hloop hm') hp hs.2.1
    · intro m' hm'
      exact (ih.eval (hloop hm') hs.2.2).bind fun _ m₁ h₁ _ => Runs.pure h₁.sound trivial

/-- Statements to a depth, from evaluation to the depth before it. -/
theorem Laws.exec_succ (laws : Laws R A D limits.naming n')
    (ih : Evaluates R A D limits { limits with naming := n' } d) :
    Executes R A D (LoxLang.exec limits (d + 1))
      (LoxLang.exec { limits with naming := n' } (d + 1)) := by
  intro m p s hm hp hs
  cases s with
  | expression e =>
    rw [LoxLang.exec, LoxLang.exec]
    exact (ih.eval hm hs).bind fun _ m₁ h₁ _ => Runs.pure h₁.sound trivial
  | print e =>
    rw [LoxLang.exec, LoxLang.exec]
    refine (ih.eval hm hs).bind fun v m₁ h₁ _ => Runs.ask ?_
    exact (printLine_runs (h₁.ok hm.toOk)).bind fun _ m₂ h₂ _ => Runs.pure h₂.sound trivial
  | var name value =>
    cases value with
    | none =>
      rw [LoxLang.exec, LoxLang.exec]
      exact (defineHere_runs hm hp fun v hv => by cases hv).bind fun _ m₁ h₁ _ =>
        Runs.pure h₁.sound trivial
    | some e =>
      rw [LoxLang.exec, LoxLang.exec]
      refine (ih.eval hm hs).bind fun v m₁ h₁ hv => ?_
      refine (defineHere_runs (h₁.at hm) hp fun w hw => ?_).bind fun _ m₂ h₂ _ =>
        Runs.pure h₂.sound trivial
      cases hw
      exact hv
  | block position body => exact ih.block_succ hm hs
  | ifElse c t e =>
    cases e with
    | none =>
      rw [LoxLang.exec, LoxLang.exec]
      simp only [Stmt.occurrences, List.forall_mem_append] at hs
      refine (ih.eval hm hs.1).bind fun v m₁ h₁ _ => ?_
      split
      · exact ih.exec (h₁.at hm) hp hs.2
      · exact Runs.pure h₁.sound trivial
    | some e =>
      rw [LoxLang.exec, LoxLang.exec]
      simp only [Stmt.occurrences, List.forall_mem_append] at hs
      refine (ih.eval hm hs.1).bind fun v m₁ h₁ _ => ?_
      split
      · exact ih.exec (h₁.at hm) hp hs.2.1
      · exact ih.exec (h₁.at hm) hp hs.2.2
  | «while» c body increment => exact laws.while_succ ih hm hp hs
  | «break» keyword =>
    rw [LoxLang.exec, LoxLang.exec]
    exact Runs.pure hm.sound (laws.breaks (hs _ List.mem_cons_self))
  | «continue» keyword =>
    rw [LoxLang.exec, LoxLang.exec]
    exact Runs.pure hm.sound (laws.continues (hs _ List.mem_cons_self))
  | function f =>
    rw [LoxLang.exec, LoxLang.exec]
    refine Runs.get ?_
    refine (newClosure_runs hm rfl (f.closure_fits m.current hs) rfl).bind fun c m₁ h₁ hc => ?_
    refine (defineHere_runs (h₁.at hm) hp fun v hv => ?_).bind fun _ m₂ h₂ _ =>
      Runs.pure h₂.sound trivial
    cases hv
    exact hc
  | «return» keyword value =>
    cases value with
    | none =>
      rw [LoxLang.exec, LoxLang.exec]
      exact Runs.pure hm.sound ⟨laws.returns (hs _ List.mem_cons_self), trivial⟩
    | some e =>
      rw [LoxLang.exec, LoxLang.exec]
      simp only [Stmt.occurrences, List.forall_mem_cons] at hs
      exact (ih.eval hm hs.2).bind fun v m₁ h₁ hv =>
        Runs.pure h₁.sound ⟨laws.returns hs.1, hv⟩
  | classDecl name superclass methods statics =>
    rw [LoxLang.exec, LoxLang.exec]
    simp only [Stmt.occurrences, List.forall_mem_cons, List.forall_mem_append] at hs
    refine (laws.readSuperclass_runs hm fun t ht => ?_).bind fun parent m₁ h₁ hsuper => ?_
    · subst ht
      exact hs.2.1 _ List.mem_cons_self
    · exact (declareClass_runs (h₁.at hm) hp hsuper hs.2.2.2 hs.2.2.1).bind fun _ m₂ h₂ _ =>
        Runs.pure h₂.sound trivial

/-- Evaluation to any depth keeps the machine sound. -/
theorem Laws.evaluates (laws : Laws R A D limits.naming n') (d : Nat) :
    Evaluates R A D limits { limits with naming := n' } d := by
  induction d with
  | zero => exact laws.evaluates_zero
  | succ d ih => exact ⟨laws.eval_succ ih, laws.exec_succ ih, ih.invoke_succ⟩

/-! ### Programs -/

/-- Running a program keeps the machine sound, and no jump leaves the program. -/
theorem Laws.runProgram_runs (laws : Laws R A D limits.naming n') (program : Program)
    (hm : m.At R D .top) (hprogram : ∀ o ∈ program.occurrences, R o) :
    Runs R A (runProgram limits program) (runProgram { limits with naming := n' } program) m
      fun _ _ => True := by
  induction program generalizing m with
  | nil => exact Runs.pure hm.sound trivial
  | cons s ss ih =>
    rw [runProgram, runProgram]
    refine ((laws.evaluates limits.depth).exec hm (fun k rest h => by cases h) fun o ho =>
      hprogram o (List.mem_append_left _ ho)).bind fun c m₁ h₁ hc => ?_
    cases c with
    | normal => exact ih (h₁.at hm) fun o ho => hprogram o (List.mem_append_right _ ho)
    -- around a program there is neither a function nor a loop
    | returned keyword v => exact absurd hc.1 (by simp [Place.top])
    | broke keyword => exact absurd hc (Nat.lt_irrefl 0)
    | continued keyword => exact absurd hc (Nat.lt_irrefl 0)

end LoxLang
