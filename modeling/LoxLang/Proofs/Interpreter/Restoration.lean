import LoxLang.Proofs.Interpreter.Verdict
import LoxLang.Proofs.Machine.Failing

/-!
# What a failed program leaves behind

However the work on an expression, a statement or a call ends, the frame that was current
before it is current again.  A program that fails does so at one step of one of its
statements.  The machine of that step is kept, in the frame in which the program was begun;
the failure is reported once, and no later statement plays a part.  So a terminal is back in
the frame of the global names after each entry, and what an entry did before it failed is
there for the next.

## Main definitions

* `Completion.stray?` — the fault of a jump that nothing catches.
* `Stmt.Fails` — the step at which a statement of a program fails.
* `Interpreter.failed` — what a program that fails at a step leaves of an interpreter.

## Main results

* `runProgram_eq_error_iff` — a failed program leaves the machine of the failing step behind.
* `Interpreter.execute_restores` — **a program leaves the current frame as it was, and if it
  fails then what it did before the failing step.**
-/

namespace LoxLang

/-- The fault of a jump that nothing catches. -/
def Completion.stray? : Completion → Option Fault
  | .normal => none
  | .returned keyword _ => some (.at .strayReturn keyword)
  | .broke keyword => some (.at .strayJump keyword)
  | .continued keyword => some (.at .strayJump keyword)

/-- A statement of a program fails.  The last machine is that of the failure. -/
inductive Stmt.Fails (limits : Limits) (s : Stmt) (m : Machine) (f : Fault) (m' : Machine) : Prop
  /-- The statement comes to a step that fails. -/
  | step (h : Task.Fails limits limits.depth (.exec s) m f m')
  /-- The statement ends in a jump that nothing catches. -/
  | jump {k : Completion} (hs : exec limits limits.depth s m = .ok k m') (hk : k.stray? = some f)

/-! ### Programs -/

section Programs

variable {limits : Limits} {m m₁ m₂ m' : Machine} {f : Fault} {s : Stmt}
  {program done rest : Program}

theorem runProgram_cons_of_stray {k : Completion}
    (h : exec limits limits.depth s m = .ok k m') (hk : k.stray? = some f) :
    runProgram limits (s :: rest) m = .error f m' := by
  rw [runProgram, bind_of_ok h]
  cases k <;> cases hk <;> rfl

theorem runProgram_current (h : EndsIn (runProgram limits program) m m') :
    m'.current = m.current ∧ m'.globals = m.globals := by
  have hchanges := ((Traced.any limits.naming).runProgram_does program).changes h
  exact ⟨hchanges.current_eq, hchanges.globals_eq⟩

/-- A statement that fails ends the program, whatever statements are left. -/
theorem runProgram_of_fails (hdone : runProgram limits done m = .ok () m₁)
    (hs : s.Fails limits m₁ f m₂) :
    runProgram limits (done ++ s :: rest) m = .error f { m₂ with current := m.current } := by
  have hcurrent : m₁.current = m.current := (runProgram_current (.inl ⟨(), hdone⟩)).1
  rw [runProgram_append_of_ok hdone, ← hcurrent]
  cases hs with
  | step h =>
    rw [runProgram]
    exact bind_of_error h.faults
  | jump hs hk => rw [runProgram_cons_of_stray hs hk, Machine.at_current (exec_current hs)]

/-- A program that fails does so at a step of one of its statements. -/
theorem exists_fails_of_runProgram (h : runProgram limits program m = .error f m') :
    ∃ done s rest m₁ m₂, program = done ++ s :: rest ∧ runProgram limits done m = .ok () m₁
      ∧ s.Fails limits m₁ f m₂ := by
  induction program generalizing m with
  | nil => cases h
  | cons s program ih =>
    rw [runProgram] at h
    obtain h | ⟨k, m₁, hs, h⟩ := cases_of_bind_eq_error h
    · obtain ⟨m₁, hfails, -⟩ := (Task.faults_iff (t := .exec s)).mp h
      exact ⟨[], s, program, m, m₁, rfl, rfl, .step hfails⟩
    cases k with
    | normal =>
      obtain ⟨done, t, rest, m₂, m₃, rfl, hdone, hfails⟩ := ih h
      refine ⟨s :: done, t, rest, m₂, m₃, rfl, ?_, hfails⟩
      rw [runProgram_cons_of_normal hs]
      exact hdone
    | returned | broke | continued =>
      cases h
      exact ⟨[], s, program, m, _, rfl, rfl, .jump hs rfl⟩

theorem runProgram_eq_error_iff : runProgram limits program m = .error f m'
    ↔ ∃ done s rest m₁ m₂, program = done ++ s :: rest ∧ runProgram limits done m = .ok () m₁
      ∧ s.Fails limits m₁ f m₂ ∧ m' = { m₂ with current := m.current } := by
  constructor
  · intro h
    obtain ⟨done, s, rest, m₁, m₂, rfl, hdone, hs⟩ := exists_fails_of_runProgram h
    rw [runProgram_of_fails hdone hs] at h
    cases h
    exact ⟨done, s, rest, m₁, m₂, rfl, hdone, hs, rfl⟩
  · rintro ⟨done, s, rest, m₁, m₂, rfl, hdone, hs, rfl⟩
    exact runProgram_of_fails hdone hs

end Programs

/-! ### Interpreters -/

/-- A failure is written and kept. -/
theorem Log.runtimeError_eq (log : Log) (d : Diagnostic) :
    log.runtimeError d = { log.display d "runtime error" .red with
      errors := log.errors.push d
      hadRuntimeError := true } := by
  -- what is written depends neither on the errors nor on the mark
  let marked : Log := { log with errors := log.errors.push d, hadRuntimeError := true }
  have hdiagnosis : marked.diagnosis d .red = log.diagnosis d .red := rfl
  unfold runtimeError display
  dsimp only
  rw [hdiagnosis]
  split
  · cases log.diagnosis d .red <;> rfl
  · rfl

namespace Interpreter

variable {i after : Interpreter} {program : Program}

/-- The machine with which running a program ends. -/
theorem endsIn_execute (i : Interpreter) (program : Program) :
    EndsIn (runProgram i.limits program) i.machine (i.execute program).1.machine := by
  unfold execute
  cases h : runProgram i.limits program i.machine with
  | ok a m' => exact .inl ⟨a, h⟩
  | error f m' => cases f <;> exact .inr ⟨_, h⟩

theorem execute_of_error {fault : RuntimeFault} {m' : Machine}
    (h : runProgram i.limits program i.machine = .error (.runtime fault) m') :
    i.execute program
      = ({ i with machine := m', log := i.log.runtimeError (.ofRuntimeFault fault) },
        .finished false) := by
  rw [execute, h]

theorem error_of_execute (h : i.execute program = (after, .finished false)) :
    ∃ fault m', runProgram i.limits program i.machine = .error (.runtime fault) m' := by
  unfold execute at h
  cases hrun : runProgram i.limits program i.machine with
  | ok a m' =>
    rw [hrun] at h
    cases h
  | error f m' =>
    rw [hrun] at h
    cases f with
    | runtime fault => exact ⟨fault, m', rfl⟩
    | _ => cases h

/-- An interpreter that has taken texts is in the frame of the global names. -/
theorem current_of_reached {depth rounds : Nat} {runs : List Run}
    (h : Reached depth rounds runs i) : i.machine.current = i.machine.globals :=
  h.session.1.at_top.chained.eq_root

/-- What a program that fails at a step leaves of an interpreter: the machine of the step, in the
frame in which the program was begun, and a log in which the failure is written and kept once. -/
def failed (i : Interpreter) (fault : RuntimeFault) (m : Machine) : Interpreter :=
  { i with
    machine := { m with current := i.machine.current }
    log := { i.log.display (.ofRuntimeFault fault) "runtime error" .red with
      errors := i.log.errors.push (.ofRuntimeFault fault)
      hadRuntimeError := true } }

theorem log_failed (i : Interpreter) (fault : RuntimeFault) (m : Machine) :
    ∃ written, (i.failed fault m).log = { i.log with
      errors := i.log.errors.push (.ofRuntimeFault fault)
      hadRuntimeError := true
      written } := by
  obtain ⟨written, hdisplay⟩ := i.log.display_eq (.ofRuntimeFault fault) "runtime error" .red
  refine ⟨written, ?_⟩
  rw [failed, hdisplay]

/-- A statement that fails ends the program: nothing behind it is run, and the failure is
reported. -/
theorem execute_of_fails {done rest : Program} {s : Stmt} {m₁ m₂ : Machine} {fault : RuntimeFault}
    (hdone : runProgram i.limits done i.machine = .ok () m₁)
    (hs : s.Fails i.limits m₁ (.runtime fault) m₂) :
    i.execute (done ++ s :: rest) = (i.failed fault m₂, .finished false) := by
  rw [execute_of_error (runProgram_of_fails hdone hs), Log.runtimeError_eq]
  rfl

/-- **A program leaves the current frame as it was, and if it fails then what it did before the
failing step.**  However an expression, a statement or a call ends, the current frame is the same;
so it is after a program, and at a terminal it is that of the global names.  A program fails if
one of its statements does, once those before it have ended, and only then.  The machine is that of
the failing step, in the frame in which the program was begun.  The failure is reported once, the
log is otherwise as before, and it does not matter which statements would have followed. -/
theorem execute_restores (i : Interpreter) (program : Program) :
    (∀ d m m', (∀ e, EndsIn (eval i.limits d e) m m' → m'.current = m.current)
        ∧ (∀ s, EndsIn (exec i.limits d s) m m' → m'.current = m.current)
        ∧ ∀ c vs, EndsIn (invoke i.limits d c vs) m m' → m'.current = m.current)
      ∧ (i.execute program).1.machine.current = i.machine.current
      ∧ (i.execute program).1.machine.globals = i.machine.globals
      ∧ (∀ depth rounds runs, Reached depth rounds runs i →
        i.machine.current = i.machine.globals)
      ∧ (∀ after, i.execute program = (after, .finished false)
        ↔ ∃ done s rest m₁ fault m₂, program = done ++ s :: rest
          ∧ runProgram i.limits done i.machine = .ok () m₁
          ∧ s.Fails i.limits m₁ (.runtime fault) m₂
          ∧ after = i.failed fault m₂)
      ∧ ∀ done s m₁ fault m₂, runProgram i.limits done i.machine = .ok () m₁ →
        s.Fails i.limits m₁ (.runtime fault) m₂ →
          (∀ rest, i.execute (done ++ s :: rest) = (i.failed fault m₂, .finished false))
          ∧ ∃ written, (i.failed fault m₂).log = { i.log with
              errors := i.log.errors.push (.ofRuntimeFault fault)
              hadRuntimeError := true
              written } := by
  refine ⟨fun d m m' => ⟨fun e h => ?_, fun s h => ?_, fun c vs h => ?_⟩, ?_, ?_, ?_, ?_, ?_⟩
  · exact Task.Ends.current_eq (t := .eval e) h
  · exact Task.Ends.current_eq (t := .exec s) h
  · exact Task.Ends.current_eq (t := .invoke c vs) h
  · exact (runProgram_current (endsIn_execute i program)).1
  · exact (runProgram_current (endsIn_execute i program)).2
  · exact fun depth rounds runs h => current_of_reached h
  · intro after
    constructor
    · intro h
      obtain ⟨fault, m', hrun⟩ := error_of_execute h
      obtain ⟨done, s, rest, m₁, m₂, rfl, hdone, hs, -⟩ := runProgram_eq_error_iff.mp hrun
      rw [execute_of_fails hdone hs] at h
      cases h
      exact ⟨done, s, rest, m₁, fault, m₂, rfl, hdone, hs, rfl⟩
    · rintro ⟨done, s, rest, m₁, fault, m₂, rfl, hdone, hs, rfl⟩
      exact execute_of_fails hdone hs
  · intro done s m₁ fault m₂ hdone hs
    exact ⟨fun rest => execute_of_fails hdone hs, i.log_failed fault m₂⟩

-- a getter that fails inside a block of a function, and the entry after it
example :
    let source := "class C \x7b g() \x7b \x7b a = 2; -nil; \x7d \x7d \x7d \x7b C().g; \x7d a = 3;"
    let i := ((terminal 20 10).run ("var a = 1; " ++ source) 1).1
    i.machine.current = i.machine.globals ∧ i.log.errors.size = 1
      ∧ (i.run "print a;" 2).1.machine.output = "2\n" := by decide +kernel

end Interpreter

end LoxLang
