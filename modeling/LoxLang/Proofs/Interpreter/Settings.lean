import LoxLang.Proofs.Interpreter.Verdict

/-!
# Settings that do not interfere

Whether accounts of the work are written, whether warnings are, and whether what is written is
coloured decides what a log writes and nothing else.  A log that is muted has said nothing
and is set to say as little as it can; logs are alike if they are the same when muted.  Every
notice that a log takes leaves alike logs alike, and no stage of the work looks at more of a log
than its muted form has.  So two sessions that were started with alike logs go the same
way, entry by entry, for texts with errors and warnings of every kind.

## Main definitions

* `Log.muted`, `Interpreter.muted` — without what is written.
* `Interpreter.Alike` — results that are the same when muted.
* `Interpreter.runs` — what becomes of the entries of a session, one after the other.
* `Observation`, `Interpreter.observe` — what is seen of an entry besides what is written.

## Main results

* `Interpreter.alike_run` — one entry.
* `Interpreter.alike_runs` — all entries of a session.
* `Interpreter.observations_eq` — **the settings do not interfere with a session.**
-/

namespace LoxLang

/-! ### Alike logs -/

namespace Log

/-- A log that has written nothing and is set to write little. -/
def muted (log : Log) : Log :=
  { log with settings := { fatal := log.settings.fatal }, written := "" }

variable {log log' : Log}

@[simp] theorem muted_display (log : Log) (d : Diagnostic) (label : String) (ink : Ink) :
    (log.display d label ink).muted = log.muted := by
  obtain ⟨written, hdisplay⟩ := display_eq log d label ink
  rw [hdisplay]
  rfl

theorem muted_error (log : Log) (d : Diagnostic) :
    (log.error d).muted
      = { log.muted with errors := log.muted.errors.push d, hadError := true } := by
  rw [error, muted_display]
  rfl

theorem muted_warn (log : Log) (d : Diagnostic) :
    (log.warn d).muted = { log.muted with warnings := log.muted.warnings.push d } := by
  unfold warn
  dsimp only
  split
  · rw [muted_display]
    rfl
  · rfl

theorem muted_runtimeError (log : Log) (d : Diagnostic) :
    (log.runtimeError d).muted
      = { log.muted with errors := log.muted.errors.push d, hadRuntimeError := true } := by
  rw [runtimeError, muted_display]
  rfl

@[simp] theorem muted_trace (log : Log) (step detail : String) :
    (log.trace step detail).muted = log.muted := by
  unfold trace
  split <;> rfl

theorem muted_noteFinding (h : log'.muted = log.muted) (finding : Finding) :
    (log'.noteFinding finding).muted = (log.noteFinding finding).muted := by
  cases finding with
  | fault f => rw [noteFinding, noteFinding, muted_error, muted_error, h]
  | unused name token => rw [noteFinding, noteFinding, muted_warn, muted_warn, h]

/-- Notices that leave alike logs alike leave them alike one after the other. -/
theorem muted_foldl {α : Type} {note : Log → α → Log}
    (hnote : ∀ {log log' : Log}, log'.muted = log.muted →
      ∀ a, (note log' a).muted = (note log a).muted)
    (h : log'.muted = log.muted) (as : List α) :
    (as.foldl note log').muted = (as.foldl note log).muted := by
  induction as generalizing log log' with
  | nil => exact h
  | cons a as ih => exact ih (hnote h a)

/-- Errors of reading. -/
theorem muted_foldl_error {α : Type} (diagnostic : α → Diagnostic) (faults : List α)
    (h : log'.muted = log.muted) :
    (faults.foldl (fun log f => log.error (diagnostic f)) log').muted
      = (faults.foldl (fun log f => log.error (diagnostic f)) log).muted := by
  refine muted_foldl (fun hlogs f => ?_) h faults
  rw [muted_error, muted_error, hlogs]

theorem muted_expect (h : log'.muted = log.muted) (path line : String) (number : Int) :
    (log'.clear.registerLine path line number).muted
      = (log.clear.registerLine path line number).muted :=
  congrArg (fun l : Log => l.clear.registerLine path line number) h

theorem hadError_eq_of_muted (h : log'.muted = log.muted) : log'.hadError = log.hadError := by
  have herror := congrArg hadError h
  exact herror

end Log

/-! ### One entry -/

namespace Interpreter

/-- An interpreter whose log is muted. -/
def muted (i : Interpreter) : Interpreter := { i with log := i.log.muted }

/-- Two results of the work of interpreters that are the same when the interpreters are
muted. -/
def Alike {α : Type} (x x' : Interpreter × α) : Prop := x'.1.muted = x.1.muted ∧ x'.2 = x.2

variable {i i' : Interpreter}

/-- Interpreters that are alike differ in their logs only. -/
theorem eq_of_muted (h : i'.muted = i.muted) :
    i' = { i with log := i'.log } ∧ i'.log.muted = i.log.muted := by
  obtain ⟨hlog, hpath, hinteractive, hsource, hmachine, hposition, hlimits⟩ :=
    Interpreter.mk.inj h
  refine ⟨?_, hlog⟩
  rw [← hpath, ← hinteractive, ← hsource, ← hmachine, ← hposition, ← hlimits]

theorem alike_read (h : i'.muted = i.muted) (source : String) (line : Int) :
    Alike (i.read source line) (i'.read source line) := by
  obtain ⟨hi', hlog⟩ := eq_of_muted h
  generalize i'.log = log' at hi' hlog
  subst hi'
  -- the logs that decide whether there is a program
  have hread : ({ i with log := log' }.read source line).1.log.muted
      = (i.read source line).1.log.muted := by
    unfold read
    dsimp only
    rw [Log.muted_trace, Log.muted_trace]
    refine Log.muted_foldl_error _ _ ?_
    rw [Log.muted_trace, Log.muted_trace]
    exact Log.muted_foldl_error _ _ hlog
  refine ⟨?_, ?_⟩
  · exact congrArg (fun l => { (i.read source line).1 with log := l }) hread
  · have herror := Log.hadError_eq_of_muted hread
    unfold read at herror ⊢
    dsimp only at herror ⊢
    rw [herror]

theorem alike_analyze (h : i'.muted = i.muted) (program : Program) :
    Alike (i.analyze program) (i'.analyze program) := by
  obtain ⟨hi', hlog⟩ := eq_of_muted h
  generalize i'.log = log' at hi' hlog
  subst hi'
  have hanalyze : ({ i with log := log' }.analyze program).1.log.muted
      = (i.analyze program).1.log.muted := by
    unfold analyze
    dsimp only
    rw [Log.muted_trace, Log.muted_trace]
    exact Log.muted_foldl Log.muted_noteFinding hlog _
  refine ⟨congrArg (fun l => { (i.analyze program).1 with log := l }) hanalyze, ?_⟩
  have herror := Log.hadError_eq_of_muted hanalyze
  unfold analyze at herror ⊢
  dsimp only at herror ⊢
  rw [herror]

theorem alike_execute (h : i'.muted = i.muted) (program : Program) :
    Alike (i.execute program) (i'.execute program) := by
  obtain ⟨hi', hlog⟩ := eq_of_muted h
  generalize i'.log = log' at hi' hlog
  subst hi'
  unfold execute
  dsimp only
  cases runProgram i.limits program i.machine with
  | ok _ machine => exact ⟨congrArg (fun l => { i with log := l, machine }) hlog, rfl⟩
  | error f machine =>
    cases f with
    | runtime f =>
      refine ⟨?_, rfl⟩
      have hnotice : (log'.runtimeError (.ofRuntimeFault f)).muted
          = (i.log.runtimeError (.ofRuntimeFault f)).muted := by
        rw [Log.muted_runtimeError, Log.muted_runtimeError, hlog]
      exact congrArg (fun l => { i with log := l, machine }) hnotice
    | _ => exact ⟨congrArg (fun l => { i with log := l, machine }) hlog, rfl⟩

/-- The account of a step of the work, before the program is run. -/
theorem muted_interpret (h : i'.muted = i.muted) :
    { i' with log := i'.log.trace "interpret" i'.path }.muted
      = { i with log := i.log.trace "interpret" i.path }.muted := by
  unfold muted at h ⊢
  dsimp only at h ⊢
  rw [Log.muted_trace, Log.muted_trace]
  exact h

theorem alike_process (h : i'.muted = i.muted) (source : String) (line : Int) :
    Alike (i.process source line) (i'.process source line) := by
  unfold process
  have hread := alike_read h source line
  generalize i.read source line = read at hread
  generalize i'.read source line = read' at hread
  obtain ⟨i₁, program?⟩ := read
  obtain ⟨i₁', program?'⟩ := read'
  obtain ⟨h₁, heq⟩ := hread
  dsimp only at h₁ heq
  subst heq
  cases program?' with
  | none => exact ⟨h₁, rfl⟩
  | some program =>
    dsimp only
    have hanalyze := alike_analyze h₁ program
    generalize i₁.analyze program = analyzed at hanalyze
    generalize i₁'.analyze program = analyzed' at hanalyze
    obtain ⟨i₂, outcome⟩ := analyzed
    obtain ⟨i₂', outcome'⟩ := analyzed'
    obtain ⟨h₂, heq⟩ := hanalyze
    dsimp only at h₂ heq
    subst heq
    cases outcome' with
    | finished success =>
      cases success with
      | true => exact alike_execute (muted_interpret h₂) program
      | false => exact ⟨h₂, rfl⟩
    | aborted f => exact ⟨h₂, rfl⟩

theorem expect_muted (h : i'.muted = i.muted) (source : String) (line : Int) :
    (i'.expect source line).muted = (i.expect source line).muted := by
  obtain ⟨hi', hlog⟩ := eq_of_muted h
  generalize i'.log = log' at hi' hlog
  subst hi'
  unfold expect
  dsimp only
  split
  · exact congrArg (fun l => { i with log := l }) (Log.muted_expect hlog i.path source line)
  · exact congrArg (fun l => { i with log := l }) hlog

/-- **An entry is taken in the same way by interpreters that are alike.** -/
theorem alike_run (h : i'.muted = i.muted) (source : String) (line : Int) :
    Alike (i.run source line) (i'.run source line) :=
  alike_process (expect_muted h source line) source line

/-! ### A session -/

/-- What becomes of the entries of a session: the interpreter after each of them, and how the
work on it ended. -/
def runs (i : Interpreter) : List (String × Int) → List (Interpreter × Outcome)
  | [] => []
  | (source, line) :: entries =>
      i.run source line :: (i.run source line).1.runs entries

/-- **The entries of a session are taken in the same way by interpreters that are alike.** -/
theorem alike_runs (h : i'.muted = i.muted) (entries : List (String × Int)) :
    List.Forall₂ Alike (i.runs entries) (i'.runs entries) := by
  induction entries generalizing i i' with
  | nil => exact .nil
  | cons entry entries ih =>
    obtain ⟨source, line⟩ := entry
    have hrun := alike_run h source line
    exact .cons hrun (ih hrun.1)

end Interpreter

/-- What is seen of an entry besides what the log has written. -/
structure Observation where
  /-- How the work ended. -/
  outcome : Outcome
  /-- The machine, with what was printed, the globals and the distances of the locals. -/
  machine : Machine
  /-- The errors that were noticed. -/
  errors : Array Diagnostic
  /-- The warnings that were noticed. -/
  warnings : Array Diagnostic
  /-- The exit code. -/
  exitCode : Int

namespace Interpreter

/-- What is seen of an entry. -/
def observe (x : Interpreter × Outcome) : Observation where
  outcome := x.2
  machine := x.1.machine
  errors := x.1.log.errors
  warnings := x.1.log.warnings
  exitCode := x.1.log.exitCode

theorem Alike.observe_eq {x x' : Interpreter × Outcome} (h : Alike x x') :
    observe x' = observe x := by
  obtain ⟨i, outcome⟩ := x
  obtain ⟨i', outcome'⟩ := x'
  obtain ⟨hmuted, houtcome⟩ := h
  dsimp only at hmuted houtcome
  subst houtcome
  -- nothing that is seen is lost when an interpreter is muted
  have hseen := congrArg (fun i : Interpreter => observe (i, outcome')) hmuted
  exact hseen

theorem map_observe_eq {xs xs' : List (Interpreter × Outcome)} (h : List.Forall₂ Alike xs xs') :
    xs'.map observe = xs.map observe := by
  induction h with
  | nil => rfl
  | cons hrun _ ih => rw [List.map_cons, List.map_cons, hrun.observe_eq, ih]

/-- Interpreters that are started with alike logs are alike. -/
theorem start_muted {log log' : Log} (h : log'.muted = log.muted) (path : String)
    (interactive : Bool) (contents? : String → Option (List UInt8)) (clock : Clock) :
    (start log' path interactive contents? clock).2.map muted
      = (start log path interactive contents? clock).2.map muted := by
  have hstart : (if interactive then { log' with settings := { log'.settings with fatal := false } }
        else log').muted
      = (if interactive then { log with settings := { log.settings with fatal := false } }
        else log).muted := by
    cases interactive with
    | false => exact h
    | true => exact congrArg (fun l : Log => { l with settings := { fatal := false } }) h
  unfold start
  dsimp only
  generalize (if interactive then _ else log' : Log) = log₁' at hstart
  generalize (if interactive then _ else log : Log) = log₁ at hstart
  by_cases hpath : path = entryPath
  · rw [if_pos hpath, if_pos hpath]
    cases interactive with
    | false => rfl
    | true =>
      refine congrArg Except.ok ?_
      exact congrArg (fun l => ({ log := l, path, machine := .initial clock } : Interpreter)) hstart
  · rw [if_neg hpath, if_neg hpath]
    cases openFile contents? path with
    | error i => rfl
    | ok source =>
      refine congrArg Except.ok ?_
      exact congrArg (fun l : Log =>
        ({ log := l.registerFile path source, path, interactive, source := some source,
           machine := .initial clock } : Interpreter)) hstart

/-- What is seen, entry by entry, of a session at a terminal; or why it does not start. -/
def observations (log : Log) (path : String) (contents? : String → Option (List UInt8))
    (clock : Clock) (limits : Limits) (entries : List (String × Int)) :
    Except Interruption (List Observation) :=
  (start log path true contents? clock).2.map fun i =>
    ({ i with limits }.runs entries).map observe

/-- **The settings of a log do not interfere with a session.**  Whether accounts of the work and
warnings are written, whether in colours, and what was written before make no difference to what
else is seen of any entry. -/
theorem observations_eq (log : Log) (verbose showWarnings coloured : Bool) (written : String)
    (path : String) (contents? : String → Option (List UInt8)) (clock : Clock) (limits : Limits)
    (entries : List (String × Int)) :
    observations
        { log with
          settings := { log.settings with verbose, showWarnings, coloured }
          written }
        path contents? clock limits entries
      = observations log path contents? clock limits entries := by
  have hlogs : { log with
      settings := { log.settings with verbose, showWarnings, coloured }
      written }.muted = log.muted := rfl
  have hstart := start_muted hlogs path true contents? clock
  unfold observations
  generalize (start _ path true contents? clock).2 = started' at hstart
  generalize (start log path true contents? clock).2 = started at hstart
  cases started' with
  | error f' =>
    cases started with
    | error f => exact congrArg Except.error (Except.error.inj hstart)
    | ok i => cases hstart
  | ok i' =>
    cases started with
    | error f => cases hstart
    | ok i =>
      have hmuted : { i' with limits }.muted = { i with limits }.muted :=
        congrArg (fun i : Interpreter => { i with limits }) (Except.ok.inj hstart)
      exact congrArg Except.ok (map_observe_eq (alike_runs hmuted entries))

end Interpreter

end LoxLang
