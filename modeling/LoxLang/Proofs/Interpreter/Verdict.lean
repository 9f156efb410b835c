import LoxLang.Proofs.Interpreter.Session

/-!
# Verdicts

What the log says after an entry of a terminal, and how it follows from the text.  The
errors of reading come first; if there are any, the text is not analyzed.  The errors of
the analysis come next; if there are any, the program is not run.  Last comes what the
program did wrong.  So an entry is clean, or it is rejected for errors of one kind, or it
fails with one error of another kind.

A warning is not an error.  It does not decide between these cases, and it may come with
each of them.

## Main definitions

* `Log.Reports` — what a log has been told.
* `Run.syntaxErrors`, `Run.scopeErrors`, `Run.warnings`, `Run.runtimeErrors` — what there
  is to say about a text.
* `Verdict`, `Verdict.Holds`, `Run.verdict` — the cases, what each of them means, and which
  one it is.

## Main results

* `Run.reports` — the log says what there is to say about a text.
* `Interpreter.run_verdict` — **after an entry exactly one of the cases holds.**
-/

namespace LoxLang

/-! ### What a log has been told -/

namespace Log

/-- Since it was cleared, a log has been told of errors that keep a program from running, of
warnings, and of errors of a running program. -/
structure Reports (log : Log) (static warnings runtime : List Diagnostic) : Prop where
  errors_eq : log.errors.toList = static ++ runtime
  warnings_eq : log.warnings.toList = warnings
  hadError_eq : log.hadError = !static.isEmpty
  hadRuntimeError_eq : log.hadRuntimeError = !runtime.isEmpty

/-- Displaying a diagnostic only writes. -/
theorem display_eq (log : Log) (d : Diagnostic) (label : String) (ink : Ink) :
    ∃ written, log.display d label ink = { log with written } := by
  unfold display
  dsimp only
  split
  · split <;> exact ⟨_, rfl⟩
  · exact ⟨_, rfl⟩

/-- The error of a finding, if it is one. -/
def errorOfFinding? : Finding → Option Diagnostic
  | .fault f => some (.ofScopeFault f)
  | .unused _ _ => none

/-- The warning of a finding, if it is one. -/
def warningOfFinding? : Finding → Option Diagnostic
  | .fault _ => none
  | .unused name token => some (.ofUnused name token)

namespace Reports

variable {log : Log} {static warnings runtime : List Diagnostic}

theorem error (h : log.Reports static warnings []) (d : Diagnostic) :
    (log.error d).Reports (static ++ [d]) warnings [] := by
  obtain ⟨written, hdisplay⟩ :=
    display_eq { log with errors := log.errors.push d, hadError := true } d "error" .red
  rw [Log.error, hdisplay]
  refine ⟨?_, h.warnings_eq, by simp, h.hadRuntimeError_eq⟩
  simp [h.errors_eq]

theorem warn (h : log.Reports static warnings runtime) (d : Diagnostic) :
    (log.warn d).Reports static (warnings ++ [d]) runtime := by
  have hwarned : { log with warnings := log.warnings.push d }.Reports static (warnings ++ [d])
      runtime := ⟨h.errors_eq, by simp [h.warnings_eq], h.hadError_eq, h.hadRuntimeError_eq⟩
  unfold Log.warn
  dsimp only
  split
  · obtain ⟨written, hdisplay⟩ :=
      display_eq { log with warnings := log.warnings.push d } d "warning" .magenta
    rw [hdisplay]
    exact ⟨hwarned.errors_eq, hwarned.warnings_eq, hwarned.hadError_eq,
      hwarned.hadRuntimeError_eq⟩
  · exact hwarned

theorem runtimeError (h : log.Reports static warnings runtime) (d : Diagnostic) :
    (log.runtimeError d).Reports static warnings (runtime ++ [d]) := by
  obtain ⟨written, hdisplay⟩ := display_eq
    { log with errors := log.errors.push d, hadRuntimeError := true } d "runtime error" .red
  rw [Log.runtimeError, hdisplay]
  refine ⟨?_, h.warnings_eq, h.hadError_eq, by simp⟩
  simp [h.errors_eq]

theorem trace (h : log.Reports static warnings runtime) (step detail : String) :
    (log.trace step detail).Reports static warnings runtime := by
  unfold Log.trace
  split
  · exact ⟨h.errors_eq, h.warnings_eq, h.hadError_eq, h.hadRuntimeError_eq⟩
  · exact h

/-- Errors that are noticed one after the other. -/
theorem foldl_error {α : Type} (diagnostic : α → Diagnostic) (faults : List α)
    (h : log.Reports static warnings []) :
    (faults.foldl (fun log f => log.error (diagnostic f)) log).Reports
      (static ++ faults.map diagnostic) warnings [] := by
  induction faults generalizing log static with
  | nil => simpa using h
  | cons f faults ih => simpa using ih (h.error (diagnostic f))

theorem noteLexFaults (h : log.Reports static warnings []) (faults : List LexFault) :
    (log.noteLexFaults faults).Reports (static ++ faults.map .ofLexFault) warnings [] :=
  foldl_error .ofLexFault faults h

theorem noteSyntaxFaults (h : log.Reports static warnings []) (faults : List SyntaxFault) :
    (log.noteSyntaxFaults faults).Reports (static ++ faults.map .ofSyntaxFault) warnings [] :=
  foldl_error .ofSyntaxFault faults h

theorem noteFindings (h : log.Reports static warnings []) (findings : List Finding) :
    (log.noteFindings findings).Reports (static ++ findings.filterMap errorOfFinding?)
      (warnings ++ findings.filterMap warningOfFinding?) [] := by
  induction findings generalizing log static warnings with
  | nil =>
    rw [List.filterMap_nil, List.filterMap_nil, List.append_nil, List.append_nil]
    exact h
  | cons finding findings ih =>
    cases finding with
    | fault f =>
      have hrest := ih (h.error (.ofScopeFault f))
      rw [List.append_assoc] at hrest
      exact hrest
    | unused name token =>
      have hrest := ih (h.warn (.ofUnused name token))
      rw [List.append_assoc warnings] at hrest
      exact hrest

/-- Preparing for an entry clears the log. -/
theorem expect {i : Interpreter} (hinteractive : i.interactive = true) (source : String)
    (line : Int) : (i.expect source line).log.Reports [] [] [] := by
  unfold Interpreter.expect
  rw [if_pos hinteractive]
  exact ⟨rfl, rfl, rfl, rfl⟩

/-- The exit code says which kind of error there was. -/
theorem exitCode_eq (h : log.Reports static warnings runtime) :
    log.exitCode = if static ≠ [] then 65 else if runtime ≠ [] then 70 else 0 := by
  unfold Log.exitCode
  rw [h.hadError_eq, h.hadRuntimeError_eq]
  cases static <;> cases runtime <;> rfl

end Reports

end Log

/-! ### What there is to say about a text -/

namespace Run

/-- The errors of reading a text. -/
def syntaxErrors (r : Run) : List Diagnostic :=
  let lexed := Lexed.ofText r.source r.line r.before.nextPosition
  lexed.faults.map .ofLexFault
    ++ (Program.ofTokens lexed.tokens lexed.final).faults.map .ofSyntaxFault

/-- The findings of the analysis of a text that is read without error. -/
def findings (r : Run) : List Finding :=
  r.program?.elim [] fun program =>
    (Analysis.ofProgram program r.before.machine.distances).findings.toList

/-- The errors of the analysis of a text. -/
def scopeErrors (r : Run) : List Diagnostic := r.findings.filterMap Log.errorOfFinding?

/-- The warnings about a text. -/
def warnings (r : Run) : List Diagnostic := r.findings.filterMap Log.warningOfFinding?

/-- The errors that keep a text from being run. -/
def staticErrors (r : Run) : List Diagnostic := r.syntaxErrors ++ r.scopeErrors

/-- What the program of a text did wrong. -/
def runtimeErrors (r : Run) : List Diagnostic :=
  match r.fault? with
  | some (.runtime f) => [.ofRuntimeFault f]
  | _ => []

variable {r : Run}

theorem reports_read (h : r.before.log.Reports [] [] []) :
    r.read.log.Reports r.syntaxErrors [] [] :=
  (((h.noteLexFaults _).trace _ _).noteSyntaxFaults _).trace _ _

/-- There is a program unless there is an error. -/
theorem program?_eq_none (h : r.before.log.Reports [] [] []) :
    r.program? = none ↔ r.syntaxErrors ≠ [] := by
  have hread := (reports_read h).hadError_eq
  have hprogram : r.program?.isNone = r.read.log.hadError := by
    unfold program? read Interpreter.read
    dsimp only
    split <;> simp_all
  rw [← Option.isNone_iff_eq_none, hprogram, hread]
  cases r.syntaxErrors <;> simp

/-- An interpreter that has analyzed the program of a text. -/
theorem reports_analyze (h : r.before.log.Reports [] [] []) {program : Program}
    (hprogram : r.program? = some program) :
    (r.read.analyze program).1.log.Reports r.staticErrors r.warnings [] := by
  have hreading : r.syntaxErrors = [] := by
    by_contra hne
    rw [(program?_eq_none h).mpr hne] at hprogram
    cases hprogram
  have hfindings : r.findings
      = (Analysis.ofProgram program r.read.machine.distances).findings.toList := by
    rw [findings, hprogram]
    rfl
  have hread := reports_read h
  rw [hreading] at hread
  rw [staticErrors, hreading, scopeErrors, warnings, hfindings]
  exact (hread.noteFindings _).trace _ _

/-- What the log says after a text, how the work on it ended, and what became of the
machine if the program was not run. -/
theorem reports (h : r.before.log.Reports [] [] []) :
    r.result.1.log.Reports r.staticErrors r.warnings r.runtimeErrors
      ∧ (r.staticErrors ≠ [] → r.result.2 = .finished false ∧ r.fault? = none
        ∧ r.result.1.machine
          = { r.before.machine with distances := r.result.1.machine.distances })
      ∧ (r.staticErrors = [] → r.result.2 = match r.fault? with
        | none => .finished true
        | some (.runtime _) => .finished false
        | some f => .aborted f) := by
  have hread : r.before.read r.source r.line = (r.read, r.program?) := rfl
  cases hprogram : r.program? with
  | none =>
    -- the text is not analyzed
    rw [hprogram] at hread
    have hfindings : r.findings = [] := by rw [findings, hprogram]; rfl
    have hfault : r.fault? = none := by rw [fault?, hread]
    have hresult : r.result = (r.read, .finished false) := by
      rw [result, Interpreter.process, hread]
    have hreading := (program?_eq_none h).mp hprogram
    rw [hresult, staticErrors, scopeErrors, warnings, runtimeErrors, hfault, hfindings,
      List.filterMap_nil, List.append_nil]
    exact ⟨reports_read h, fun _ => ⟨rfl, rfl, rfl⟩, fun hnil => absurd hnil hreading⟩
  | some program =>
    rw [hprogram] at hread
    have hanalyzed := reports_analyze h hprogram
    have hanalyze : r.read.analyze program
        = ((r.read.analyze program).1, .finished (!(r.read.analyze program).1.log.hadError)) := by
      rw [← (Interpreter.analyze_outcome r.read program).1]
    rw [hanalyzed.hadError_eq, Bool.not_not] at hanalyze
    have hmachine : (r.read.analyze program).1.machine
        = { r.before.machine with distances := (r.read.analyze program).1.machine.distances } := rfl
    generalize (r.read.analyze program).1 = analyzed at hanalyze hanalyzed hmachine
    by_cases hstatic : r.staticErrors = []
    · -- the program is run
      rw [hstatic, List.isEmpty_nil] at hanalyze
      rw [hstatic] at hanalyzed ⊢
      have htrace := hanalyzed.trace "interpret" analyzed.path
      refine ⟨?_, fun hne => absurd rfl hne, fun _ => ?_⟩
      · rw [runtimeErrors]
        cases hrun : runProgram analyzed.limits program analyzed.machine with
        | ok _ m =>
          simp only [result, Interpreter.process, Interpreter.execute, fault?, hread, hanalyze,
            hrun]
          exact htrace
        | error f m =>
          cases f with
          | runtime f =>
            simp only [result, Interpreter.process, Interpreter.execute, fault?, hread, hanalyze,
              hrun]
            exact htrace.runtimeError (.ofRuntimeFault f)
          | _ =>
            simp only [result, Interpreter.process, Interpreter.execute, fault?, hread, hanalyze,
              hrun]
            exact htrace
      · cases hrun : runProgram analyzed.limits program analyzed.machine with
        | ok _ m =>
          simp only [result, Interpreter.process, Interpreter.execute, fault?, hread, hanalyze,
            hrun]
        | error f m =>
          cases f <;> simp only [result, Interpreter.process, Interpreter.execute, fault?, hread,
            hanalyze, hrun]
    · -- the program is not run
      rw [List.isEmpty_eq_false_iff.mpr hstatic] at hanalyze
      have hresult : r.result = (analyzed, .finished false) := by
        simp only [result, Interpreter.process, hread, hanalyze]
      have hfault : r.fault? = none := by simp only [fault?, hread, hanalyze]
      rw [hresult, runtimeErrors, hfault]
      exact ⟨hanalyzed, fun _ => ⟨rfl, rfl, hmachine⟩, fun hnil => absurd hnil hstatic⟩

/-! #### Kinds of errors -/

theorem kind_syntaxErrors (r : Run) : ∀ d ∈ r.syntaxErrors, d.kind = .syntactic := by
  intro d hd
  rcases List.mem_append.mp hd with hd | hd
  · obtain ⟨f, -, rfl⟩ := List.mem_map.mp hd
    rfl
  · obtain ⟨f, -, rfl⟩ := List.mem_map.mp hd
    rfl

theorem kind_scopeErrors (r : Run) : ∀ d ∈ r.scopeErrors, d.kind = .scoping := by
  intro d hd
  obtain ⟨finding, -, hfinding⟩ := List.mem_filterMap.mp hd
  cases finding with
  | fault f =>
    cases hfinding
    rfl
  | unused name token => cases hfinding

/-- The errors that keep a text from being run are of one kind. -/
theorem kind_staticErrors (h : r.before.log.Reports [] [] []) :
    (∀ d ∈ r.staticErrors, d.kind = .syntactic) ∨ ∀ d ∈ r.staticErrors, d.kind = .scoping := by
  rw [staticErrors]
  by_cases hreading : r.syntaxErrors = []
  · rw [hreading]
    exact .inr r.kind_scopeErrors
  · have hscope : r.scopeErrors = [] := by
      rw [scopeErrors, findings, (program?_eq_none h).mpr hreading]
      rfl
    rw [hscope, List.append_nil]
    exact .inl r.kind_syntaxErrors

end Run

/-! ### Verdicts -/

/-- How an entry turns out. -/
inductive Verdict where
  /-- It was run to its end. -/
  | clean
  /-- It was not run. -/
  | rejected
  /-- It was run until something went wrong. -/
  | failed
  deriving DecidableEq, Repr

/-- What a verdict means for an interpreter before and after an entry. -/
def Verdict.Holds (before after : Interpreter) (success : Bool) : Verdict → Prop
  | .clean => success = true ∧ after.log.errors = #[] ∧ after.log.exitCode = 0
  | .rejected =>
      success = false ∧ after.log.hadError = true ∧ after.log.hadRuntimeError = false
        ∧ ((∀ d ∈ after.log.errors, d.kind = .syntactic)
          ∨ ∀ d ∈ after.log.errors, d.kind = .scoping)
        ∧ after.log.exitCode = 65
        ∧ after.machine = { before.machine with distances := after.machine.distances }
  | .failed =>
      success = false ∧ (∃ d, after.log.errors = #[d] ∧ d.kind = .runtime)
        ∧ after.log.hadError = false ∧ after.log.exitCode = 70

/-- The verdict on a text.  Warnings play no part in it. -/
def Run.verdict (r : Run) : Verdict :=
  if r.staticErrors ≠ [] then .rejected else if r.runtimeErrors ≠ [] then .failed else .clean

/-- The exit code of a verdict. -/
def Verdict.exitCode : Verdict → Int
  | .clean => 0
  | .rejected => Log.staticErrorCode
  | .failed => Log.runtimeErrorCode

theorem Verdict.Holds.exitCode_eq {before after : Interpreter} {success : Bool} {v : Verdict}
    (h : v.Holds before after success) : after.log.exitCode = v.exitCode := by
  cases v with
  | clean => exact h.2.2
  | rejected => exact h.2.2.2.2.1
  | failed => exact h.2.2.2

/-- No two verdicts hold together. -/
theorem Verdict.Holds.unique {before after : Interpreter} {success : Bool} {v v' : Verdict}
    (h : v.Holds before after success) (h' : v'.Holds before after success) : v = v' := by
  have hcode := h.exitCode_eq.symm.trans h'.exitCode_eq
  revert hcode
  cases v <;> cases v' <;> decide

/-- The verdict on a text holds. -/
theorem Run.verdict_holds {r : Run} {success : Bool} (h : r.before.log.Reports [] [] [])
    (hsuccess : r.result.2 = .finished success) :
    r.verdict.Holds r.before r.result.1 success := by
  obtain ⟨hlog, hrejected, hrun⟩ := Run.reports h
  have hcode := hlog.exitCode_eq
  have herrors := hlog.errors_eq
  unfold Run.verdict
  by_cases hstatic : r.staticErrors = []
  · rw [hstatic] at hcode herrors
    have herror : r.result.1.log.hadError = false := by rw [hlog.hadError_eq, hstatic]; rfl
    rw [if_neg (not_not_intro hstatic)]
    rw [hrun hstatic] at hsuccess
    unfold Run.runtimeErrors at hcode herrors ⊢
    cases hfault : r.fault? with
    | none =>
      rw [hfault] at hsuccess hcode herrors
      cases hsuccess
      exact ⟨rfl, Array.toList_inj.mp herrors, hcode⟩
    | some f =>
      rw [hfault] at hsuccess hcode herrors
      cases f with
      | runtime f =>
        cases hsuccess
        exact ⟨rfl, ⟨.ofRuntimeFault f, Array.toList_inj.mp herrors, rfl⟩, herror, hcode⟩
      | _ => cases hsuccess
  · obtain ⟨houtcome, hfault, hmachine⟩ := hrejected hstatic
    have hruntime : r.runtimeErrors = [] := by rw [Run.runtimeErrors, hfault]
    rw [hruntime, List.append_nil] at herrors
    rw [if_pos hstatic] at hcode ⊢
    rw [houtcome] at hsuccess
    cases hsuccess
    refine ⟨rfl, ?_, ?_, ?_, hcode, hmachine⟩
    · rw [hlog.hadError_eq, List.isEmpty_eq_false_iff.mpr hstatic]
      rfl
    · rw [hlog.hadRuntimeError_eq, hruntime]
      rfl
    · have hkinds := Run.kind_staticErrors h
      simp only [← herrors, Array.mem_toList_iff] at hkinds
      exact hkinds

/-- Every verdict occurs together with a warning. -/
theorem Verdict.exists_warned (v : Verdict) :
    ∃ source success, let r := (Interpreter.terminal 9 1).entry source 1
      r.result.2 = .finished success ∧ r.verdict = v ∧ r.warnings ≠ [] := by
  cases v with
  | clean => exact ⟨"{ var a = 1; }", true, by decide +kernel⟩
  | rejected => exact ⟨"{ var a = 1; } return;", false, by decide +kernel⟩
  | failed => exact ⟨"{ var a = 1; } -nil;", false, by decide +kernel⟩

/-- After an entry that is taken to its end exactly one of the verdicts holds: the one that
is read off the errors of the text.  The warnings that were given are those of the analysis;
they decide nothing, and they occur with every verdict. -/
theorem Interpreter.run_verdict {i : Interpreter} (hinteractive : i.interactive = true)
    {source : String} {line : Int} {success : Bool}
    (hrun : (i.run source line).2 = .finished success) :
    (∀ v : Verdict, v.Holds i (i.run source line).1 success ↔ v = (i.entry source line).verdict)
      ∧ (i.run source line).1.log.warnings.toList = (i.entry source line).warnings
      ∧ ∀ v : Verdict, ∃ source' success',
        let r := (Interpreter.terminal 9 1).entry source' 1
        r.result.2 = .finished success' ∧ r.verdict = v ∧ r.warnings ≠ [] := by
  have hclear := Log.Reports.expect hinteractive source line
  have hbefore : (i.entry source line).before.machine = i.machine :=
    (Interpreter.Takes.entry source line).before_eq.1
  have hholds : (i.entry source line).verdict.Holds i (i.run source line).1 success := by
    have h := Run.verdict_holds (r := i.entry source line) hclear hrun
    unfold Verdict.Holds at h ⊢
    rw [hbefore] at h
    exact h
  refine ⟨fun v => ⟨fun h => h.unique hholds, ?_⟩, ?_, Verdict.exists_warned⟩
  · rintro rfl
    exact hholds
  · exact (Run.reports (r := i.entry source line) hclear).1.warnings_eq

/-- An entry that prints, gets a warning and fails, on a terminal with an earlier entry. -/
theorem Interpreter.run_verdict_failed_later :
    let i := ((terminal 30 1).run "fun f(x) { { var y = x; } print 1; return -x; }" 1).1
    (i.run "{ var z; } f(nil);" 2).2 = .finished false
      ∧ ∀ v : Verdict, v.Holds i (i.run "{ var z; } f(nil);" 2).1 false ↔ v = .failed := by
  intro i
  have hrun : (i.run "{ var z; } f(nil);" 2).2 = .finished false := by decide +kernel
  have hverdict : (i.entry "{ var z; } f(nil);" 2).verdict = .failed := by decide +kernel
  have hinteractive : i.interactive = true := by decide +kernel
  obtain ⟨hholds, -⟩ := i.run_verdict hinteractive hrun
  rw [hverdict] at hholds
  exact ⟨hrun, hholds⟩

end LoxLang
