import LoxLang.Proofs.Interpreter.Verdict
import LoxLang.Proofs.Scope.Repetition

/-!
# Programs that are analyzed again

An interpreter may analyze a program any number of times before it runs it.  Each time the log
is told the same, and from the second time on nothing is recorded that was not recorded before;
so the program runs as it does when it is analyzed once.

## Main definitions

* `Log.Adds` — what a log is told between two moments.
* `Interpreter.analyzed` — the interpreter after an analysis.

## Main results

* `Interpreter.iterate_analyzed` — an interpreter after any number of analyses.
* `Interpreter.analysis_repeatable` — **the analysis is balanced and may be repeated.**
-/

namespace LoxLang

/-! ### What a log is told -/

namespace Log

/-- Between two moments a log is told of some errors and some warnings. -/
structure Adds (errors warnings : List Diagnostic) (log log' : Log) : Prop where
  errors_eq : log'.errors.toList = log.errors.toList ++ errors
  warnings_eq : log'.warnings.toList = log.warnings.toList ++ warnings

namespace Adds

variable {log log' log'' : Log} {es es' ws ws' : List Diagnostic}

theorem refl (log : Log) : Adds [] [] log log :=
  ⟨(List.append_nil _).symm, (List.append_nil _).symm⟩

theorem trans (h : Adds es ws log log') (h' : Adds es' ws' log' log'') :
    Adds (es ++ es') (ws ++ ws') log log'' :=
  ⟨by rw [h'.errors_eq, h.errors_eq, List.append_assoc],
    by rw [h'.warnings_eq, h.warnings_eq, List.append_assoc]⟩

theorem error (log : Log) (d : Diagnostic) : Adds [d] [] log (log.error d) := by
  obtain ⟨written, hdisplay⟩ :=
    display_eq { log with errors := log.errors.push d, hadError := true } d "error" .red
  rw [Log.error, hdisplay]
  exact ⟨Array.toList_push, (List.append_nil _).symm⟩

theorem warn (log : Log) (d : Diagnostic) : Adds [] [d] log (log.warn d) := by
  unfold Log.warn
  dsimp only
  split
  · obtain ⟨written, hdisplay⟩ :=
      display_eq { log with warnings := log.warnings.push d } d "warning" .magenta
    rw [hdisplay]
    exact ⟨(List.append_nil _).symm, Array.toList_push⟩
  · exact ⟨(List.append_nil _).symm, Array.toList_push⟩

theorem runtimeError (log : Log) (d : Diagnostic) : Adds [d] [] log (log.runtimeError d) := by
  obtain ⟨written, hdisplay⟩ := display_eq
    { log with errors := log.errors.push d, hadRuntimeError := true } d "runtime error" .red
  rw [Log.runtimeError, hdisplay]
  exact ⟨Array.toList_push, (List.append_nil _).symm⟩

theorem trace (log : Log) (step detail : String) : Adds [] [] log (log.trace step detail) := by
  unfold Log.trace
  split
  · exact ⟨(List.append_nil _).symm, (List.append_nil _).symm⟩
  · exact refl log

theorem noteFindings (log : Log) (findings : List Finding) :
    Adds (findings.filterMap errorOfFinding?) (findings.filterMap warningOfFinding?) log
      (log.noteFindings findings) := by
  induction findings generalizing log with
  | nil => exact refl log
  | cons finding findings ih =>
    cases finding with
    | fault f => exact (error log (.ofScopeFault f)).trans (ih _)
    | unused name token => exact (warn log (.ofUnused name token)).trans (ih _)

end Adds

end Log

/-! ### Analyses of an interpreter -/

namespace Interpreter

/-- The interpreter after the analysis of a program. -/
def analyzed (program : Program) (i : Interpreter) : Interpreter := (i.analyze program).1

/-- The findings of the analysis of a program, whatever distances are known. -/
theorem findings_ofProgram_eq (program : Program) (known known' : Distances) :
    (Analysis.ofProgram program known').findings = (Analysis.ofProgram program known).findings := by
  obtain ⟨_, halike⟩ : (Analysis.ofProgram program known).Alike
    (Analysis.ofProgram program known') := alike_stmts program ⟨known', rfl⟩
  rw [halike]

/-- A new analysis records what the one before it recorded. -/
theorem distances_ofProgram_again (program : Program) (known : Distances) :
    (Analysis.ofProgram program (Analysis.ofProgram program known).distances).distances
      = (Analysis.ofProgram program known).distances := by
  obtain ⟨fs, vs, hwalk⟩ := analyzeStmts_top program
    (show (Analysis.mk [] false .outside 0 known #[] #[] false).scopes = [] from rfl)
  have hdistances : ∀ known, (Analysis.ofProgram program known).distances
      = known.record vs.toList := fun known =>
    congrArg Analysis.distances (hwalk known #[] #[])
  rw [hdistances, hdistances, Distances.record_record]

/-- What the log is told by an analysis does not depend on the interpreter. -/
theorem adds_analyzed (program : Program) (known : Distances) (i : Interpreter) :
    let findings := (Analysis.ofProgram program known).findings.toList
    Log.Adds (findings.filterMap Log.errorOfFinding?) (findings.filterMap Log.warningOfFinding?)
      i.log (i.analyzed program).log := by
  intro findings
  have hfindings := findings_ofProgram_eq program known i.machine.distances
  have hadds := (Log.Adds.noteFindings i.log findings).trans (.trace _ "resolve" (toString
    ((Analysis.ofProgram program i.machine.distances).distances.size - i.machine.distances.size)
      ++ " new local references"))
  rw [List.append_nil, List.append_nil] at hadds
  unfold analyzed analyze
  dsimp only
  rw [hfindings]
  exact hadds

/-- An analysis leaves an error in the log if there was one or if it finds one. -/
theorem hadError_analyzed (program : Program) (known : Distances) (i : Interpreter) :
    (i.analyzed program).log.hadError = false
      ↔ i.log.hadError = false ∧ (Analysis.ofProgram program known).Clean := by
  unfold analyzed analyze
  rw [Log.hadError_trace, Log.hadError_noteFindings_eq_false,
    findings_ofProgram_eq program known i.machine.distances]
  rfl

/-- After the first analysis of a program only the log goes on to change. -/
theorem iterate_analyzed (program : Program) (i : Interpreter) (n : Nat) :
    ∃ log, (analyzed program)^[n + 1] i = { i.analyzed program with log } := by
  induction n with
  | zero => exact ⟨(i.analyzed program).log, rfl⟩
  | succ n ih =>
    obtain ⟨log, heq⟩ := ih
    refine ⟨({ i.analyzed program with log }.analyzed program).log, ?_⟩
    rw [Function.iterate_succ_apply', heq]
    unfold analyzed analyze
    dsimp only
    rw [distances_ofProgram_again]

/-- The log is told the same by each analysis. -/
theorem adds_iterate_analyzed (program : Program) (i : Interpreter) (n : Nat) :
    let findings := (Analysis.ofProgram program i.machine.distances).findings.toList
    Log.Adds (List.replicate n (findings.filterMap Log.errorOfFinding?)).flatten
      (List.replicate n (findings.filterMap Log.warningOfFinding?)).flatten i.log
      ((analyzed program)^[n] i).log := by
  intro findings
  induction n with
  | zero => exact .refl i.log
  | succ n ih =>
    rw [Function.iterate_succ_apply', List.replicate_succ', List.replicate_succ',
      List.flatten_concat, List.flatten_concat]
    exact ih.trans (adds_analyzed program i.machine.distances _)

theorem hadError_iterate_analyzed (program : Program) (i : Interpreter) (n : Nat) :
    ((analyzed program)^[n + 1] i).log.hadError = (i.analyzed program).log.hadError := by
  induction n with
  | zero => rfl
  | succ n ih =>
    have hagain := hadError_analyzed program i.machine.distances ((analyzed program)^[n + 1] i)
    have honce := hadError_analyzed program i.machine.distances i
    rw [ih, honce] at hagain
    rw [Function.iterate_succ_apply', Bool.eq_iff_iff, ← not_iff_not, Bool.not_eq_true,
      Bool.not_eq_true, hagain, honce]
    exact and_iff_left_of_imp And.right

/-- Running a program depends on the log of the interpreter in nothing but what the log was told
before. -/
theorem execute_with_log (program : Program) (i : Interpreter) (log : Log) :
    ({ i with log }.execute program).2 = (i.execute program).2
      ∧ ({ i with log }.execute program).1.machine = (i.execute program).1.machine
      ∧ ∃ es, Log.Adds es [] i.log (i.execute program).1.log
        ∧ Log.Adds es [] log ({ i with log }.execute program).1.log := by
  unfold execute
  dsimp only
  cases runProgram i.limits program i.machine with
  | ok _ m => exact ⟨rfl, rfl, [], .refl _, .refl _⟩
  | error f m =>
    cases f with
    | runtime f =>
      exact ⟨rfl, rfl, [.ofRuntimeFault f], .runtimeError i.log _, .runtimeError log _⟩
    | _ => exact ⟨rfl, rfl, [], .refl _, .refl _⟩

/-- **The analysis is balanced and may be repeated.**  The walk over an expression or a statement
leaves everything as it was, from any state and whether or not it finds faults, except that a
statement adds to the innermost scope what it declares, which is its own name if it was read
from tokens.  So another walk over the same program, by the same analysis or a new one, records
nothing else and finds the same in the same order.  And an interpreter that analyzes a program
any number of times, at least once, succeeds with it or not each time and runs it as if it had
analyzed it once. -/
theorem analysis_repeatable (program : Program) (i : Interpreter) :
    (∀ e (a : Analysis), a.Restores [] (analyzeExpr e a))
      ∧ (∀ s (a : Analysis), a.Restores s.declared (analyzeStmt s a))
      ∧ (∀ n r s r', readDeclaration n r = .ok (some s) r' → s.declared = s.ownName?.toList)
      ∧ (∀ known n,
        let once := Analysis.ofProgram program known
        ((analyzeStmts program)^[n + 1] { distances := known }).distances = once.distances
          ∧ ((analyzeStmts program)^[n] { distances := known }).findings.toList
            = (List.replicate n once.findings.toList).flatten
          ∧ (Analysis.ofProgram program once.distances).distances = once.distances
          ∧ (Analysis.ofProgram program once.distances).findings = once.findings)
      ∧ ∀ n,
        let findings := (Analysis.ofProgram program i.machine.distances).findings.toList
        let once := i.analyzed program
        let often := (analyzed program)^[n + 1] i
        Log.Adds (List.replicate (n + 1) (findings.filterMap Log.errorOfFinding?)).flatten
            (List.replicate (n + 1) (findings.filterMap Log.warningOfFinding?)).flatten
            i.log often.log
          ∧ (often.analyze program).2 = (i.analyze program).2
          ∧ often.machine = once.machine
          ∧ (often.execute program).2 = (once.execute program).2
          ∧ (often.execute program).1.machine = (once.execute program).1.machine
          ∧ ∃ es, Log.Adds es [] once.log (once.execute program).1.log
            ∧ Log.Adds es [] often.log (often.execute program).1.log := by
  refine ⟨restores_expr, restores_stmt, fun n r s r' h => Gives.declaration n r _ r' h s rfl,
    fun known n => ?_, fun n => ?_⟩
  · obtain ⟨fs, hwalks⟩ := iterate_analyzeStmts program
      (show (Analysis.mk [] false .outside 0 known #[] #[] false).scopes = [] from rfl)
    have honce : (analyzeStmts program { distances := known }).findings.toList = fs := by
      simpa using (hwalks 1).2
    have hfs : (Analysis.ofProgram program known).findings.toList = fs := honce
    dsimp only
    rw [hfs]
    exact ⟨(hwalks n).1, (hwalks n).2, distances_ofProgram_again program known,
      findings_ofProgram_eq program _ _⟩
  · have houtcome : (((analyzed program)^[n + 1] i).analyze program).2 = (i.analyze program).2 := by
      rw [(analyze_outcome _ program).1, (analyze_outcome i program).1]
      have hagain := hadError_iterate_analyzed program i (n + 1)
      rw [Function.iterate_succ_apply'] at hagain
      exact congrArg (fun b => Outcome.finished (!b)) hagain
    obtain ⟨log, heq⟩ := iterate_analyzed program i n
    obtain ⟨hend, hmachine, hreports⟩ := execute_with_log program (i.analyzed program) log
    refine ⟨adds_iterate_analyzed program i (n + 1), houtcome, ?_⟩
    rw [heq]
    exact ⟨rfl, hend, hmachine, hreports⟩

/-- A program with two faults and an unused name, over which one analysis walks three times. -/
example :
    let lexed := Lexed.ofText "\x7b var a = 1; var a = 2; \x7d return;" 1 0
    let program := (Program.ofTokens lexed.tokens lexed.final).program
    ((analyzeStmts program)^[3] { distances := .empty }).findings.size = 9 := by
  decide +kernel

end Interpreter

end LoxLang
