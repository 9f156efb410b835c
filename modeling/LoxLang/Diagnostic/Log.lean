import LoxLang.Diagnostic
import LoxLang.Diagnostic.Ink
import LoxLang.Text.Lines

/-!
# The log of diagnostics

The log collects what is said about the programs of an interpreter and writes it
out as it comes: with the path and the line, and with the line itself if it is
known, the offending token underlined.  It also writes accounts of the work when
asked to, and it knows the exit code that the diagnostics amount to.

When work is interrupted, by the keyboard, by too deep a recursion, by a diagnostic
or by a failure of another kind, the log takes notice.  A log that is fatal then
ends the program with an exit code; otherwise the work may go on.

## Main definitions

* `LogSettings`, `Log` — how a log writes, and a log.
* `Log.diagnosis` — the offending line with its token underlined.
* `Log.error`, `Log.warn`, `Log.runtimeError`, `Log.trace`, `Log.throw` — taking notice.
* `Log.noteLexFaults`, `Log.noteSyntaxFaults`, `Log.noteFindings` — taking notice of all that
  the reading of a text finds.
* `Log.exitCode` — the exit code the diagnostics amount to.
* `Interruption`, `Log.absorb` — what a log makes of an interruption.

## References

The reference's `ErrorHandler`.
-/

namespace LoxLang

/-- How a log writes. -/
structure LogSettings where
  /-- Whether an interruption ends the program. -/
  fatal : Bool := true
  /-- Whether accounts of the work are written. -/
  verbose : Bool := false
  /-- Whether warnings are written. -/
  showWarnings : Bool := true
  /-- Whether what is written is coloured. -/
  coloured : Bool := false
  deriving DecidableEq, Repr, Inhabited

/-- The path that stands for the entries of a terminal. -/
def entryPath : String := "<in>"

/-- A log of diagnostics. -/
structure Log where
  /-- How the log writes. -/
  settings : LogSettings := {}
  /-- The path of the text that is worked on. -/
  path : String := entryPath
  /-- The lines of the text that are known, by their numbers. -/
  lines : Table Int String := .empty
  /-- The errors noticed since the log was last cleared. -/
  errors : Array Diagnostic := #[]
  /-- The warnings noticed since the log was last cleared. -/
  warnings : Array Diagnostic := #[]
  /-- Whether an error was noticed that keeps a program from running. -/
  hadError : Bool := false
  /-- Whether an error was noticed while running. -/
  hadRuntimeError : Bool := false
  /-- What has been written. -/
  written : String := ""
  deriving DecidableEq, Repr, Inhabited

namespace Log

/-! ### Lines of the text -/

/-- Makes the lines of a file known. -/
def registerFile (log : Log) (path source : String) : Log :=
  let texts := (splitLines source.toList).map String.ofList
  { log with path, lines := .ofList ((texts.zipIdx 1).map fun (text, i) => ((i : Int), text)) }

/-- Makes one line known. -/
def registerLine (log : Log) (path line : String) (number : Int) : Log :=
  { log with path, lines := log.lines.insert number line }

/-- The known lines by their numbers. -/
def numberedLines (log : Log) : List (Int × String) :=
  log.lines.entries.mergeSort fun x y => x.1 ≤ y.1

/-- Forgets the diagnostics, but not the lines. -/
def clear (log : Log) : Log :=
  { log with errors := #[], warnings := #[], hadError := false, hadRuntimeError := false }

/-! ### Writing -/

/-- Writes a line. -/
def writeLine (log : Log) (text : String) : Log :=
  { log with written := log.written ++ text ++ "\n" }

/-- A text in the colours of the log. -/
def painted (log : Log) (ink : Option Ink) (bold : Bool) (text : String) : String :=
  paint log.settings.coloured ink bold text

/-- The offending line of a diagnostic, with the first occurrence of its token
underlined; nothing if the line is not known or the token does not occur in it. -/
def diagnosis (log : Log) (d : Diagnostic) (ink : Ink) : Option String := do
  let line ← log.lines.find? (← d.line)
  let token ← d.token
  let word := token.lexeme.toList
  if word.isEmpty then none
  else
    let chars := line.toList
    let start ← occurrence? word chars
    let marked := log.painted (some ink) true token.lexeme
    let underline := log.painted (some ink) true
      (String.ofList ('^' :: List.replicate (word.length - 1) '~'))
    some ("  " ++ String.ofList (chars.take start) ++ marked
      ++ String.ofList (chars.drop (start + word.length)) ++ "\n  "
      ++ String.ofList (List.replicate start ' ') ++ underline)

/-- Where a diagnostic is, as path and line. -/
def location (log : Log) (d : Diagnostic) : String :=
  match d.line with
  | none => log.path
  | some n => log.path ++ ":" ++ toString n

/-- Writes a diagnostic under a label, and the offending line if it is to be shown. -/
def display (log : Log) (d : Diagnostic) (label : String) (ink : Ink) : Log :=
  let head := log.painted none true (log.location d ++ ": ")
    ++ (if d.internal then log.painted (some ink) true "[internal] " else "")
    ++ log.painted (some ink) true (label ++ d.place ++ ": ") ++ d.message
  let log' := log.writeLine head
  if d.shown && !d.internal then
    match log.diagnosis d ink with
    | some text => log'.writeLine text
    | none => log'
  else log'

/-! ### Taking notice -/

/-- Notices an error that keeps a program from running. -/
def error (log : Log) (d : Diagnostic) : Log :=
  { log with errors := log.errors.push d, hadError := true }.display d "error" .red

/-- Notices something that is no error. -/
def warn (log : Log) (d : Diagnostic) : Log :=
  let log := { log with warnings := log.warnings.push d }
  if log.settings.showWarnings then log.display d "warning" .magenta else log

/-- Notices an error of a running program. -/
def runtimeError (log : Log) (d : Diagnostic) : Log :=
  { log with errors := log.errors.push d, hadRuntimeError := true }.display d "runtime error" .red

/-- Notices the pieces of a text that are no part of a program. -/
def noteLexFaults (log : Log) (faults : List LexFault) : Log :=
  faults.foldl (fun log f => log.error (.ofLexFault f)) log

/-- Notices syntax faults. -/
def noteSyntaxFaults (log : Log) (faults : List SyntaxFault) : Log :=
  faults.foldl (fun log f => log.error (.ofSyntaxFault f)) log

/-- Notices a finding of the analysis of scopes. -/
def noteFinding (log : Log) : Finding → Log
  | .fault f => log.error (.ofScopeFault f)
  | .unused name token => log.warn (.ofUnused name token)

/-- Notices the findings of the analysis of scopes. -/
def noteFindings (log : Log) (findings : List Finding) : Log := findings.foldl noteFinding log

/-- Gives an account of a step of the work, if accounts are asked for. -/
def trace (log : Log) (step detail : String) : Log :=
  if log.settings.verbose then
    log.writeLine (log.painted (some .grey) true ("[" ++ step ++ "] ")
      ++ log.painted (some .grey) false detail)
  else log

/-! ### What keeps a program from running -/

@[simp] theorem hadError_display (log : Log) (d : Diagnostic) (label : String) (ink : Ink) :
    (log.display d label ink).hadError = log.hadError := by
  unfold display
  dsimp only
  split
  · split <;> rfl
  · rfl

@[simp] theorem hadError_error (log : Log) (d : Diagnostic) : (log.error d).hadError = true :=
  hadError_display _ _ _ _

@[simp] theorem hadError_warn (log : Log) (d : Diagnostic) :
    (log.warn d).hadError = log.hadError := by
  unfold warn
  dsimp only
  split
  · exact hadError_display _ _ _ _
  · rfl

@[simp] theorem hadError_trace (log : Log) (step detail : String) :
    (log.trace step detail).hadError = log.hadError := by
  unfold trace
  split <;> rfl

/-- A log without an error has been told of no syntax fault. -/
theorem hadError_noteSyntaxFaults_eq_false {log : Log} {faults : List SyntaxFault} :
    (log.noteSyntaxFaults faults).hadError = false ↔ log.hadError = false ∧ faults = [] := by
  induction faults generalizing log with
  | nil => simp [noteSyntaxFaults]
  | cons f faults ih =>
    rw [noteSyntaxFaults, List.foldl_cons, ← noteSyntaxFaults, ih]
    simp

/-- A log without an error has been told of no fault by the analysis of scopes. -/
theorem hadError_noteFindings_eq_false {log : Log} {findings : List Finding} :
    (log.noteFindings findings).hadError = false
      ↔ log.hadError = false ∧ ∀ f, Finding.fault f ∉ findings := by
  induction findings generalizing log with
  | nil => simp [noteFindings]
  | cons finding findings ih =>
    rw [noteFindings, List.foldl_cons, ← noteFindings, ih]
    cases finding with
    | fault f =>
      simp only [noteFinding, hadError_error, Bool.true_eq_false, false_and, false_iff]
      exact fun h => h.2 f List.mem_cons_self
    | unused name token => simp [noteFinding]

/-! ### Interrupted work -/

/-- Notices an error after which nothing can go on.  If the log is fatal, the result
has the exit code with which the program ends. -/
def throw (log : Log) (d : Diagnostic) (code : Int) : Log × Option Int :=
  ({ log with errors := log.errors.push d }.display d "error" .red,
    if log.settings.fatal then some code else none)

/-- The exit code after an error that kept a program from running. -/
def staticErrorCode : Int := 65

/-- The exit code after an error of a running program. -/
def runtimeErrorCode : Int := 70

/-- The exit code that the diagnostics amount to. -/
def exitCode (log : Log) : Int :=
  if log.hadError then staticErrorCode else if log.hadRuntimeError then runtimeErrorCode else 0

end Log

/-! ### Interruptions -/

/-- What can interrupt the work. -/
inductive Interruption where
  /-- The keyboard. -/
  | keyboard
  /-- A request to end the program, with an exit code or without. -/
  | exit (code : Option Int)
  /-- Too deep a recursion. -/
  | overflow
  /-- A diagnostic. -/
  | diagnostic (d : Diagnostic)
  /-- A failure of another kind, with its name and its text. -/
  | failure (name text : String)
  deriving DecidableEq, Repr

/-- How the work goes on after an interruption. -/
inductive Aftermath where
  /-- As if nothing had happened. -/
  | resumed
  /-- The program ends with an exit code. -/
  | exited (code : Option Int)
  /-- The interruption goes on to whoever waits for the work. -/
  | raised (i : Interruption)
  deriving DecidableEq, Repr

namespace Log

/-- What is said of too deep a recursion. -/
def overflowDiagnostic : Diagnostic :=
  { kind := .runtime, message := "stack overflow: maximum recursion depth exceeded" }

/-- The aftermath of an error that was noticed: the program ends if it is fatal. -/
def settle (thrown : Log × Option Int) (otherwise : Aftermath) : Log × Aftermath :=
  match thrown with
  | (log, some code) => (log, .exited (some code))
  | (log, none) => (log, otherwise)

/-- What a log makes of an interruption. -/
def absorb (log : Log) : Interruption → Log × Aftermath
  | .keyboard => settle (log.throw { message := "keyboard interrupt" } 1) .resumed
  | .exit code => (log, .exited code)
  | .overflow => settle (log.throw overflowDiagnostic runtimeErrorCode) .resumed
  | .diagnostic d => settle (log.throw d 1) .resumed
  | .failure name text =>
      settle
        (log.throw
          { message := "unknown error: '" ++ name ++ ": " ++ text ++ "'", internal := true } 1)
        (.raised (.failure name text))

end Log

end LoxLang
