import LoxLang.Diagnostic.Log
import LoxLang.Machine.Eval
import LoxLang.Program.OfTokens
import LoxLang.Scope.Analysis
import LoxLang.Text.Utf8

/-!
# The interpreter

An interpreter takes texts one after the other.  Each text is cut into tokens, read as
a program, analyzed and run; what a stage finds wrong goes to the log, and a text with
an error is not run.  All texts share one machine, so what one declares the next can
use.

The positions of a text start where those of the text before it ended, with one place
left between them for a line end.  No two occurrences of names in one interpreter have
the same position, therefore, and two texts on lines of their own have the positions
they have as one text.

An interpreter works on a file or on the entries of a terminal.  An entry is known to
the log as one line, and the log is cleared before it is run.

## Main definitions

* `Interpreter` — an interpreter.
* `Interpreter.start` — an interpreter for a file or for a terminal.
* `Interpreter.read`, `Interpreter.analyze`, `Interpreter.execute` — the stages.
* `Interpreter.run`, `Interpreter.runFile?` — all stages for a text, and for the file.
* `Interpreter.print`, `Interpreter.emptied` — what is written besides, and taken away.

## References

The reference's `Session`.
-/

namespace LoxLang

/-- An interpreter. -/
structure Interpreter where
  /-- What has been said about the texts. -/
  log : Log
  /-- The path of the text that is worked on. -/
  path : String := entryPath
  /-- Whether the texts are the entries of a terminal. -/
  interactive : Bool := true
  /-- The text of the file. -/
  source : Option String := none
  /-- What the programs act on. -/
  machine : Machine
  /-- The position at which the next text starts. -/
  nextPosition : Nat := 0
  /-- The bounds within which programs run. -/
  limits : Limits := {}

/-- How the work on a program ends. -/
inductive Outcome where
  /-- It is done, with or without success. -/
  | finished (success : Bool)
  /-- It was broken off, for a reason that is not the program's. -/
  | aborted (fault : Fault)
  deriving DecidableEq, Repr

/-- The interruption that a fault amounts to. -/
def Fault.interruption : Fault → Interruption
  | .runtime f => .diagnostic (.ofRuntimeFault f)
  | .beyondGlobals d => .diagnostic { message := beyondGlobalsMessage d, internal := true }
  | .overflow => .overflow
  | .lostScope => .failure "InternalError" "the analysis of scopes lost track of them"
  | .noReceiver => .failure "InternalError" "an initializer has no receiver"
  | .notAnOperator kind => .failure "InternalError" (kind.name ++ " is not an operator")
  | .dangling => .failure "InternalError" "a reference refers to nothing"
  | .endless => .failure "InternalError" "a loop goes on for too long"

namespace Interpreter

/-! ### Starting -/

/-- The text of a file, with its line ends written in one way. -/
def decodeFile (bytes : List UInt8) : Except Interruption String :=
  match decodeUtf8 bytes with
  | .ok cs => .ok (String.ofList (unifyNewlines cs))
  | .error f => .error (.failure "UnicodeDecodeError" f.message)

/-- The text of the file at a path, given how files are read.  A path with a null
character in it is no path at all. -/
def openFile (contents? : String → Option (List UInt8)) (path : String) :
    Except Interruption String :=
  if path.toList.contains '\x00' then
    .error (.failure "ValueError" "embedded null byte")
  else
    match contents? path with
    | none =>
        .error (.diagnostic { message := "'" ++ path ++ "' could not be opened", shown := false })
    | some bytes => decodeFile bytes

/-- An interpreter for the file at a path, or for a terminal.  The path of the terminal
is no file; a terminal may well have a file of its own.  At a terminal an interruption
does not end the program. -/
def start (log : Log) (path : String) (interactive : Bool)
    (contents? : String → Option (List UInt8)) (clock : Clock) :
    Log × Except Interruption Interpreter :=
  let log := if interactive then { log with settings := { log.settings with fatal := false } }
    else log
  let machine := Machine.initial clock
  if path = entryPath then
    if interactive then
      (log, .ok { log, path, interactive, machine })
    else
      (log, .error (.diagnostic { message := "'<in>' is a reserved filename" }))
  else
    match openFile contents? path with
    | .error i => (log, .error i)
    | .ok source =>
        let log := log.registerFile path source
        (log, .ok { log, path, interactive, source := some source, machine })

/-! ### The stages -/

/-- Reads a text as a program whose first line has a number.  There is no program if an
error has been noticed. -/
def read (i : Interpreter) (source : String) (line : Int) : Interpreter × Option Program :=
  let lexed := Lexed.ofText source line i.nextPosition
  let log := (i.log.noteLexFaults lexed.faults).trace "scan"
    (toString lexed.allTokens.length ++ " tokens")
  let parsed := Program.ofTokens lexed.tokens lexed.final
  let log := (log.noteSyntaxFaults parsed.faults).trace "parse"
    (toString parsed.program.length ++ " statements")
  ({ i with log, nextPosition := i.nextPosition + source.length + 1 },
    if log.hadError then none else some parsed.program)

/-- Analyzes the scopes of a program, with success if no error has been noticed. -/
def analyze (i : Interpreter) (program : Program) : Interpreter × Outcome :=
  let known := i.machine.distances
  let analysis := Analysis.ofProgram program known
  let log := (i.log.noteFindings analysis.findings.toList).trace "resolve"
    (toString (analysis.distances.size - known.size) ++ " new local references")
  ({ i with log, machine := { i.machine with distances := analysis.distances } },
    if analysis.lost then .aborted .lostScope else .finished (!log.hadError))

/-- Runs a program. -/
def execute (i : Interpreter) (program : Program) : Interpreter × Outcome :=
  match runProgram i.limits program i.machine with
  | .ok () machine => ({ i with machine }, .finished true)
  | .error (.runtime f) machine =>
      ({ i with machine, log := i.log.runtimeError (.ofRuntimeFault f) }, .finished false)
  | .error f machine => ({ i with machine }, .aborted f)

/-- Takes a text through all the stages, as far as it is without error. -/
def process (i : Interpreter) (source : String) (line : Int) : Interpreter × Outcome :=
  match i.read source line with
  | (i, none) => (i, .finished false)
  | (i, some program) =>
      match i.analyze program with
      | (i, .finished true) => { i with log := i.log.trace "interpret" i.path }.execute program
      | (i, outcome) => (i, outcome)

/-- Prepares for a text: an entry of a terminal becomes known to the cleared log. -/
def expect (i : Interpreter) (source : String) (line : Int) : Interpreter :=
  if i.interactive then { i with log := i.log.clear.registerLine i.path source line } else i

/-- Runs a text whose first line has a number. -/
def run (i : Interpreter) (source : String) (line : Int) : Interpreter × Outcome :=
  (i.expect source line).process source line

/-- Runs the file, if there is one. -/
def runFile? (i : Interpreter) (line : Int) : Option (Interpreter × Outcome) :=
  i.source.map fun source => i.process source line

/-- The interpreter once what it and its log have written was taken away, at a later time. -/
def emptied (i : Interpreter) (clock : Clock) : Interpreter :=
  { i with
    log := { i.log with written := "" }
    machine := { i.machine with output := "", clock } }

/-- Prints a text on a line of its own, as a program would. -/
def print (i : Interpreter) (text : String) : Interpreter :=
  { i with machine := { i.machine with output := i.machine.output ++ text ++ "\n" } }

end Interpreter

end LoxLang
