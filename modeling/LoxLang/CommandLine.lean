import LoxLang.CommandLine.Options
import LoxLang.Repl

/-!
# The command line

Given a file, the program runs it and ends with the exit code that its diagnostics
amount to.  Without a file it holds a conversation at the terminal.  An interruption
that reaches the top is noticed in the log; it ends the program if the log is fatal, as
it is for a file, and otherwise the program returns.

## Main definitions

* `Surroundings` — what a command line is run in: files, typed lines, colours, the time.
* `Status`, `Transcript` — how the program ends, and all it wrote.
* `CommandLine.run` — what a command line does.

## References

The reference's `main`.
-/

namespace LoxLang

/-- What a command line is run in. -/
structure Surroundings where
  /-- The contents of the file at a path, if it can be read. -/
  contents? : String → Option (List UInt8)
  /-- The lines that are typed. -/
  typed : List String := []
  /-- Whether the keyboard interrupts after the last line. -/
  interrupt : Bool := false
  /-- Whether what is written is coloured. -/
  coloured : Bool := false
  /-- The clock. -/
  clock : Clock := default

/-- How the program ends. -/
inductive Status where
  /-- It returns an exit code. -/
  | returned (code : Int)
  /-- It ends itself, with an exit code or without. -/
  | exited (code : Option Int)
  /-- An interruption ends it. -/
  | raised (i : Interruption)
  deriving DecidableEq, Repr

/-- How the program ended, and all it wrote. -/
structure Transcript where
  /-- How it ended. -/
  status : Status
  /-- What it printed. -/
  output : String := ""
  /-- What it wrote about its work. -/
  errors : String := ""
  deriving DecidableEq, Repr

namespace CommandLine

/-- How the command is used. -/
def usage : String := "usage: lox [-h] [-v] [-W] [file]\n"

/-- The explanation of the command. -/
def help : String :=
  usage ++ "\n"
    ++ "Tree-walking interpreter for the lox language.\n\n"
    ++ "positional arguments:\n"
    ++ "  file               file to interpret and run (if empty, goes to command-line\n"
    ++ "                     mode)\n\n"
    ++ "options:\n"
    ++ "  -h, --help         show this help message and exit\n"
    ++ "  -v, --verbose      trace each stage of the pipeline\n"
    ++ "  -W, --no-warnings  do not print warnings\n"

/-- The exit code after a fault in the arguments. -/
def usageErrorCode : Int := 2

/-- The transcript for a fault in the arguments. -/
def refusal (f : OptionsFault) : Transcript :=
  { status := .exited (some usageErrorCode)
    errors := usage ++ "lox: error: " ++ f.message ++ "\n" }

/-- The log of a command line. -/
def logFor (options : Options) (coloured : Bool) : Log :=
  { settings := { verbose := options.verbose, showWarnings := !options.noWarnings, coloured } }

/-- The transcript when an interruption reaches the top. -/
def interrupted (log : Log) (output : String) (i : Interruption) : Transcript :=
  let (log, aftermath) := log.absorb i
  { status :=
      match aftermath with
      | .resumed => .returned 1
      | .exited code => .exited code
      | .raised i => .raised i
    output
    errors := log.written }

/-- The transcript when an interpreter is done. -/
def concluded (i : Interpreter) : Outcome → Transcript
  | .finished _ =>
      { status := .returned i.log.exitCode, output := i.machine.output, errors := i.log.written }
  | .aborted f => interrupted i.log i.machine.output f.interruption

/-- Runs a file. -/
def runFile (options : Options) (path : String) (s : Surroundings) : Transcript :=
  match Interpreter.start (logFor options s.coloured) path false s.contents? s.clock with
  | (log, .error i) => interrupted log "" i
  | (log, .ok i) =>
      match i.runFile? 1 with
      | none => { status := .returned 0, errors := log.written }
      | some (i, outcome) => concluded i outcome

/-- A terminal at which the conversation is about to begin. -/
def terminal (options : Options) (s : Surroundings) : Repl :=
  let log := logFor options s.coloured
  { interpreter :=
      { log := { log with settings := { log.settings with fatal := false } }
        machine := Machine.initial s.clock } }

/-- The transcript of a conversation that has ended. -/
def parted (r : Repl) (ending : Repl.Ending) : Transcript :=
  let log := r.interpreter.log
  let output := r.interpreter.machine.output
  match ending with
  | .left => { status := .returned 0, output, errors := log.written }
  | .interrupted => interrupted log output .keyboard
  | .broken (.raised i) => interrupted log output i
  | .broken (.exited code) => { status := .exited code, output, errors := log.written }
  | .broken .resumed => { status := .returned 0, output, errors := log.written }

/-- Holds a conversation. -/
def converse (options : Options) (s : Surroundings) : Transcript :=
  let r := terminal options s
  let r := { r with interpreter := r.interpreter.print greeting }
  let (r, ending) := r.feedAll s.interrupt s.typed
  parted r ending

/-- What a command line does. -/
def run (arguments : List String) (s : Surroundings) : Transcript :=
  match Request.ofArguments arguments with
  | .error f => refusal f
  | .ok .help => { status := .exited (some 0), output := help }
  | .ok (.run options) =>
      match options.file with
      | some path => runFile options path s
      | none => converse options s

end CommandLine

end LoxLang
