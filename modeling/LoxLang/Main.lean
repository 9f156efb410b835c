import LoxLang.CommandLine

/-!
# The program

Reads files and lines, prints what the library computes, and ends with the exit code it
gives.  A conversation is printed line by line, as it goes.

## References

The reference's `main`.
-/

namespace LoxLang

namespace Console

/-- Whether a variable of the surroundings is set. -/
def isSet (name : String) : IO Bool := return (← IO.getEnv name).isSome

/-- Whether what is written is to be coloured. -/
def coloured : IO Bool := do
  if ← isSet "ANSI_COLORS_DISABLED" then return false
  if ← isSet "NO_COLOR" then return false
  if ← isSet "FORCE_COLOR" then return true
  if (← IO.getEnv "TERM") == some "dumb" then return false
  (← IO.getStdout).isTty

/-- A clock that begins with the present time. -/
def now : IO Clock := return .ticking (Float.ofNat (← IO.monoMsNow) / 1000)

/-- The contents of a file, if it can be read. -/
def contents? (path : String) : IO (Option (List UInt8)) :=
  try
    return some (← IO.FS.readBinFile path).toList
  catch _ => return none

/-- The exit code for how the program ends. -/
def exitCode : Status → UInt32
  | .returned code => code.toNat.toUInt32
  | .exited code => (code.getD 0).toNat.toUInt32
  | .raised _ => 1

/-- Prints what was written on the two streams. -/
def write (output errors : String) : IO Unit := do
  let out ← IO.getStdout
  out.putStr output
  out.flush
  (← IO.getStderr).putStr errors

/-- Prints a transcript; the result is the exit code. -/
def finish (t : Transcript) : IO UInt32 := do
  write t.output t.errors
  return exitCode t.status

/-- Prints what an interpreter has written, which then has written nothing. -/
def emptied (i : Interpreter) : IO Interpreter := do
  write i.machine.output i.log.written
  return i.emptied (← now)

/-- Holds a conversation, from the next prompt on. -/
partial def converse (r : Repl) : IO UInt32 := do
  let r := r.writePrompt
  let r := { r with interpreter := ← emptied r.interpreter }
  let line ← (← IO.getStdin).getLine
  let (r, reply) :=
    if line.isEmpty then r.obey .endOfInput
    else r.feed (if line.endsWith "\n" then (line.dropEnd 1).toString else line)
  match reply with
  | .stop => finish (CommandLine.parted r .left)
  | .broken aftermath => finish (CommandLine.parted r (.broken aftermath))
  | _ => converse r

/-- Runs a command line. -/
def run (arguments : List String) : IO UInt32 := do
  let coloured ← coloured
  let clock ← now
  match Request.ofArguments arguments with
  | .ok (.run { file := none, verbose, noWarnings }) =>
      let r := CommandLine.terminal { verbose, noWarnings }
        { contents? := fun _ => none, coloured, clock }
      converse { r with interpreter := r.interpreter.print greeting }
  | .ok (.run { file := some path, .. }) =>
      let bytes ← contents? path
      finish (CommandLine.run arguments { contents? := fun _ => bytes, coloured, clock })
  | _ => finish (CommandLine.run arguments { contents? := fun _ => none, coloured, clock })

end Console

end LoxLang

/-- The program. -/
def main (arguments : List String) : IO UInt32 := LoxLang.Console.run arguments
