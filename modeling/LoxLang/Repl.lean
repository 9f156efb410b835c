import LoxLang.Interpreter
import LoxLang.Repl.Entry

/-!
# The terminal

At a terminal an interpreter is fed line by line.  A line is a command or belongs to
an entry; an entry runs as soon as it does not go on.  The lines that belong to entries
are numbered, and an entry has the number of its first line.

## Main definitions

* `Command` — what a line asks for.
* `Repl` — an interpreter at a terminal, with the entry that is not complete yet.
* `Repl.feed` — what a line does.
* `Repl.feedAll` — a whole conversation.

## References

The reference's `Shell`.
-/

namespace LoxLang

/-! ### Commands -/

/-- What a line asks for. -/
inductive Command where
  /-- Nothing. -/
  | blank
  /-- An explanation. -/
  | help
  /-- To leave. -/
  | leave
  /-- To leave, because there are no more lines. -/
  | endOfInput
  /-- To take a line as part of an entry. -/
  | enter (line : List Char)
  deriving DecidableEq, Repr

namespace Command

/-- Whether a character can stand in the name of a command. -/
def isNameChar (c : Char) : Bool := c.isAlphanum || c = '_'

/-- The command that a line without blanks around it asks for.  A question mark asks for
help, and after an exclamation mark no command is looked for. -/
def ofTrimmed : List Char → Command
  | [] => .blank
  | '?' :: _ => .help
  | '!' :: cs => .enter ('!' :: cs)
  | line =>
      match String.ofList (line.takeWhile isNameChar) with
      | "help" => .help
      | "exit" => .leave
      | "EOF" => .endOfInput
      | _ => .enter line

/-- The command that a line asks for. -/
def ofLine (line : String) : Command := ofTrimmed (trim line.toList)

end Command

/-! ### Texts -/

/-- What is printed when a conversation begins. -/
def greeting : String :=
  "Lox interpreter :: Python backend\nType 'help' for more information."

/-- What is printed when help is asked for. -/
def helpText : String :=
  "Welcome to the lox interpreter!\n\n"
    ++ "Lox is a small dynamically-typed scripting language with closures and classes.\n"
    ++ "Every line is run as soon as its braces and parentheses are balanced, and\n"
    ++ "globals persist between lines.\n\n"
    ++ "Try it out by typing 'var greeting = \"hi\";', then 'print greeting + \" there\";'.\n"
    ++ "Type 'exit' or press Ctrl-D to leave."

/-- Which of the two prompts asks for the next line. -/
inductive Prompt where
  /-- A new entry is expected. -/
  | primary
  /-- The entry goes on. -/
  | secondary
  deriving DecidableEq, Repr, Inhabited

/-- The text of a prompt. -/
def Prompt.text : Prompt → String
  | .primary => "> "
  | .secondary => ". "

/-! ### Lines -/

/-- An interpreter at a terminal. -/
structure Repl where
  /-- The interpreter. -/
  interpreter : Interpreter
  /-- The entry that is not complete yet. -/
  pending : List Char := []
  /-- The number of the first line of the entry. -/
  firstLine : Nat := 0
  /-- How many lines belonged to entries. -/
  lineCount : Nat := 0
  /-- The prompt for the next line. -/
  prompt : Prompt := .primary

/-- What a line leads to. -/
inductive Reply where
  /-- The conversation goes on. -/
  | proceed
  /-- The conversation goes on; the line was blank. -/
  | blank
  /-- The conversation is over. -/
  | stop
  /-- The program ends, or an interruption goes on to whoever waits. -/
  | broken (aftermath : Aftermath)
  deriving DecidableEq, Repr

namespace Repl

/-- Goes on after an entry has run: the log takes notice if it was broken off. -/
def conclude (r : Repl) : Interpreter × Outcome → Repl × Reply
  | (i, .finished _) => ({ r with interpreter := i }, .proceed)
  | (i, .aborted f) =>
      let (log, aftermath) := i.log.absorb f.interruption
      ({ r with interpreter := { i with log } },
        if aftermath = .resumed then .proceed else .broken aftermath)

/-- Takes a line as part of an entry, which runs if it is complete and not empty. -/
def enter (r : Repl) (line : List Char) : Repl × Reply :=
  let lineCount := r.lineCount + 1
  let firstLine := if r.pending.isEmpty then lineCount else r.firstLine
  let entry := Entry.ofText (r.pending ++ line)
  if entry.continues then
    ({ r with pending := entry.text ++ ['\n'], firstLine, lineCount, prompt := .secondary },
      .proceed)
  else
    let r := { r with pending := [], firstLine, lineCount, prompt := .primary }
    if entry.text.isEmpty then (r, .proceed)
    else r.conclude (r.interpreter.run (String.ofList entry.text) firstLine)

/-- What a command does. -/
def obey (r : Repl) : Command → Repl × Reply
  | .blank => (r, .blank)
  | .help => ({ r with interpreter := r.interpreter.print helpText }, .proceed)
  | .leave => (r, .stop)
  | .endOfInput => ({ r with interpreter := r.interpreter.print "" }, .stop)
  | .enter line => r.enter line

/-- What a line does. -/
def feed (r : Repl) (line : String) : Repl × Reply := r.obey (.ofLine line)

/-- Writes the prompt for the next line. -/
def writePrompt (r : Repl) : Repl :=
  let machine := r.interpreter.machine
  { r with interpreter := { r.interpreter with
      machine := { machine with output := machine.output ++ r.prompt.text } } }

/-- How a conversation ends. -/
inductive Ending where
  /-- By a line that ends it, or for want of lines. -/
  | left
  /-- By the keyboard. -/
  | interrupted
  /-- By a line that broke it off. -/
  | broken (aftermath : Aftermath)
  deriving DecidableEq, Repr

/-- A conversation with all the lines there are.  After the last of them the input ends,
or the keyboard interrupts. -/
def feedAll (r : Repl) (interrupt : Bool) : List String → Repl × Ending
  | [] =>
      if interrupt then (r.writePrompt, .interrupted)
      else ((r.writePrompt.obey .endOfInput).1, .left)
  | line :: rest =>
      match r.writePrompt.feed line with
      | (r, .stop) => (r, .left)
      | (r, .broken aftermath) => (r, .broken aftermath)
      | (r, _) => r.feedAll interrupt rest

end Repl

end LoxLang
