import LoxLang.CommandLine
import LoxLang.Proofs.Interpreter.Session

/-!
# The sessions of the command line

What is proved of sessions is proved of the interpreters that are reached by taking texts, whatever
the clock says and whatever is written between two texts.  The command line does nothing else with
an interpreter.  It runs a file, or it holds a conversation: of the lines that are typed some
complete an entry, which is taken as a text, and for the others the interpreter prints or the log
takes notice.  When a conversation is printed as it goes, all that was written is taken away at each
prompt and the clock is set anew.

## Main definitions

* `Interpreter.InSession` — an interpreter that is reached by some texts.

## Main results

* `Repl.inSession_obey` — a command keeps to the session.
* `Repl.inSession_round` — so does a round of a conversation that is printed as it goes.
* `CommandLine.inSession_feedAll` — **a conversation is a session.**
* `CommandLine.inSession_file` — **a file is run in a session.**
-/

namespace LoxLang

/-- An interpreter that is reached by some texts. -/
def Interpreter.InSession (i : Interpreter) : Prop :=
  ∃ depth rounds runs, Reached depth rounds runs i

/-! ### What a session allows -/

namespace Interpreter.InSession

variable {i : Interpreter}

theorem start {log log' : Log} {path : String} {interactive : Bool}
    {contents? : String → Option (List UInt8)} {clock : Clock}
    (h : Interpreter.start log path interactive contents? clock = (log', .ok i)) :
    i.InSession := by
  refine ⟨i.limits.depth, i.limits.rounds, [], ?_⟩
  have hlimits : i.limits = {} := (Interpreter.start_eq_ok h).2.2
  have hstart : Reached i.limits.depth i.limits.rounds [] { i with limits := {} } := by
    rw [hlimits]
    exact .start h
  rwa [← hlimits] at hstart

theorem take (h : i.InSession) {r : Run} (hr : i.Takes r) : r.result.1.InSession := by
  obtain ⟨depth, rounds, runs, h⟩ := h
  exact ⟨depth, rounds, runs ++ [r], h.take hr⟩

theorem meanwhile (h : i.InSession) (log : Log) (output : String) (clock : Clock) :
    (i.meanwhile log output clock).InSession := by
  obtain ⟨depth, rounds, runs, h⟩ := h
  exact ⟨depth, rounds, runs, h.meanwhile log output clock⟩

theorem print (h : i.InSession) (text : String) : (i.print text).InSession :=
  h.meanwhile i.log _ i.machine.clock

/-- What was written is taken away, and the clock is set anew. -/
theorem emptied (h : i.InSession) (clock : Clock) : (i.emptied clock).InSession :=
  h.meanwhile _ _ clock

end Interpreter.InSession

/-! ### Conversations -/

namespace Repl

variable {r : Repl}

theorem inSession_writePrompt (h : r.interpreter.InSession) :
    r.writePrompt.interpreter.InSession :=
  h.meanwhile r.interpreter.log _ r.interpreter.machine.clock

theorem inSession_conclude {done : Interpreter × Outcome} (h : done.1.InSession) :
    (r.conclude done).1.interpreter.InSession := by
  obtain ⟨i, outcome⟩ := done
  cases outcome with
  | finished => exact h
  | aborted f => exact h.meanwhile _ i.machine.output i.machine.clock

/-- A line takes at most one text. -/
theorem inSession_enter (h : r.interpreter.InSession) (line : List Char) :
    (r.enter line).1.interpreter.InSession := by
  unfold enter
  dsimp only
  split
  · exact h
  · split
    · exact h
    · rw [Interpreter.run_eq_result]
      exact inSession_conclude (h.take (.entry _ _))

theorem inSession_obey (h : r.interpreter.InSession) (command : Command) :
    (r.obey command).1.interpreter.InSession := by
  cases command with
  | blank => exact h
  | help => exact h.print helpText
  | leave => exact h
  | endOfInput => exact h.print ""
  | enter line => exact inSession_enter h line

/-- A round of a conversation that is printed as it goes: behind the prompt all that was written
is taken away, and time passes until there is a line. -/
theorem inSession_round (h : r.interpreter.InSession) (clock : Clock) (command : Command) :
    let asked := r.writePrompt
    (Repl.obey { asked with interpreter := asked.interpreter.emptied clock }
      command).1.interpreter.InSession :=
  inSession_obey ((inSession_writePrompt h).emptied clock) command

theorem inSession_feedAll (h : r.interpreter.InSession) (interrupt : Bool) (lines : List String) :
    (r.feedAll interrupt lines).1.interpreter.InSession := by
  induction lines generalizing r with
  | nil =>
    have hprompt := inSession_writePrompt h
    cases interrupt with
    | true => exact hprompt
    | false => exact inSession_obey hprompt .endOfInput
  | cons line rest ih =>
    have hfeed := inSession_obey (inSession_writePrompt h) (.ofLine line)
    rw [feedAll]
    cases hreply : r.writePrompt.feed line with
    | mk r' reply =>
      have hr' : r'.interpreter.InSession := by
        rw [feed] at hreply
        rwa [hreply] at hfeed
      cases reply with
      | stop => exact hr'
      | broken => exact hr'
      | proceed => exact ih hr'
      | blank => exact ih hr'

end Repl

/-! ### The command line -/

namespace CommandLine

/-- **A conversation is a session**, whatever is typed and whatever the clock says. -/
theorem inSession_feedAll (options : Options) (s : Surroundings) (lines : List String) :
    let r := terminal options s
    (Repl.feedAll { r with interpreter := r.interpreter.print greeting } s.interrupt
      lines).1.interpreter.InSession := by
  have hstart : Interpreter.start (logFor options s.coloured) entryPath true s.contents? s.clock
      = ((terminal options s).interpreter.log, .ok (terminal options s).interpreter) := by
    rw [Interpreter.start, if_pos rfl]
    rfl
  have hterminal : (terminal options s).interpreter.InSession := .start hstart
  exact Repl.inSession_feedAll (hterminal.print greeting) s.interrupt lines

/-- **A file is run in a session.** -/
theorem inSession_file {options : Options} {s : Surroundings} {path : String} {log : Log}
    {i : Interpreter} {after : Interpreter × Outcome}
    (h : Interpreter.start (logFor options s.coloured) path false s.contents? s.clock
      = (log, .ok i))
    (hrun : i.runFile? 1 = some after) : after.1.InSession := by
  obtain ⟨source, hsource, hafter⟩ := Option.map_eq_some_iff.mp hrun
  have hstart : i.InSession := .start h
  have hresult : after = Run.result ⟨i, source, 1⟩ := hafter.symm
  rw [hresult]
  exact hstart.take (.file hsource 1)

end CommandLine

end LoxLang
