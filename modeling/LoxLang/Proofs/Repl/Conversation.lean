import LoxLang.Proofs.Repl.Gathering
import LoxLang.Repl
import Mathlib.Data.List.Induction

/-!
# Conversations

A conversation is a sequence of lines of which some are commands and the others belong to entries.
Those that belong to entries fall into entries in one way only: an entry goes on behind each of
its lines but the last, and the last lines may begin an entry that is not complete yet.

Whatever is said in between and whatever comes of running the entries, the state of a terminal
says how the lines fall into entries.  What is pending is what the complete lines of the last entry
leave, the prompt tells whether anything is, lines are counted, an entry has the number of its
first line, and the interpreter has run the complete entries one after the other.

## Main definitions

* `Entry.Division` — lines fall into complete entries and the beginning of one more.
* `Entry.starts` — entries with the numbers of their first lines.
* `Deed`, `Interpreter.perform`, `Interpreter.settled` — what a terminal lets its interpreter do,
  and what is left of a text that was broken off.
* `Repl.fed` — a terminal that has been fed some lines.
* `Repl.Tallies` — the state of a terminal agrees with what it was told.

## Main results

* `Entry.Division.unique` — lines fall into entries in one way only.
* `Repl.Tallies.obey` — a command keeps the tally.
* `Repl.fed_tallies` — **the state of a terminal after any lines.**
-/

namespace LoxLang

/-! ### Entries among lines -/

namespace Entry

/-- Lines that begin an entry: it goes on behind each of them. -/
def GoesOn (ls : List (List Char)) : Prop :=
  ∀ ks, ks <+: ls → ks ≠ [] → (ofLines ks).continues = true

/-- Lines that make up an entry: it goes on behind each of them but the last. -/
structure IsWhole (ls : List (List Char)) : Prop where
  /-- There is a line. -/
  ne_nil : ls ≠ []
  /-- The entry does not go on behind the last one. -/
  ends : (ofLines ls).continues = false
  /-- It goes on behind the others. -/
  goesOn : ∀ ks, ks <+: ls → ks ≠ [] → ks ≠ ls → (ofLines ks).continues = true

/-- Lines fall into complete entries, and into lines that begin one more. -/
structure Division (lines : List (List Char)) (done : List (List (List Char)))
    (rest : List (List Char)) : Prop where
  /-- The lines are those of the entries, one after the other. -/
  lines_eq : lines = done.flatten ++ rest
  /-- The entries are complete. -/
  whole : ∀ e ∈ done, IsWhole e
  /-- The lines behind them are not. -/
  goesOn : GoesOn rest

variable {lines rest : List (List Char)} {done : List (List (List Char))}

theorem division_nil : Division [] [] [] := by
  refine ⟨rfl, by simp, ?_⟩
  intro ks hks hne
  exact absurd (List.prefix_nil.mp hks) hne

/-- One more line with which the entry goes on. -/
theorem Division.line_of_continues (h : Division lines done rest) {l : List Char}
    (hl : (ofLines (rest ++ [l])).continues = true) :
    Division (lines ++ [l]) done (rest ++ [l]) := by
  refine ⟨by rw [h.lines_eq, List.append_assoc], h.whole, ?_⟩
  intro ks hks hne
  rcases List.prefix_concat_iff.mp hks with rfl | hks
  · exact hl
  · exact h.goesOn ks hks hne

/-- One more line with which the entry is complete. -/
theorem Division.line_of_not_continues (h : Division lines done rest) {l : List Char}
    (hl : (ofLines (rest ++ [l])).continues = false) :
    Division (lines ++ [l]) (done ++ [rest ++ [l]]) [] := by
  have hwhole : IsWhole (rest ++ [l]) := by
    refine ⟨by simp, hl, ?_⟩
    intro ks hks hne hother
    rcases List.prefix_concat_iff.mp hks with rfl | hks
    · exact absurd rfl hother
    · exact h.goesOn ks hks hne
  refine ⟨by simp [h.lines_eq], ?_, division_nil.goesOn⟩
  intro e he
  rcases List.mem_append.mp he with he | he
  · exact h.whole e he
  · rwa [List.mem_singleton.mp he]

/-- A complete entry is not the beginning of one. -/
theorem IsWhole.not_begins {e : List (List Char)} (h : IsWhole e) (hrest : GoesOn rest) :
    ¬e <+: rest := by
  intro he
  have hcontinues := hrest e he h.ne_nil
  rw [h.ends] at hcontinues
  cases hcontinues

/-- Of two complete entries none is the beginning of the other. -/
theorem IsWhole.eq_of_begins {e e' : List (List Char)} (h : IsWhole e) (h' : IsWhole e')
    (hbegins : e <+: e') : e = e' := by
  by_contra hne
  have hcontinues := h'.goesOn e hbegins h.ne_nil hne
  rw [h.ends] at hcontinues
  cases hcontinues

/-- **Lines fall into entries in one way only.** -/
theorem Division.unique {done' : List (List (List Char))} {rest' : List (List Char)}
    (h : Division lines done rest) (h' : Division lines done' rest') :
    done' = done ∧ rest' = rest := by
  obtain ⟨rfl, hwhole, hrest⟩ := h
  obtain ⟨hlines, hwhole', hrest'⟩ := h'
  induction done generalizing done' with
  | nil =>
    cases done' with
    | nil => exact ⟨rfl, hlines.symm⟩
    | cons e' done' =>
      refine absurd ?_ ((hwhole' e' List.mem_cons_self).not_begins hrest)
      simp only [List.flatten_nil, List.nil_append, List.flatten_cons, List.append_assoc] at hlines
      exact ⟨_, hlines.symm⟩
  | cons e done ih =>
    obtain ⟨he, hwhole⟩ := List.forall_mem_cons.mp hwhole
    simp only [List.flatten_cons, List.append_assoc] at hlines
    cases done' with
    | nil =>
      refine absurd ?_ (he.not_begins hrest')
      exact ⟨_, hlines⟩
    | cons e' done' =>
      obtain ⟨he', hlater⟩ := List.forall_mem_cons.mp hwhole'
      simp only [List.flatten_cons, List.append_assoc] at hlines
      -- both first entries are what the lines begin with, so one begins the other
      have hsame : e = e' := by
        rcases List.prefix_or_prefix_of_prefix ⟨_, hlines⟩ (List.prefix_append e' _) with hle | hle
        · exact he.eq_of_begins he' hle
        · exact (he'.eq_of_begins he hle).symm
      subst hsame
      obtain ⟨rfl, rfl⟩ := ih hwhole (List.append_cancel_left hlines) hlater
      exact ⟨rfl, rfl⟩

/-! ### Numbers of entries -/

/-- Entries with the numbers of their first lines, from a number on. -/
def starts (n : Nat) : List (List (List Char)) → List (Nat × List (List Char))
  | [] => []
  | e :: es => (n, e) :: starts (n + e.length) es

theorem starts_concat (n : Nat) (es : List (List (List Char))) (e : List (List Char)) :
    starts n (es ++ [e]) = starts n es ++ [(n + es.flatten.length, e)] := by
  induction es generalizing n with
  | nil => rfl
  | cons e' es ih =>
    rw [List.cons_append, starts, ih, starts, List.cons_append]
    simp [Nat.add_assoc]

/-- The number of the last entry. -/
def lastStart (es : List (List (List Char))) : Nat := ((starts 1 es).getLast?.map Prod.fst).getD 0

theorem lastStart_concat (es : List (List (List Char))) (e : List (List Char)) :
    lastStart (es ++ [e]) = 1 + es.flatten.length := by
  simp [lastStart, starts_concat]

/-- All entries, with the one that is not complete. -/
def begun (done : List (List (List Char))) (rest : List (List Char)) : List (List (List Char)) :=
  if rest = [] then done else done ++ [rest]

end Entry

/-! ### What a terminal lets its interpreter do -/

/-- Something that an interpreter does for a terminal. -/
inductive Deed where
  /-- It prints a text. -/
  | say (text : String)
  /-- It runs a text whose first line has a number. -/
  | run (text : List Char) (line : Nat)

namespace Deed

/-- The text that is printed. -/
def said? : Deed → Option String
  | say text => some text
  | run _ _ => none

/-- The text that is run, and its number. -/
def ran? : Deed → Option (List Char × Nat)
  | say _ => none
  | run text line => some (text, line)

end Deed

/-- An interpreter that is done with a text.  The log takes notice of what broke it off. -/
def Interpreter.settled (i : Interpreter) : Outcome → Interpreter
  | .finished _ => i
  | .aborted f => { i with log := (i.log.absorb f.interruption).1 }

/-- The interpreter after a deed. -/
def Interpreter.perform (i : Interpreter) : Deed → Interpreter
  | .say text => i.print text
  | .run text line =>
      (i.run (String.ofList text) line).1.settled (i.run (String.ofList text) line).2

namespace Command

/-- The line that is taken as part of an entry. -/
def entered? : Command → Option (List Char)
  | enter line => some line
  | _ => none

/-- The text that is printed at once. -/
def said? : Command → Option String
  | help => some helpText
  | endOfInput => some ""
  | _ => none

end Command

/-- What is run of an entry with the number of its first line; of an empty one, nothing. -/
def Entry.run? (e : Nat × List (List Char)) : Option (List Char × Nat) :=
  if (ofLines e.2).text = [] then none else some ((ofLines e.2).text, e.1)

namespace Repl

/-- A terminal is given some commands. -/
def obeyAll (r : Repl) (commands : List Command) : Repl :=
  commands.foldl (fun r command => (r.obey command).1) r

/-- A terminal that has been fed some lines from its start on, whatever it replied. -/
def fed (i : Interpreter) (lines : List String) : Repl :=
  lines.foldl (fun r line => (r.feed line).1) { interpreter := i }

theorem obeyAll_concat (r : Repl) (commands : List Command) (command : Command) :
    r.obeyAll (commands ++ [command]) = ((r.obeyAll commands).obey command).1 := by
  rw [obeyAll, List.foldl_append]
  rfl

theorem fed_eq (i : Interpreter) (lines : List String) :
    fed i lines = Repl.obeyAll { interpreter := i } (lines.map Command.ofLine) := by
  rw [fed, obeyAll, List.foldl_map]
  rfl

/-- The number of the entry to which the next line belongs. -/
def entryLine (r : Repl) : Nat := if r.pending.isEmpty then r.lineCount + 1 else r.firstLine

/-- How a text ends is of no concern to anything but the interpreter, which keeps all that the
text has done. -/
theorem conclude_eq (r : Repl) (i : Interpreter) (outcome : Outcome) :
    (r.conclude (i, outcome)).1 = { r with interpreter := i.settled outcome } := by
  cases outcome <;> rfl

variable {r : Repl} {rest : List (List Char)} {line : List Char}

/-- A line with which the pending entry goes on. -/
theorem enter_of_continues (h : r.pending = Entry.pendingOf rest)
    (hline : (Entry.ofLines (rest ++ [line])).continues = true) :
    (r.enter line).1 = { r with
      pending := Entry.pendingOf (rest ++ [line])
      firstLine := r.entryLine
      lineCount := r.lineCount + 1
      prompt := .secondary } := by
  have hentry : Entry.ofText (r.pending ++ line) = Entry.ofLines (rest ++ [line]) := by
    rw [h, Entry.ofText_pendingOf]
  rw [enter, hentry, hline, Entry.pendingOf_eq hline]
  rfl

/-- A line with which the pending entry is complete. -/
theorem enter_of_not_continues (h : r.pending = Entry.pendingOf rest)
    (hline : (Entry.ofLines (rest ++ [line])).continues = false) :
    (r.enter line).1 = {
      interpreter := (Entry.run? (r.entryLine, rest ++ [line])).elim r.interpreter
        fun e => r.interpreter.perform (.run e.1 e.2)
      pending := []
      firstLine := r.entryLine
      lineCount := r.lineCount + 1
      prompt := .primary } := by
  have hentry : Entry.ofText (r.pending ++ line) = Entry.ofLines (rest ++ [line]) := by
    rw [h, Entry.ofText_pendingOf]
  rw [enter, hentry, hline, Entry.run?]
  by_cases htext : (Entry.ofLines (rest ++ [line])).text = []
  · simp only [htext, List.isEmpty_nil, if_true, Option.elim_none]
    rfl
  · have hempty : (Entry.ofLines (rest ++ [line])).text.isEmpty = false := by simpa using htext
    simp only [hempty, htext, Bool.false_eq_true, if_false, Option.elim_some]
    exact conclude_eq { r with
      pending := []
      firstLine := r.entryLine
      lineCount := r.lineCount + 1
      prompt := .primary } _ _

/-! ### The tally -/

/-- The state of a terminal agrees with the commands it was given: lines fall into the complete
entries `done` and the lines `rest` that begin another one, and the interpreter that was there at
first has done `deeds`. -/
structure Tallies (i : Interpreter) (commands : List Command) (r : Repl)
    (done : List (List (List Char))) (rest : List (List Char)) (deeds : List Deed) : Prop where
  /-- Lines fall into entries. -/
  division : Entry.Division (commands.filterMap Command.entered?) done rest
  /-- What is pending is what is left of the lines that begin an entry. -/
  pending : r.pending = Entry.pendingOf rest
  /-- The prompt says whether an entry has begun. -/
  prompt : r.prompt = if rest = [] then .primary else .secondary
  /-- The lines that belong to entries are counted. -/
  lineCount : r.lineCount = (commands.filterMap Command.entered?).length
  /-- The number of the entry that has begun last is known. -/
  firstLine : r.firstLine = Entry.lastStart (Entry.begun done rest)
  /-- The interpreter has done what it was let do. -/
  interpreter : r.interpreter = deeds.foldl Interpreter.perform i
  /-- It has run the complete entries in order, each of them once, but for empty ones. -/
  runs : deeds.filterMap Deed.ran? = (Entry.starts 1 done).filterMap Entry.run?
  /-- It has printed what commands asked for. -/
  prints : deeds.filterMap Deed.said? = commands.filterMap Command.said?

namespace Tallies

variable {i : Interpreter} {commands : List Command} {done : List (List (List Char))}
  {deeds : List Deed}

theorem start (i : Interpreter) : Tallies i [] { interpreter := i } [] [] [] where
  division := Entry.division_nil
  pending := rfl
  prompt := rfl
  lineCount := rfl
  firstLine := rfl
  interpreter := rfl
  runs := rfl
  prints := rfl

/-- Nothing is pending if no entry has begun, and only then. -/
theorem pending_eq_nil_iff (h : Tallies i commands r done rest deeds) :
    r.pending = [] ↔ rest = [] := by
  constructor
  · intro hpending
    by_contra hne
    have hcontinues := h.division.goesOn rest (List.prefix_refl _) hne
    rw [h.pending, Entry.pendingOf_eq hcontinues] at hpending
    simp at hpending
  · intro hrest
    rw [h.pending, hrest]
    rfl

/-- The next line belongs to the entry that has begun, or begins one. -/
theorem entryLine_eq (h : Tallies i commands r done rest deeds) :
    r.entryLine = 1 + done.flatten.length := by
  by_cases hrest : rest = []
  · have hpending := h.pending_eq_nil_iff.mpr hrest
    have hlines := h.division.lines_eq
    simp only [entryLine, hpending, List.isEmpty_nil, if_true, h.lineCount, hlines, hrest,
      List.append_nil]
    omega
  · have hpending : r.pending.isEmpty = false := by simp [h.pending_eq_nil_iff, hrest]
    simp only [entryLine, hpending, h.firstLine, Entry.begun, hrest, if_false, Bool.false_eq_true,
      Entry.lastStart_concat]

/-- A command for which nothing is done. -/
theorem quiet (h : Tallies i commands r done rest deeds) {command : Command}
    (hentered : command.entered? = none) (hsaid : command.said? = none) :
    Tallies i (commands ++ [command]) r done rest deeds := by
  have hentered : (commands ++ [command]).filterMap Command.entered?
      = commands.filterMap Command.entered? := by simp [hentered]
  have hsaid : (commands ++ [command]).filterMap Command.said?
      = commands.filterMap Command.said? := by simp [hsaid]
  exact { h with
    division := by rw [hentered]; exact h.division
    lineCount := by rw [hentered]; exact h.lineCount
    prints := by rw [hsaid]; exact h.prints }

/-- A command for which a text is printed. -/
theorem spoken (h : Tallies i commands r done rest deeds) {command : Command} {text : String}
    (hentered : command.entered? = none) (hsaid : command.said? = some text) :
    Tallies i (commands ++ [command]) { r with interpreter := r.interpreter.print text } done rest
      (deeds ++ [.say text]) := by
  have hentered : (commands ++ [command]).filterMap Command.entered?
      = commands.filterMap Command.entered? := by simp [hentered]
  exact { h with
    division := by rw [hentered]; exact h.division
    lineCount := by rw [hentered]; exact h.lineCount
    interpreter := by rw [h.interpreter, List.foldl_append]; rfl
    runs := by rw [← h.runs]; simp [Deed.ran?]
    prints := by simp [h.prints, Deed.said?, hsaid] }

/-- The lines that belong to entries, with one more. -/
theorem entered_concat (commands : List Command) (line : List Char) :
    (commands ++ [Command.enter line]).filterMap Command.entered?
      = commands.filterMap Command.entered? ++ [line] := by simp [Command.entered?]

theorem said_concat (commands : List Command) (line : List Char) :
    (commands ++ [Command.enter line]).filterMap Command.said?
      = commands.filterMap Command.said? := by
  simp [Command.said?]

/-- A line with which an entry goes on. -/
theorem enter_of_continues (h : Tallies i commands r done rest deeds)
    (hline : (Entry.ofLines (rest ++ [line])).continues = true) :
    Tallies i (commands ++ [.enter line]) (r.enter line).1 done (rest ++ [line]) deeds := by
  rw [Repl.enter_of_continues h.pending hline]
  constructor
  case division =>
    rw [entered_concat]
    exact h.division.line_of_continues hline
  case pending => rfl
  case prompt => simp
  case lineCount => rw [entered_concat, List.length_append, ← h.lineCount, List.length_singleton]
  case firstLine => simp [h.entryLine_eq, Entry.begun, Entry.lastStart_concat]
  case interpreter => exact h.interpreter
  case runs => exact h.runs
  case prints =>
    rw [said_concat]
    exact h.prints

/-- The deed for an entry that is complete, if there is something to run. -/
def deedFor (e : Nat × List (List Char)) : List Deed :=
  (Entry.run? e).toList.map fun text => .run text.1 text.2

theorem filterMap_deedFor (e : Nat × List (List Char)) :
    (deedFor e).filterMap Deed.ran? = (Entry.run? e).toList
      ∧ (deedFor e).filterMap Deed.said? = [] := by
  rw [deedFor]
  cases Entry.run? e <;> simp [Deed.ran?, Deed.said?]

/-- A line with which an entry is complete. -/
theorem enter_of_not_continues (h : Tallies i commands r done rest deeds)
    (hline : (Entry.ofLines (rest ++ [line])).continues = false) :
    Tallies i (commands ++ [.enter line]) (r.enter line).1 (done ++ [rest ++ [line]]) []
      (deeds ++ deedFor (r.entryLine, rest ++ [line])) := by
  obtain ⟨hran, hsaid⟩ := filterMap_deedFor (r.entryLine, rest ++ [line])
  rw [Repl.enter_of_not_continues h.pending hline]
  constructor
  case division =>
    rw [entered_concat]
    exact h.division.line_of_not_continues hline
  case pending => rfl
  case prompt => simp
  case lineCount => rw [entered_concat, List.length_append, ← h.lineCount, List.length_singleton]
  case firstLine => simp [h.entryLine_eq, Entry.begun, Entry.lastStart_concat]
  case interpreter =>
    rw [List.foldl_append, ← h.interpreter, deedFor]
    cases Entry.run? (r.entryLine, rest ++ [line]) <;> rfl
  case runs =>
    rw [List.filterMap_append, h.runs, hran, Entry.starts_concat, List.filterMap_append,
      ← h.entryLine_eq]
    cases hrun : Entry.run? (r.entryLine, rest ++ [line]) <;> simp [hrun]
  case prints =>
    rw [said_concat, List.filterMap_append, hsaid, List.append_nil]
    exact h.prints

/-- A command keeps the tally. -/
theorem obey (h : Tallies i commands r done rest deeds) (command : Command) :
    ∃ done' rest' deeds',
      Tallies i (commands ++ [command]) (r.obey command).1 done' rest' deeds' := by
  cases command with
  | blank => exact ⟨done, rest, deeds, h.quiet rfl rfl⟩
  | leave => exact ⟨done, rest, deeds, h.quiet rfl rfl⟩
  | help => exact ⟨done, rest, _, h.spoken rfl rfl⟩
  | endOfInput => exact ⟨done, rest, _, h.spoken rfl rfl⟩
  | enter line =>
    cases hline : (Entry.ofLines (rest ++ [line])).continues with
    | true => exact ⟨done, rest ++ [line], deeds, h.enter_of_continues hline⟩
    | false => exact ⟨_, _, _, h.enter_of_not_continues hline⟩

end Tallies

/-- The tally is kept through any commands. -/
theorem exists_tallies (i : Interpreter) (commands : List Command) :
    ∃ done rest deeds, Tallies i commands (Repl.obeyAll { interpreter := i } commands) done rest
      deeds := by
  induction commands using List.reverseRecOn with
  | nil => exact ⟨[], [], [], .start i⟩
  | append_singleton commands command ih =>
    obtain ⟨done, rest, deeds, h⟩ := ih
    rw [obeyAll_concat]
    exact h.obey command

/-- **The state of a terminal after any lines.**  The lines that belong to entries fall into
entries in one way, and the state agrees with it, whatever comes of running them.  The prompt asks
for more if and only if something is pending.  What is pending ends with a line end, and to look at
it gives it back without the line end, as an entry that goes on.  The lines of entries are counted,
the number of the entry that has begun last is that of its first line, and the interpreter has run
the complete entries in order, each of them once, but for those that are empty. -/
theorem fed_tallies (i : Interpreter) (lines : List String) :
    ∃ done rest deeds, Tallies i (lines.map Command.ofLine) (fed i lines) done rest deeds
      ∧ (∀ done' rest', Entry.Division ((lines.map Command.ofLine).filterMap Command.entered?)
        done' rest' → done' = done ∧ rest' = rest)
      ∧ ((fed i lines).pending ≠ [] ↔ rest ≠ [])
      ∧ ((fed i lines).prompt = .secondary ↔ (fed i lines).pending ≠ [])
      ∧ ((fed i lines).pending ≠ [] → ∃ text, (fed i lines).pending = text ++ ['\n']
        ∧ Entry.ofText (fed i lines).pending = ⟨text, true⟩) := by
  obtain ⟨done, rest, deeds, h⟩ := exists_tallies i (lines.map Command.ofLine)
  rw [← fed_eq] at h
  have hpending : (fed i lines).pending ≠ [] ↔ rest ≠ [] := not_congr h.pending_eq_nil_iff
  refine ⟨done, rest, deeds, h, fun _ _ => h.division.unique, hpending, ?_, ?_⟩
  · rw [hpending, h.prompt]
    by_cases hrest : rest = []
    · simp [hrest]
    · simp [hrest]
  · intro hne
    have hcontinues := h.division.goesOn rest (List.prefix_refl _) (hpending.mp hne)
    refine ⟨(Entry.ofLines rest).text, ?_, ?_⟩
    · rw [h.pending, Entry.pendingOf_eq hcontinues]
    · rw [h.pending, Entry.ofText_pendingOf_self, ← hcontinues]

end Repl

end LoxLang
