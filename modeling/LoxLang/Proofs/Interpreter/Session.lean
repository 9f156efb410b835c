import LoxLang.Interpreter
import LoxLang.Proofs.Machine.Effects
import LoxLang.Proofs.Machine.Mirror
import LoxLang.Proofs.Program.Descent
import LoxLang.Proofs.Program.Nesting
import LoxLang.Proofs.Token.Position
import Mathlib.Data.List.Nodup

/-!
# Sessions

An interpreter takes texts one after the other, and each finds what the earlier ones have
left behind: their functions, their values and the distances of their names.  What holds
of a single text holds all along because no position is used twice.  The constructs and
the names of all texts are told apart by their positions, and the machine stays sound with
respect to all that was analyzed so far.

## Main definitions

* `Run` — a text that an interpreter takes.
* `Run.tokens`, `Run.occurrences`, `Run.visits` — its tokens, what occurs in it, and the
  visits of its analysis.
* `Interpreter.meanwhile` — what may happen between two texts.
* `Reached` — the interpreters that are reached by taking texts.
* `Session` — what holds of the machine of such an interpreter.

## Main results

* `Interpreter.process_cases` — what taking a text can do.
* `Reached.session` — what holds in every session.
-/

namespace LoxLang

/-! ### Texts -/

/-- A text that an interpreter takes. -/
structure Run where
  /-- The interpreter that takes the text. -/
  before : Interpreter
  /-- The text. -/
  source : String
  /-- The number of its first line. -/
  line : Int

namespace Run

/-- The tokens of the text, the one for its end included. -/
def tokens (r : Run) : List Token :=
  (Lexed.ofText r.source r.line r.before.nextPosition).allTokens

/-- The interpreter when the text has been read. -/
def read (r : Run) : Interpreter := (r.before.read r.source r.line).1

/-- The program that the text is read as, if it is read without error. -/
def program? (r : Run) : Option Program := (r.before.read r.source r.line).2

/-- What occurs in the program. -/
def occurrences (r : Run) : List Occurrence := r.program?.elim [] Program.occurrences

/-- The constructs of the program that open scopes. -/
def sites (r : Run) : List Site :=
  r.occurrences.filterMap fun o =>
    match o.item with
    | .opens site => some site
    | _ => none

/-- The visits of the analysis of the program. -/
def visits (r : Run) : List Visit :=
  r.program?.elim [] fun program =>
    (Analysis.ofProgram program r.before.machine.distances).visits.toList

/-- The interpreter after the text, and how the work on it ended. -/
def result (r : Run) : Interpreter × Outcome := r.before.process r.source r.line

/-- The fault with which running the program ends, if it is run and fails. -/
def fault? (r : Run) : Option Fault :=
  match r.before.read r.source r.line with
  | (_, none) => none
  | (i, some program) =>
      match i.analyze program with
      | (i, .finished true) =>
          match runProgram i.limits program i.machine with
          | .ok .. => none
          | .error f _ => some f
      | _ => none

/-- The position at which the next text starts. -/
def next (r : Run) : Nat := r.before.nextPosition + r.source.length + 1

end Run

/-- An entry that an interpreter takes once it has prepared for it. -/
def Interpreter.entry (i : Interpreter) (source : String) (line : Int) : Run :=
  ⟨i.expect source line, source, line⟩

/-- An interpreter takes a text: an entry, or its file. -/
inductive Interpreter.Takes (i : Interpreter) : Run → Prop
  /-- An entry. -/
  | entry (source : String) (line : Int) : i.Takes (i.entry source line)
  /-- The file. -/
  | file {source : String} (hsource : i.source = some source) (line : Int) :
      i.Takes ⟨i, source, line⟩

theorem Interpreter.run_eq_result (i : Interpreter) (source : String) (line : Int) :
    i.run source line = (i.entry source line).result := rfl

/-- The interpreter after something else has happened between two texts: the log has taken
notice of it, something was printed or what was printed was taken away, and time has passed. -/
def Interpreter.meanwhile (i : Interpreter) (log : Log) (output : String) (clock : Clock) :
    Interpreter :=
  { i with log, machine := { i.machine with output, clock } }

/-- The interpreters that are reached by taking texts, within bounds on the depth and on the
rounds of loops.  The clock may say anything, and between two texts anything may be written. -/
inductive Reached (depth rounds : Nat) : List Run → Interpreter → Prop
  /-- An interpreter that was started. -/
  | start {log log' : Log} {path : String} {interactive : Bool}
      {contents? : String → Option (List UInt8)} {clock : Clock} {i : Interpreter}
      (h : Interpreter.start log path interactive contents? clock = (log', .ok i)) :
      Reached depth rounds [] { i with limits := { depth, rounds } }
  /-- An interpreter that took one more text. -/
  | take {runs : List Run} {i : Interpreter} {r : Run} (h : Reached depth rounds runs i)
      (hr : i.Takes r) : Reached depth rounds (runs ++ [r]) r.result.1
  /-- An interpreter between two texts. -/
  | meanwhile {runs : List Run} {i : Interpreter} (h : Reached depth rounds runs i) (log : Log)
      (output : String) (clock : Clock) : Reached depth rounds runs (i.meanwhile log output clock)

/-- A terminal before its first entry. -/
def Interpreter.terminal (depth rounds : Nat) : Interpreter where
  log := { settings := { fatal := false } }
  machine := .initial default
  limits := { depth, rounds }

theorem Reached.terminal (depth rounds : Nat) :
    Reached depth rounds [] (.terminal depth rounds) := by
  have hstart : Interpreter.start {} entryPath true (fun _ => none) default
      = ({ settings := { fatal := false } },
          .ok { log := { settings := { fatal := false } }, machine := .initial default }) := by
    rw [Interpreter.start, if_pos rfl]
    rfl
  exact .start hstart

/-! ### The stages -/

namespace Interpreter

variable {i : Interpreter} {source : String} {line : Int} {program : Program}

/-- A text that is read without error is formed by its tokens. -/
theorem derives_of_read (h : (i.read source line).2 = some program) :
    Derives (.declarations program) (Lexed.ofText source line i.nextPosition).tokens := by
  unfold read at h
  dsimp only at h
  split at h
  · cases h
  · next hclean =>
    cases h
    rw [Bool.not_eq_true, Log.hadError_trace, Log.hadError_noteSyntaxFaults_eq_false] at hclean
    exact Program.ofTokens_derives hclean.2

/-- The analysis of a program never loses track of the scopes; it succeeds only if there is
no fault. -/
theorem analyze_outcome (i : Interpreter) (program : Program) :
    (i.analyze program).2 = .finished (!(i.analyze program).1.log.hadError)
      ∧ ((i.analyze program).1.log.hadError = false →
        (Analysis.ofProgram program i.machine.distances).Clean) := by
  obtain ⟨vs, hwalk⟩ := Analysis.walked_ofProgram program i.machine.distances
  refine ⟨?_, fun hclean => ?_⟩
  · unfold analyze
    dsimp only
    rw [if_neg (by rw [hwalk.lost_eq]; exact Bool.false_ne_true)]
  · unfold analyze at hclean
    rw [Log.hadError_trace, Log.hadError_noteFindings_eq_false] at hclean
    exact hclean.2

/-- What taking a text can do, within any limits.  It is not read, and nothing happens; or
it is read and analyzed; or it is also run. -/
theorem process_cases (r : Run) :
    (r.program? = none ∧ r.fault? = none
        ∧ ∃ log, ∀ limits : Limits, { r.before with limits }.process r.source r.line
          = ({ r.before with limits, log, nextPosition := r.next }, .finished false))
      ∨ ∃ program log, r.program? = some program
        ∧ let analysis := Analysis.ofProgram program r.before.machine.distances
          let analyzed : Interpreter :=
            { r.before with
              log
              nextPosition := r.next
              machine := { r.before.machine with distances := analysis.distances } }
          (r.fault? = none
              ∧ ∀ limits : Limits, { r.before with limits }.process r.source r.line
                = ({ analyzed with limits }, .finished false))
            ∨ analysis.Clean
              ∧ (∀ limits : Limits, { r.before with limits }.process r.source r.line
                = { analyzed with limits }.execute program)
              ∧ r.fault? = match runProgram r.before.limits program analyzed.machine with
                | .ok .. => none
                | .error f _ => some f := by
  -- the limits play no part before the program is run
  have hread : ∀ limits : Limits, { r.before with limits }.read r.source r.line
      = ({ r.read with limits }, r.program?) := fun _ => rfl
  cases hprogram : r.program? with
  | none =>
    rw [hprogram] at hread
    refine .inl ⟨rfl, ?_, r.read.log, fun limits => ?_⟩
    · rw [Run.fault?, show r.before.read r.source r.line = _ from hread r.before.limits]
    · rw [process, hread]
      rfl
  | some program =>
    rw [hprogram] at hread
    obtain ⟨houtcome, hclean⟩ := analyze_outcome r.read program
    have hanalyze : ∀ limits : Limits, { r.read with limits }.analyze program
        = ({ (r.read.analyze program).1 with limits },
          .finished (!(r.read.analyze program).1.log.hadError)) := by
      intro limits
      rw [← houtcome]
      rfl
    have hfault : r.fault? = match { r.read with limits := r.before.limits }.analyze program with
        | (i, .finished true) =>
            match runProgram i.limits program i.machine with
            | .ok .. => none
            | .error f _ => some f
        | _ => none := by
      rw [Run.fault?, show r.before.read r.source r.line = _ from hread r.before.limits]
    cases herror : (r.read.analyze program).1.log.hadError with
    | true =>
      refine .inr ⟨program, (r.read.analyze program).1.log, rfl,
        .inl ⟨?_, fun limits => ?_⟩⟩
      · rw [hfault, hanalyze, herror]
        rfl
      · rw [process, hread]
        dsimp only
        rw [hanalyze, herror]
        rfl
    | false =>
      refine .inr ⟨program, (r.read.analyze program).1.log.trace
        "interpret" r.before.path, rfl, .inr ⟨hclean herror, fun limits => ?_, ?_⟩⟩
      · rw [process, hread]
        dsimp only
        rw [hanalyze, herror]
        rfl
      · rw [hfault, hanalyze, herror]
        rfl

end Interpreter

/-- If a program runs in the same way within other limits, then so does all the work on its
text. -/
theorem Run.process_eq {r : Run} {limits : Limits}
    (h : ∀ program, r.program? = some program →
      let analysis := Analysis.ofProgram program r.before.machine.distances
      let m := { r.before.machine with distances := analysis.distances }
      analysis.Clean → runProgram limits program m = runProgram r.before.limits program m) :
    { r.before with limits }.process r.source r.line
      = ({ r.result.1 with limits }, r.result.2) := by
  rcases Interpreter.process_cases r with ⟨-, -, log, hprocess⟩ | ⟨program, log, hsome, hrest⟩
  · have hresult : r.result = _ := hprocess r.before.limits
    rw [hprocess, hresult]
  rcases hrest with ⟨-, hprocess⟩ | ⟨hclean, hprocess, -⟩
  · -- the program is not run
    have hresult : r.result = _ := hprocess r.before.limits
    rw [hprocess, hresult]
  · have hresult : r.result = _ := hprocess r.before.limits
    have hrun := h program hsome hclean
    rw [hprocess, hresult]
    unfold Interpreter.execute
    dsimp only at hrun ⊢
    rw [hrun]
    cases runProgram r.before.limits program _ with
    | ok => rfl
    | error f => cases f <;> rfl

/-- The machine after a text has the store from before it, or it is that with which the run of
the program ended. -/
theorem Run.machine_cases (r : Run) :
    r.result.1.machine.store = r.before.machine.store
      ∨ ∃ program, r.program? = some program
        ∧ let analysis := Analysis.ofProgram program r.before.machine.distances
          analysis.Clean
            ∧ EndsIn (runProgram r.before.limits program)
              { r.before.machine with distances := analysis.distances } r.result.1.machine := by
  rcases Interpreter.process_cases r with ⟨-, -, log, hprocess⟩ | ⟨program, log, hsome, hrest⟩
  · have hresult : r.result = _ := hprocess r.before.limits
    rw [hresult]
    exact .inl rfl
  rcases hrest with ⟨-, hprocess⟩ | ⟨hclean, hprocess, -⟩
  · have hresult : r.result = _ := hprocess r.before.limits
    rw [hresult]
    exact .inl rfl
  · have hresult : r.result = _ := hprocess r.before.limits
    refine .inr ⟨program, hsome, hclean, ?_⟩
    rw [hresult]
    unfold Interpreter.execute
    dsimp only
    cases hr : runProgram r.before.limits program _ with
    | ok a m' => exact .inl ⟨a, hr⟩
    | error f m' => cases f <;> exact .inr ⟨_, hr⟩

/-! ### A single text -/

namespace Run

variable {r : Run} {program : Program}

theorem occurrences_eq (h : r.program? = some program) : r.occurrences = program.occurrences := by
  rw [occurrences, h]
  rfl

/-- What occurs in a text was written with its tokens. -/
theorem writtenIn {o : Occurrence} (ho : o ∈ r.occurrences) : o.item.WrittenIn r.tokens := by
  cases h : r.program? with
  | none => simp [occurrences, h] at ho
  | some program =>
    rw [occurrences_eq h] at ho
    have hderives := Interpreter.derives_of_read h
    have hwritten := hderives.writtenIn o.item (List.mem_map_of_mem ho)
    exact Item.writtenIn_append.mpr (.inl hwritten)

/-- Each token of a text is used for one thing at most. -/
theorem count_position_le (r : Run) (k : Nat) :
    (r.occurrences.map fun o => o.item.position).count k
      ≤ ((Lexed.ofText r.source r.line r.before.nextPosition).tokens.map
          Token.position).count k := by
  cases h : r.program? with
  | none => simp [occurrences, h]
  | some program =>
    have hcount := (Interpreter.derives_of_read h).count_position_le k
    rw [Phrase.items, List.map_map] at hcount
    rw [occurrences_eq h]
    exact hcount

/-- No position is used twice in a text. -/
theorem nodup_positions (r : Run) : (r.occurrences.map fun o => o.item.position).Nodup :=
  List.nodup_iff_count_le_one.mpr fun k =>
    Nat.le_trans (r.count_position_le k) (List.nodup_iff_count_le_one.mp Lexed.nodup_positions k)

/-- What occurs in a text has positions of its own. -/
theorem position_of_mem {o : Occurrence} (ho : o ∈ r.occurrences) :
    r.before.nextPosition ≤ o.item.position ∧ o.item.position < r.next := by
  have hcount := r.count_position_le o.item.position
  have hpos : 0 < (r.occurrences.map fun o => o.item.position).count o.item.position :=
    List.count_pos_iff.mpr (List.mem_map_of_mem ho)
  obtain ⟨t, ht, heq⟩ := List.mem_map.mp (List.count_pos_iff.mp (Nat.lt_of_lt_of_le hpos hcount))
  have h₁ := Lexed.le_position_of_mem ht
  have h₂ := Lexed.position_lt_of_mem ht
  rw [← heq, next]
  omega

/-- The walk of the analysis over a text. -/
theorem walks (h : r.program? = some program) :
    Walks { distances := r.before.machine.distances } r.visits program.occurrences
      (Analysis.ofProgram program r.before.machine.distances) := by
  obtain ⟨vs, hwalk⟩ := Analysis.walked_ofProgram program r.before.machine.distances
  have hvisits : r.visits = vs := by
    rw [visits, h]
    exact hwalk.visits_eq
  rw [hvisits]
  exact hwalk

/-- A visited name is a token of the text. -/
theorem name_mem_tokens {v : Visit} (hv : v ∈ r.visits) : v.name ∈ r.tokens := by
  cases h : r.program? with
  | none => simp [visits, h] at hv
  | some program =>
    obtain ⟨o, ho, heq⟩ := (walks h).named v hv
    rw [← occurrences_eq h] at ho
    have hwritten := writtenIn ho
    rw [heq] at hwritten
    exact hwritten

/-- Each name of a text is visited once at most. -/
theorem once (r : Run) (k : Nat) :
    (r.visits.map fun v => v.name.position).count k
      ≤ (r.occurrences.map fun o => o.item.position).count k := by
  cases h : r.program? with
  | none => simp [visits, h]
  | some program =>
    rw [occurrences_eq h]
    exact (walks h).once k

/-- What occurs in a text without fault obeys the rules. -/
theorem rules_of_clean (h : r.program? = some program)
    (hclean : (Analysis.ofProgram program r.before.machine.distances).Clean) {o : Occurrence}
    (ho : o ∈ program.occurrences) : Rules r.visits r.tokens o := by
  have hpositions := r.nodup_positions
  rw [occurrences_eq h] at hpositions
  exact ⟨(walks h).checked hclean o ho, writtenIn ((occurrences_eq h).symm ▸ ho),
    Program.nodup_sites hpositions ho⟩

/-- What occurs in a program without fault obeys the rules of all texts up to it. -/
theorem rules_of_clean_append (runs : List Run) (h : r.program? = some program)
    (hclean : (Analysis.ofProgram program r.before.machine.distances).Clean) :
    ∀ o ∈ program.occurrences,
      Rules ((runs ++ [r]).flatMap Run.visits) ((runs ++ [r]).flatMap Run.tokens) o := by
  intro o ho
  have hrules := rules_of_clean h hclean ho
  simp only [List.flatMap_append, List.flatMap_singleton]
  exact hrules.mono (List.subset_append_right _ _) (List.subset_append_right _ _)

end Run

/-! ### All texts of a session -/

/-- The machine before any text is sound. -/
theorem Machine.at_initial (R : Occurrence → Prop) (clock : Clock) :
    (Machine.initial clock).At R .empty .top := by
  have hglobals : (Machine.initial clock).store.Chained 0 0 [.globals] := by
    have hframe : (Machine.initial clock).store.frames[0]?
        = some ⟨.globals, none, Table.empty.insert "clock" (some (.native 0))⟩ := rfl
    exact .root hframe rfl
  refine ⟨⟨?_, rfl⟩, hglobals⟩
  have hempty : (Store.newNative {} ⟨"clock", 0, .clock⟩).2.Sound R 0 :=
    (Store.Sound.empty R 0).newNative fun v h => by cases h
  have hframe : (#[⟨.globals, none, .empty⟩] : Array Frame)[0]? = some ⟨.globals, none, .empty⟩ :=
    rfl
  refine (hempty.pushFrame (.root hframe rfl) (fun hv => by simp at hv) fun h => by cases h).define
    (fun v hv => ?_) fun h => by cases h
  cases hv
  exact ⟨_, rfl⟩

/-- A machine stays sound whatever is printed and whatever the clock says. -/
theorem Machine.At.meanwhile {R : Occurrence → Prop} {D : Distances} {p : Place} {m : Machine}
    (h : m.At R D p) (output : String) (clock : Clock) :
    Machine.At R D p { m with output, clock } :=
  ⟨⟨h.sound, h.distances_eq⟩, h.chained⟩

/-- What holds of a machine that has run some texts, when the next one is to start at the
position `next`. -/
structure Session (runs : List Run) (m : Machine) (next : Nat) : Prop where
  /-- The machine is sound with respect to all that was analyzed, and its current frame is
  the global one. -/
  at_top : m.At (Rules (runs.flatMap Run.visits) (runs.flatMap Run.tokens)) m.distances .top
  /-- The distances are those of all visits. -/
  distances_eq : m.distances = Distances.record .empty (runs.flatMap Run.visits)
  /-- All texts so far come before the next one. -/
  next_le : ∀ r ∈ runs, r.next ≤ next
  /-- Each text starts behind those before it. -/
  apart : runs.Pairwise fun r r' => r.next ≤ r'.before.nextPosition
  /-- No position is used twice. -/
  nodup : ((runs.flatMap Run.occurrences).map fun o => o.item.position).Nodup
  /-- Each name is visited once at most. -/
  once : ∀ k, ((runs.flatMap Run.visits).map fun v => v.name.position).count k
    ≤ ((runs.flatMap Run.occurrences).map fun o => o.item.position).count k

namespace Session

variable {runs : List Run} {m : Machine} {next : Nat} {r : Run}

/-- All positions so far come before the next text. -/
theorem position_lt (h : Session runs m next) :
    ∀ o ∈ runs.flatMap Run.occurrences, o.item.position < next := by
  intro o ho
  obtain ⟨r, hr, ho⟩ := List.mem_flatMap.mp ho
  exact Nat.lt_of_lt_of_le (Run.position_of_mem ho).2 (h.next_le r hr)

/-- A position belongs to one text. -/
theorem eq_of_position (h : Session runs m next) {r r' : Run} (hr : r ∈ runs) (hr' : r' ∈ runs)
    {k : Nat} (hk : r.before.nextPosition ≤ k ∧ k < r.next)
    (hk' : r'.before.nextPosition ≤ k ∧ k < r'.next) : r' = r := by
  obtain ⟨a, ha, rfl⟩ := List.getElem_of_mem hr
  obtain ⟨b, hb, rfl⟩ := List.getElem_of_mem hr'
  have hapart := List.pairwise_iff_getElem.mp h.apart
  rcases Nat.lt_trichotomy a b with hlt | rfl | hlt
  · have hle := hapart a b ha hb hlt
    omega
  · rfl
  · have hle := hapart b a hb ha hlt
    omega

/-- The names of all texts are told apart by their positions. -/
theorem nodup_visits (h : Session runs m next) :
    ((runs.flatMap Run.visits).map fun v => v.name.position).Nodup :=
  List.nodup_iff_count_le_one.mpr fun k =>
    Nat.le_trans (h.once k) (List.nodup_iff_count_le_one.mp h.nodup k)

/-- The distance at each visit is what is recorded. -/
theorem find?_distances (h : Session runs m next) :
    ∀ v ∈ runs.flatMap Run.visits, m.distances.find? v.name.position = v.distance := by
  intro v hv
  rw [h.distances_eq]
  exact Distances.find?_record_of_mem h.nodup_visits hv rfl

/-- The constructs of all texts are told apart. -/
theorem nodup_sites (h : Session runs m next) : (runs.flatMap Run.sites).Nodup := by
  have hsites : runs.flatMap Run.sites
      = (runs.flatMap Run.occurrences).filterMap fun o =>
          match o.item with
          | .opens site => some site
          | _ => none := by
    rw [List.filterMap_flatMap]
    rfl
  rw [hsites]
  have hpairwise := List.pairwise_map.mp h.nodup
  refine List.Pairwise.filterMap _ (fun o o' hne site hsite site' hsite' heq => hne ?_) hpairwise
  cases hi : o.item <;> simp [hi] at hsite
  cases hi' : o'.item <;> simp [hi'] at hsite'
  rw [hsite, hsite', heq]

/-- Reading and analyzing one more text. -/
theorem take (h : Session runs r.before.machine r.before.nextPosition) :
    Session (runs ++ [r])
      { r.before.machine with distances := r.before.machine.distances.record r.visits } r.next where
  at_top := by
    refine ⟨⟨h.at_top.sound.imp fun o ho => ?_, rfl⟩, h.at_top.chained⟩
    simp only [List.flatMap_append]
    exact ho.mono (List.subset_append_left _ _) (List.subset_append_left _ _)
  distances_eq := by
    rw [List.flatMap_append, Distances.record_append, ← h.distances_eq, List.flatMap_singleton]
  next_le r' hr' := by
    rcases List.mem_append.mp hr' with hr' | hr'
    · have hle := h.next_le r' hr'
      show r'.next ≤ r.before.nextPosition + r.source.length + 1
      omega
    · exact Nat.le_of_eq (by rw [List.mem_singleton.mp hr'])
  apart := by
    refine List.pairwise_append.mpr ⟨h.apart, List.pairwise_singleton _ _, ?_⟩
    intro r' hr' r'' hr''
    rw [List.mem_singleton.mp hr'']
    exact h.next_le r' hr'
  nodup := by
    rw [List.flatMap_append, List.flatMap_singleton, List.map_append]
    refine List.nodup_append.mpr ⟨h.nodup, r.nodup_positions, ?_⟩
    -- the text starts behind all that occurred before
    intro k hk k' hk' heq
    obtain ⟨o, ho, rfl⟩ := List.mem_map.mp hk
    obtain ⟨o', ho', rfl⟩ := List.mem_map.mp hk'
    have h₁ := h.position_lt o ho
    have h₂ := (Run.position_of_mem ho').1
    omega
  once k := by
    have h₁ := h.once k
    have h₂ := r.once k
    simp only [List.flatMap_append, List.flatMap_singleton, List.map_append, List.count_append]
    omega

/-- The machine when one more text has been analyzed. -/
theorem analyzed (h : Session runs r.before.machine r.before.nextPosition) {program : Program}
    (hprogram : r.program? = some program) :
    Session (runs ++ [r])
      { r.before.machine with
        distances := (Analysis.ofProgram program r.before.machine.distances).distances }
      r.next := by
  rw [(Run.walks hprogram).distances_eq]
  exact h.take

/-- A session goes on as its machine changes. -/
theorem leads {m' : Machine} (h : Session runs m next)
    (hl : Leads (Rules (runs.flatMap Run.visits) (runs.flatMap Run.tokens)) m m') :
    Session runs m' next where
  at_top := by
    rw [hl.distances_eq]
    exact hl.at h.at_top
  distances_eq := hl.distances_eq.trans h.distances_eq
  next_le := h.next_le
  apart := h.apart
  nodup := h.nodup
  once := h.once

theorem meanwhile (h : Session runs m next) (output : String) (clock : Clock) :
    Session runs { m with output, clock } next :=
  { h with at_top := h.at_top.meanwhile output clock }

/-- Running a program that obeys the rules.  It does not matter how names are looked up
where frames do not mirror scopes. -/
theorem runProgram (h : Session runs m next) {limits : Limits} {n' : Naming} {program : Program}
    (hnaming : limits.naming = .byDistance)
    (hvalue : ∀ m t, Mirrors (runs.flatMap Run.visits) m t →
      n'.value m t = Naming.byDistance.value m t)
    (htarget : ∀ m t, Mirrors (runs.flatMap Run.visits) m t →
      n'.target m t = Naming.byDistance.target m t)
    (hprogram : ∀ o ∈ program.occurrences,
      Rules (runs.flatMap Run.visits) (runs.flatMap Run.tokens) o) :
    LoxLang.runProgram { limits with naming := n' } program m = LoxLang.runProgram limits program m
      ∧ match LoxLang.runProgram limits program m with
        | .ok _ m' => Session runs m' next
        | .error f m' => Session runs m' next ∧ Blamed (runs.flatMap Run.tokens) f := by
  have laws : Laws _ (Blamed (runs.flatMap Run.tokens)) m.distances limits.naming n' :=
    hnaming ▸ laws_of_visits h.find?_distances hvalue htarget
  obtain ⟨heq, hrun⟩ := laws.runProgram_runs program h.at_top hprogram
  refine ⟨heq, ?_⟩
  cases hr : LoxLang.runProgram limits program m with
  | ok _ m' =>
    rw [hr] at hrun
    exact h.leads hrun.1
  | error f m' =>
    rw [hr] at hrun
    exact ⟨h.leads hrun.1, hrun.2⟩

/-- The machine before any text. -/
theorem initial (clock : Clock) : Session [] (Machine.initial clock) 0 where
  at_top := Machine.at_initial _ clock
  distances_eq := rfl
  next_le _ hr := absurd hr List.not_mem_nil
  apart := .nil
  nodup := List.nodup_nil
  once _ := Nat.le_refl _

end Session

/-! ### Every session -/

/-- How the work on a text may end: with success or without, or because a bound is
reached. -/
def Outcome.Proper (outcome : Outcome) : Prop :=
  (∃ success, outcome = .finished success) ∨ outcome = .aborted .overflow
    ∨ outcome = .aborted .endless

theorem Outcome.Proper.ne_aborted {outcome : Outcome} {f : Fault} (h : outcome.Proper)
    (hoverflow : f ≠ .overflow) (hendless : f ≠ .endless) : outcome ≠ .aborted f := by
  rintro rfl
  rcases h with ⟨success, h⟩ | h | h <;> cases h
  · exact hoverflow rfl
  · exact hendless rfl

/-- Taking a text in a session.  It does not matter how names are looked up where frames do
not mirror scopes. -/
theorem Session.result {runs : List Run} {r : Run}
    (h : Session runs r.before.machine r.before.nextPosition) (n' : Naming)
    (hnaming : r.before.limits.naming = .byDistance)
    (hvalue : ∀ m t, Mirrors ((runs ++ [r]).flatMap Run.visits) m t →
      n'.value m t = Naming.byDistance.value m t)
    (htarget : ∀ m t, Mirrors ((runs ++ [r]).flatMap Run.visits) m t →
      n'.target m t = Naming.byDistance.target m t) :
    Session (runs ++ [r]) r.result.1.machine r.result.1.nextPosition
      ∧ r.result.1.limits = r.before.limits ∧ r.result.2.Proper
      ∧ (∀ f, r.fault? = some f → Blamed ((runs ++ [r]).flatMap Run.tokens) f)
      ∧ { r.before with limits := { r.before.limits with naming := n' } }.process r.source r.line
        = ({ r.result.1 with limits := { r.before.limits with naming := n' } }, r.result.2) := by
  have htake := h.take
  have hnothing : ∀ f, none = some f → Blamed ((runs ++ [r]).flatMap Run.tokens) f :=
    fun _ hf => by cases hf
  rcases Interpreter.process_cases r with
    ⟨hnone, hfault, log, hprocess⟩ | ⟨program, log, hsome, hrest⟩
  · -- the text could not be read, so there is nothing to analyze
    have hresult : r.result = _ := hprocess r.before.limits
    have hvisits : r.visits = [] := by rw [Run.visits, hnone]; rfl
    rw [hvisits] at htake
    rw [hresult, hprocess, hfault]
    exact ⟨htake, rfl, .inl ⟨false, rfl⟩, hnothing, rfl⟩
  · rw [← (Run.walks hsome).distances_eq] at htake
    rcases hrest with ⟨hfault, hprocess⟩ | ⟨hclean, hprocess, hfault⟩
    · -- the analysis found a fault, and its distances are kept all the same
      have hresult : r.result = _ := hprocess r.before.limits
      rw [hresult, hprocess, hfault]
      exact ⟨htake, rfl, .inl ⟨false, rfl⟩, hnothing, rfl⟩
    · obtain ⟨heq, hrun⟩ := htake.runProgram hnaming hvalue htarget
        (Run.rules_of_clean_append runs hsome hclean)
      have hresult : r.result = _ := hprocess r.before.limits
      rw [hresult, hprocess, hfault]
      unfold Interpreter.execute
      dsimp only
      rw [heq]
      cases hr : LoxLang.runProgram r.before.limits program _ with
      | ok _ m' =>
        rw [hr] at hrun
        exact ⟨hrun, rfl, .inl ⟨true, rfl⟩, hnothing, rfl⟩
      | error f m' =>
        rw [hr] at hrun
        obtain ⟨hsession, hblamed⟩ := hrun
        have hfaults : ∀ f', some f = some f' → Blamed ((runs ++ [r]).flatMap Run.tokens) f' := by
          rintro _ ⟨⟩
          exact hblamed
        rcases hblamed with rfl | rfl | ⟨cause, t, rfl, -⟩
        · exact ⟨hsession, rfl, .inr (.inl rfl), hfaults, rfl⟩
        · exact ⟨hsession, rfl, .inr (.inr rfl), hfaults, rfl⟩
        · exact ⟨hsession, rfl, .inl ⟨false, rfl⟩, hfaults, rfl⟩

/-- Preparing for a text changes the log alone. -/
theorem Interpreter.Takes.before_eq {i : Interpreter} {r : Run} (hr : i.Takes r) :
    r.before.machine = i.machine ∧ r.before.nextPosition = i.nextPosition
      ∧ r.before.limits = i.limits := by
  cases hr with
  | entry source line =>
    unfold Interpreter.entry Interpreter.expect
    split <;> exact ⟨rfl, rfl, rfl⟩
  | file _ line => exact ⟨rfl, rfl, rfl⟩

/-- A started interpreter has the machine before any text, and the usual limits. -/
theorem Interpreter.start_eq_ok {log log' : Log} {path : String} {interactive : Bool}
    {contents? : String → Option (List UInt8)} {clock : Clock} {i : Interpreter}
    (h : Interpreter.start log path interactive contents? clock = (log', .ok i)) :
    i.machine = Machine.initial clock ∧ i.nextPosition = 0 ∧ i.limits = {} := by
  unfold Interpreter.start at h
  dsimp only at h
  split at h
  · split at h
    · cases h
      exact ⟨rfl, rfl, rfl⟩
    · cases h
  · split at h
    · cases h
    · cases h
      exact ⟨rfl, rfl, rfl⟩

/-- What holds in every session. -/
theorem Reached.session {depth rounds : Nat} {runs : List Run} {i : Interpreter}
    (h : Reached depth rounds runs i) :
    Session runs i.machine i.nextPosition ∧ i.limits = { depth, rounds } := by
  induction h with
  | start h =>
    obtain ⟨hmachine, hposition, -⟩ := Interpreter.start_eq_ok h
    refine ⟨?_, rfl⟩
    show Session [] _ _
    rw [hmachine, hposition]
    exact .initial _
  | @take runs i r _ hr ih =>
    obtain ⟨hmachine, hposition, hlimits⟩ := hr.before_eq
    obtain ⟨hsession, hi⟩ := ih
    rw [← hmachine, ← hposition] at hsession
    have hnaming : r.before.limits.naming = .byDistance := by rw [hlimits, hi]
    obtain ⟨hsession', hlimits', -⟩ :=
      hsession.result .byDistance hnaming (fun _ _ _ => rfl) (fun _ _ _ => rfl)
    exact ⟨hsession', by rw [hlimits', hlimits, hi]⟩
  | meanwhile _ log output clock ih => exact ⟨ih.1.meanwhile output clock, ih.2⟩

/-- A session in which a text is taken. -/
theorem Reached.session_before {depth rounds : Nat} {runs : List Run} {i : Interpreter} {r : Run}
    (h : Reached depth rounds runs i) (hr : i.Takes r) :
    Session runs r.before.machine r.before.nextPosition
      ∧ r.before.limits = { depth, rounds } := by
  obtain ⟨hmachine, hposition, hlimits⟩ := hr.before_eq
  rw [hmachine, hposition, hlimits]
  exact h.session

/-- The work on a text of a session ends as it may. -/
theorem Reached.proper {depth rounds : Nat} {runs : List Run} {i : Interpreter} {r : Run}
    (h : Reached depth rounds runs i) (hr : i.Takes r) : r.result.2.Proper := by
  obtain ⟨hsession, hlimits⟩ := h.session_before hr
  obtain ⟨-, -, hproper, -⟩ := hsession.result .byDistance (by rw [hlimits])
    (fun _ _ _ => rfl) (fun _ _ _ => rfl)
  exact hproper

/-- No look-up of a session is in vain.  This is what a look-up under a guard would be that does
not hold. -/
theorem Reached.ne_dangling {depth rounds : Nat} {runs : List Run} {i : Interpreter} {r : Run}
    (h : Reached depth rounds runs i) (hr : i.Takes r) : r.result.2 ≠ .aborted .dangling :=
  (h.proper hr).ne_aborted (by simp) (by simp)

end LoxLang
