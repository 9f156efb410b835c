import LoxLang.Proofs.Interpreter.Verdict
import LoxLang.Proofs.Machine.Distances
import LoxLang.Proofs.Machine.Sequence
import LoxLang.Proofs.Program.Completeness
import LoxLang.Proofs.Scope.Following
import LoxLang.Proofs.Token.Joining

/-!
# Splitting a text over entries

A text may be given to a terminal at once or, cut at a line end, as two entries.  If the
first entry succeeds and there is nothing to say against reading and analyzing the second,
it comes to the same.

Each stage sees to its part of this.  The tokens of the whole are those of the parts, with
the same lines and positions; they form the declarations of the first part followed by those
of the second; and the second program is analyzed as if it were alone.  What is different is
when the second program is analyzed.  If the text is given at once, its distances are known
while the first program runs.  They do not matter there, since they are recorded for other
positions.

## Main definitions

* `Run.Accepted` — a text is read as a program that may be run.

## Main results

* `Session.runProgram_goingBy` — more distances do not change what a program does.
* `Run.Joins.accepted` — what a text is read as follows from its parts.
* `Interpreter.run_join` — **a text does the same at once and as two entries.**
-/

namespace LoxLang

/-! ### Programs one after the other -/

theorem Derives.append {program program' : Program} {ts us : List Token}
    (h : Derives (.declarations program) ts) (h' : Derives (.declarations program') us) :
    Derives (.declarations (program ++ program')) (ts ++ us) := by
  induction program generalizing ts with
  | nil =>
    cases h
    exact h'
  | cons s ss ih =>
    cases h with
    | declarationsCons hs hss =>
      rw [List.append_assoc]
      exact .declarationsCons hs (ih hss)

/-- More distances do not change what a program does, as long as those of its own names are
the same. -/
theorem Session.runProgram_goingBy {runs : List Run} {m : Machine} {next : Nat}
    (h : Session runs m next) {limits : Limits} {program : Program} {D : Distances}
    (hnaming : limits.naming = .byDistance)
    (hprogram : ∀ o ∈ program.occurrences,
      Rules (runs.flatMap Run.visits) (runs.flatMap Run.tokens) o)
    (hD : ∀ v ∈ runs.flatMap Run.visits, D.find? v.name.position = v.distance) :
    LoxLang.runProgram limits program (m.goingBy D)
      = goingBy D (LoxLang.runProgram limits program m) := by
  have hagree : ∀ m t, Mirrors (runs.flatMap Run.visits) m t →
      (Naming.fixed D).value m t = Naming.byDistance.value m t
        ∧ (Naming.fixed D).target m t = Naming.byDistance.target m t := by
    rintro m t ⟨v, hv, rfl, -, -, hdistance, -⟩
    exact Naming.fixed_eq (hdistance.trans (hD v hv).symm)
  -- with either distances, names may as well be looked up by the new ones
  have hold := (h.runProgram hnaming (fun m t ht => (hagree m t ht).1)
    (fun m t ht => (hagree m t ht).2) hprogram).1
  have hat : Machine.At (Rules (runs.flatMap Run.visits) (runs.flatMap Run.tokens)) D .top
      (m.goingBy D) := ⟨⟨h.at_top.sound, rfl⟩, h.at_top.chained⟩
  have laws : Laws (Rules (runs.flatMap Run.visits) (runs.flatMap Run.tokens))
      (Blamed (runs.flatMap Run.tokens)) D limits.naming (.fixed D) :=
    hnaming ▸ laws_of_visits hD (fun m t ht => (hagree m t ht).1)
      (fun m t ht => (hagree m t ht).2)
  have hnew := (laws.runProgram_runs program hat hprogram).1
  have hblind : Blind (LoxLang.runProgram { limits with naming := .fixed D } program) :=
    runProgram_blind (Naming.fixed_blind D) program
  rw [← hnew, ← hold]
  exact hblind m D

/-! ### Texts that may be run -/

namespace Run

/-- The tokens of a text, its end and what is no part of a program. -/
def lexed (r : Run) : Lexed := Lexed.ofText r.source r.line r.before.nextPosition

/-- The analysis of a program that a text is read as. -/
def analysis (r : Run) (program : Program) : Analysis :=
  .ofProgram program r.before.machine.distances

/-- A text is read as a program, and there is nothing against running it. -/
structure Accepted (r : Run) (program : Program) : Prop where
  faults_eq : r.lexed.faults = []
  derives : Derives (.declarations program) r.lexed.tokens
  clean : (r.analysis program).Clean

variable {r : Run} {program : Program}

theorem syntaxErrors_eq_nil_iff :
    r.syntaxErrors = [] ↔ r.lexed.faults = []
      ∧ ∃ program, Derives (.declarations program) r.lexed.tokens := by
  simp only [syntaxErrors, List.append_eq_nil_iff, List.map_eq_nil_iff, lexed]
  refine and_congr_right fun _ => ⟨fun h => ⟨_, Program.ofTokens_derives h⟩, ?_⟩
  rintro ⟨program, hderives⟩
  rw [Program.ofTokens_eq_iff.mpr hderives]

/-- A text is read as the program that its tokens form. -/
theorem program?_eq_some (h : r.before.log.Reports [] [] []) (hfaults : r.lexed.faults = [])
    (hderives : Derives (.declarations program) r.lexed.tokens) : r.program? = some program := by
  have hnone : r.program? ≠ none := by
    intro hnone
    exact (program?_eq_none h).mp hnone (syntaxErrors_eq_nil_iff.mpr ⟨hfaults, program, hderives⟩)
  have hparsed : Program.ofTokens r.lexed.tokens r.lexed.final = ⟨program, []⟩ :=
    Program.ofTokens_eq_iff.mpr hderives
  unfold lexed at hparsed
  unfold program? Interpreter.read at hnone ⊢
  simp only [hparsed] at hnone ⊢
  split at hnone
  · exact absurd rfl hnone
  · next hclean => rw [if_neg hclean]

theorem clean_iff (hprogram : r.program? = some program) :
    (r.analysis program).Clean ↔ r.scopeErrors = [] := by
  have hfindings : r.findings = (r.analysis program).findings.toList := by
    rw [findings, hprogram]
    rfl
  rw [scopeErrors, hfindings, List.filterMap_eq_nil_iff]
  constructor
  · intro hclean finding hmem
    cases finding with
    | fault f => exact absurd hmem (hclean f)
    | unused name token => rfl
  · intro hnone f hmem
    cases hnone _ hmem

/-- The texts that may be run are those without an error. -/
theorem staticErrors_eq_nil_iff (h : r.before.log.Reports [] [] []) :
    r.staticErrors = [] ↔ ∃ program, r.Accepted program := by
  rw [staticErrors, List.append_eq_nil_iff]
  constructor
  · rintro ⟨hreading, hscopes⟩
    obtain ⟨hfaults, program, hderives⟩ := syntaxErrors_eq_nil_iff.mp hreading
    have hprogram := program?_eq_some h hfaults hderives
    exact ⟨program, hfaults, hderives, (clean_iff hprogram).mpr hscopes⟩
  · rintro ⟨program, hfaults, hderives, hclean⟩
    have hprogram := program?_eq_some h hfaults hderives
    exact ⟨syntaxErrors_eq_nil_iff.mpr ⟨hfaults, program, hderives⟩,
      (clean_iff hprogram).mp hclean⟩

/-- A text that may be run is run. -/
theorem Accepted.result_eq (h : r.before.log.Reports [] [] []) (ha : r.Accepted program) :
    (∃ log, r.result = Interpreter.execute
        { r.before with
          log
          nextPosition := r.next
          machine := r.before.machine.goingBy (r.analysis program).distances } program)
      ∧ r.fault? = match runProgram r.before.limits program
          (r.before.machine.goingBy (r.analysis program).distances) with
        | .ok .. => none
        | .error f _ => some f := by
  have hprogram := program?_eq_some h ha.faults_eq ha.derives
  have hstatic := (staticErrors_eq_nil_iff h).mpr ⟨program, ha⟩
  have houtcome := (Run.reports h).2.2 hstatic
  rcases Interpreter.process_cases r with ⟨hnone, -⟩ | ⟨program', log, hprogram', hcases⟩
  · rw [hprogram] at hnone
    cases hnone
  · rw [hprogram] at hprogram'
    cases hprogram'
    rcases hcases with ⟨hfault, hprocess⟩ | ⟨-, hprocess, hfault⟩
    · -- a text that is not run has an error
      have hresult : r.result = _ := hprocess r.before.limits
      rw [hfault, hresult] at houtcome
      cases houtcome
    · exact ⟨⟨log, hprocess r.before.limits⟩, hfault⟩

end Run

/-! ### Texts joined at a line end -/

/-- A run takes at once the text that two others take one after the other. -/
structure Run.Joins (w r₁ r₂ : Run) : Prop where
  source_eq : w.source = r₁.source ++ "\n" ++ r₂.source
  line_eq : w.line = r₁.line
  line_eq' : r₂.line = r₁.line + r₁.source.toList.count '\n' + 1
  position_eq : w.before.nextPosition = r₁.before.nextPosition
  position_eq' : r₂.before.nextPosition = r₁.next
  machine_eq : w.before.machine = r₁.before.machine

/-- What a text is read as follows from its parts. -/
theorem Run.Joins.accepted {w r₁ r₂ : Run} {p₁ p₂ : Program} (hjoins : w.Joins r₁ r₂)
    (h₁ : r₁.Accepted p₁) (hdistances : r₂.before.machine.distances = (r₁.analysis p₁).distances)
    (h₂ : r₂.Accepted p₂) :
    w.Accepted (p₁ ++ p₂) ∧ (w.analysis (p₁ ++ p₂)).distances = (r₂.analysis p₂).distances := by
  have hlexed : w.lexed = r₁.lexed.append r₂.lexed := by
    unfold Run.lexed
    rw [hjoins.source_eq, hjoins.line_eq, hjoins.line_eq', hjoins.position_eq,
      hjoins.position_eq']
    exact Lexed.ofText_join h₁.faults_eq r₂.source
  have hanalysis : w.analysis (p₁ ++ p₂)
      = (r₂.analysis p₂).after (r₁.analysis p₁).findings (r₁.analysis p₁).visits := by
    unfold Run.analysis at hdistances ⊢
    rw [hdistances, hjoins.machine_eq]
    exact Analysis.ofProgram_append p₁ p₂ _
  refine ⟨⟨?_, ?_, ?_⟩, by rw [hanalysis]; rfl⟩
  · rw [hlexed]
    exact List.append_eq_nil_iff.mpr ⟨h₁.faults_eq, h₂.faults_eq⟩
  · rw [hlexed]
    exact h₁.derives.append h₂.derives
  · rw [hanalysis]
    intro f hf
    rw [Analysis.after, Array.toList_append, List.mem_append] at hf
    rcases hf with hf | hf
    · exact h₁.clean f hf
    · exact h₂.clean f hf

/-- How a program ends depends only on what running it does. -/
theorem Interpreter.execute_congr {i j : Interpreter} {program program' : Program}
    (h : runProgram i.limits program i.machine = runProgram j.limits program' j.machine) :
    (i.execute program).2 = (j.execute program').2
      ∧ (i.execute program).1.machine = (j.execute program').1.machine := by
  unfold execute
  rw [h]
  split <;> exact ⟨rfl, rfl⟩

theorem Interpreter.nextPosition_execute (i : Interpreter) (program : Program) :
    (i.execute program).1.nextPosition = i.nextPosition := by
  unfold execute
  split <;> rfl

/-- A program that ends with success is run to its end. -/
theorem Interpreter.runProgram_of_execute {i : Interpreter} {program : Program}
    (h : (i.execute program).2 = .finished true) :
    ∃ m, runProgram i.limits program i.machine = .ok () m
      ∧ (i.execute program).1 = { i with machine := m } := by
  unfold execute at h ⊢
  cases hrun : runProgram i.limits program i.machine with
  | ok _ m => exact ⟨m, rfl, rfl⟩
  | error f m =>
    rw [hrun] at h
    cases f <;> cases h

/-- The distances of a text that comes later leave alone what a program does. -/
theorem Session.runProgram_of_later {runs : List Run} {r₁ r₂ : Run} {p₁ p₂ : Program}
    {m₁ : Machine} (h : Session runs r₁.before.machine r₁.before.nextPosition)
    (hnaming : r₁.before.limits.naming = .byDistance)
    (hprogram₁ : r₁.program? = some p₁) (hclean₁ : (r₁.analysis p₁).Clean)
    (hrun : LoxLang.runProgram r₁.before.limits p₁
      (r₁.before.machine.goingBy (r₁.analysis p₁).distances) = .ok () m₁)
    (hmachine : r₂.before.machine = m₁) (hposition : r₂.before.nextPosition = r₁.next)
    (hprogram₂ : r₂.program? = some p₂) :
    m₁.distances = (r₁.analysis p₁).distances
      ∧ LoxLang.runProgram r₁.before.limits p₁
          (r₁.before.machine.goingBy (r₂.analysis p₂).distances)
        = .ok () (m₁.goingBy (r₂.analysis p₂).distances) := by
  have hsession : Session (runs ++ [r₁])
      (r₁.before.machine.goingBy (r₁.analysis p₁).distances) r₁.next := by
    have htake := h.take
    rw [← (Run.walks hprogram₁).distances_eq] at htake
    exact htake
  have hrules := Run.rules_of_clean_append runs hprogram₁ hclean₁
  have hsame : ∀ m t, Mirrors ((runs ++ [r₁]).flatMap Run.visits) m t →
      Naming.byDistance.value m t = Naming.byDistance.value m t := fun _ _ _ => rfl
  have hafter := (hsession.runProgram hnaming hsame (fun _ _ _ => rfl) hrules).2
  rw [hrun] at hafter
  -- no position is used twice, so what the second text records is about its own names
  have hlater : ∀ v ∈ (runs ++ [r₁]).flatMap Run.visits,
      (r₂.analysis p₂).distances.find? v.name.position = v.distance := by
    intro v hv
    rw [← hmachine, ← hposition] at hafter
    have htake := hafter.take
    rw [← (Run.walks hprogram₂).distances_eq] at htake
    refine htake.find?_distances v ?_
    rw [List.flatMap_append]
    exact List.mem_append_left _ hv
  refine ⟨hafter.distances_eq.trans hsession.distances_eq.symm, ?_⟩
  have hgoing := hsession.runProgram_goingBy hnaming hrules hlater
  rw [hrun] at hgoing
  exact hgoing

/-- Taking a text at once comes to the same as taking its parts, once the first of them has
been run to its end. -/
theorem Run.Joins.result_eq {runs : List Run} {w r₁ r₂ : Run} {p₁ p₂ : Program} {m₁ : Machine}
    (hjoins : w.Joins r₁ r₂) (h : Session runs r₁.before.machine r₁.before.nextPosition)
    (hnaming : r₁.before.limits.naming = .byDistance)
    (hlimits : w.before.limits = r₁.before.limits) (hlimits' : r₂.before.limits = r₁.before.limits)
    (hclear : w.before.log.Reports [] [] []) (hclear₁ : r₁.before.log.Reports [] [] [])
    (hclear₂ : r₂.before.log.Reports [] [] []) (h₁ : r₁.Accepted p₁) (h₂ : r₂.Accepted p₂)
    (hrun : runProgram r₁.before.limits p₁
      (r₁.before.machine.goingBy (r₁.analysis p₁).distances) = .ok () m₁)
    (hmachine : r₂.before.machine = m₁) :
    w.result.2 = r₂.result.2 ∧ w.result.1.machine = r₂.result.1.machine
      ∧ w.result.1.log.errors = r₂.result.1.log.errors
      ∧ w.result.1.nextPosition = r₂.result.1.nextPosition := by
  have hprogram₁ := program?_eq_some hclear₁ h₁.faults_eq h₁.derives
  have hprogram₂ := program?_eq_some hclear₂ h₂.faults_eq h₂.derives
  obtain ⟨hdistances, hlater⟩ := h.runProgram_of_later hnaming hprogram₁ h₁.clean hrun hmachine
    hjoins.position_eq' hprogram₂
  obtain ⟨hw, hsame⟩ := hjoins.accepted h₁ (by rw [hmachine, hdistances]) h₂
  -- after the first program, the whole is where its second part starts
  have hboth : runProgram w.before.limits (p₁ ++ p₂)
        (w.before.machine.goingBy (w.analysis (p₁ ++ p₂)).distances)
      = runProgram r₂.before.limits p₂
        (r₂.before.machine.goingBy (r₂.analysis p₂).distances) := by
    rw [hsame, hlimits, hlimits', hjoins.machine_eq, runProgram_append_of_ok hlater, hmachine]
  obtain ⟨⟨log, hresult⟩, hfault⟩ := hw.result_eq hclear
  obtain ⟨⟨log₂, hresult₂⟩, hfault₂⟩ := h₂.result_eq hclear₂
  have hfaults : w.fault? = r₂.fault? := by rw [hfault, hfault₂, hboth]
  have hnext : w.next = r₂.next := by
    unfold Run.next
    rw [hjoins.position_eq, hjoins.position_eq', hjoins.source_eq, Run.next]
    simp only [String.length_append]
    have hnewline : "\n".length = 1 := rfl
    omega
  obtain ⟨houtcome, hmachines⟩ := Interpreter.execute_congr (i := { w.before with
    log, nextPosition := w.next
    machine := w.before.machine.goingBy (w.analysis (p₁ ++ p₂)).distances }) (j := { r₂.before with
    log := log₂, nextPosition := r₂.next
    machine := r₂.before.machine.goingBy (r₂.analysis p₂).distances }) hboth
  refine ⟨?_, ?_, ?_, ?_⟩
  · rw [hresult, hresult₂, houtcome]
  · rw [hresult, hresult₂, hmachines]
  · refine Array.toList_inj.mp ?_
    rw [(Run.reports hclear).1.errors_eq, (Run.reports hclear₂).1.errors_eq,
      (staticErrors_eq_nil_iff hclear).mpr ⟨_, hw⟩,
      (staticErrors_eq_nil_iff hclear₂).mpr ⟨_, h₂⟩, Run.runtimeErrors, Run.runtimeErrors, hfaults]
  · rw [hresult, hresult₂, Interpreter.nextPosition_execute, Interpreter.nextPosition_execute]
    exact hnext

theorem Reached.run {depth rounds : Nat} {runs : List Run} {i : Interpreter}
    (h : Reached depth rounds runs i) (source : String) (line : Int) :
    Reached depth rounds (runs ++ [i.entry source line]) (i.run source line).1 :=
  h.take (.entry source line)

/-- A text that is taken at once does the same as its parts on lines of their own, given one
after the other, if the first part succeeds and there is nothing against running the
second. -/
theorem Interpreter.run_join {depth rounds : Nat} {runs : List Run} {i : Interpreter}
    (h : Reached depth rounds runs i) (hinteractive : i.interactive = true) {s₁ s₂ : String}
    {n : Int} (h₁ : (i.run s₁ n).2 = .finished true)
    (h₂ : ((i.run s₁ n).1.entry s₂ (n + s₁.toList.count '\n' + 1)).staticErrors = []) :
    let whole := i.run (s₁ ++ "\n" ++ s₂) n
    let parts := (i.run s₁ n).1.run s₂ (n + s₁.toList.count '\n' + 1)
    whole.2 = parts.2 ∧ whole.1.machine = parts.1.machine
      ∧ whole.1.log.errors = parts.1.log.errors
      ∧ whole.1.nextPosition = parts.1.nextPosition := by
  obtain ⟨hsession, hlimits⟩ := h.session
  have hbefore := fun s => (Takes.entry (i := i) s n).before_eq
  have hclear := fun s => Log.Reports.expect hinteractive s n
  -- the first text has no error, since it succeeds
  obtain ⟨p₁, ha₁⟩ : ∃ p₁, (i.entry s₁ n).Accepted p₁ := by
    refine (Run.staticErrors_eq_nil_iff (hclear s₁)).mp ?_
    by_contra hne
    have hfalse := ((Run.reports (hclear s₁)).2.1 hne).1
    rw [← run_eq_result, h₁] at hfalse
    cases hfalse
  obtain ⟨⟨log₁, hresult₁⟩, -⟩ := ha₁.result_eq (hclear s₁)
  rw [run_eq_result, hresult₁] at h₁
  obtain ⟨m₁, hrun₁, hexecute₁⟩ := runProgram_of_execute h₁
  have hafter₁ : (i.run s₁ n).1 = { (i.entry s₁ n).before with
      log := log₁, nextPosition := (i.entry s₁ n).next, machine := m₁ } := by
    rw [run_eq_result, hresult₁, hexecute₁]
  generalize (i.run s₁ n).1 = i₁ at h₂ hafter₁ ⊢
  obtain ⟨hmachine₂, hposition₂, hlimits₂⟩ :=
    (Takes.entry (i := i₁) s₂ (n + s₁.toList.count '\n' + 1)).before_eq
  have hinteractive₁ : i₁.interactive = true := by
    rw [hafter₁]
    show (i.expect s₁ n).interactive = true
    unfold expect
    rw [if_pos hinteractive]
    exact hinteractive
  have hclear₂ := Log.Reports.expect hinteractive₁ s₂ (n + s₁.toList.count '\n' + 1)
  obtain ⟨p₂, ha₂⟩ := (Run.staticErrors_eq_nil_iff hclear₂).mp h₂
  have hjoins : (i.entry (s₁ ++ "\n" ++ s₂) n).Joins (i.entry s₁ n)
      (i₁.entry s₂ (n + s₁.toList.count '\n' + 1)) := {
    source_eq := rfl
    line_eq := rfl
    line_eq' := rfl
    position_eq := (hbefore _).2.1.trans (hbefore s₁).2.1.symm
    position_eq' := by rw [hposition₂, hafter₁]
    machine_eq := (hbefore _).1.trans (hbefore s₁).1.symm }
  rw [← (hbefore s₁).1, ← (hbefore s₁).2.1] at hsession
  refine hjoins.result_eq hsession ?_ ?_ ?_ (hclear _) (hclear s₁) hclear₂ ha₁ ha₂ hrun₁ ?_
  · rw [(hbefore s₁).2.2, hlimits]
  · exact (hbefore _).2.2.trans (hbefore s₁).2.2.symm
  · rw [hlimits₂, hafter₁]
  · rw [hmachine₂, hafter₁]

/-- The second entry fails in a function of the first one, which stands on its second line; an
entry before both of them has been run as well. -/
theorem Interpreter.run_join_failing_second :
    let i := ((terminal 30 2).run "var a = \"x\";" 1).1
    let s₁ := "\x7b var b = a;\n a = fun (y) \x7b b = b + y; return b; \x7d; \x7d"
    let s₂ := "print a(\"y\"); // again\n\x7b var c = nil; a(c); \x7d"
    (i.run (s₁ ++ "\n" ++ s₂) 2).1.machine
        = ((i.run s₁ 2).1.run s₂ (2 + s₁.toList.count '\n' + 1)).1.machine
      ∧ (i.run (s₁ ++ "\n" ++ s₂) 2).1.log.errors
        = ((i.run s₁ 2).1.run s₂ (2 + s₁.toList.count '\n' + 1)).1.log.errors
      ∧ (i.run (s₁ ++ "\n" ++ s₂) 2).1.machine.output = "xy\n"
      ∧ (i.run (s₁ ++ "\n" ++ s₂) 2).1.log.errors.map Diagnostic.line = #[some 3] := by
  intro i s₁ s₂
  obtain ⟨runs, hreached⟩ : ∃ runs, Reached 30 2 runs i := ⟨_, (Reached.terminal 30 2).run _ 1⟩
  have hinteractive : i.interactive = true := by decide +kernel
  have h₁ : (i.run s₁ 2).2 = .finished true := by decide +kernel
  have h₂ : ((i.run s₁ 2).1.entry s₂ (2 + s₁.toList.count '\n' + 1)).staticErrors = [] := by
    decide +kernel
  obtain ⟨-, hmachine, herrors, -⟩ := run_join hreached hinteractive h₁ h₂
  exact ⟨hmachine, herrors, by decide +kernel⟩

end LoxLang
