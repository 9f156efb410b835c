import LoxLang.Proofs.Interpreter.Resolved
import LoxLang.Proofs.Machine.Stepping
import LoxLang.Proofs.Scope.Initializer

/-!
# Local variables that are read in their own initializers

A local variable that is read in its own initializer, outside of the functions that are made
there, is assigned to in the initializer before, in the order in which the analysis comes to
names.  That is why the analysis lets it pass.  If the assignment is surely made before the
variable is read, in the order of evaluation, then the variable is held by the current frame
whenever it is read.  Otherwise the assignment may be skipped or may come too late, and the
variable is found to be undefined: the analysis has not seen to it that this cannot happen.

## Main definitions

* `Run.ReadsItself` — a local variable is read in its own initializer, outside of functions.
* `exposedIn` — the uses of names in texts that do not follow a sure assignment.
* `OwnReadHeld` — names are held when they are looked up, unless their use is exposed.

## Main results

* `Reached.coded_ofRuns` — closures come from the texts, in every session.
* `Reached.own_initializer_held` — **variables that are surely assigned to before they are read
  in their own initializers are held.**
-/

namespace LoxLang

/-- A visited name refers to a local variable, and it is read by the initializer of the variable,
outside of the functions that are made there. -/
structure Run.ReadsItself (r : Run) (v : Visit) (δ : Declaration) (e : Expr) : Prop where
  /-- The name was visited. -/
  visited : v ∈ r.visits
  /-- The variable is declared by the text. -/
  declared : δ ∈ r.declarations
  /-- It is a variable. -/
  kind : δ.kind = .variable
  /-- It is local. -/
  site : δ.site ≠ .globals
  /-- The name refers to it. -/
  refers : v.RefersTo δ
  /-- The initializer. -/
  initializer : e ∈ δ.initializer
  /-- The initializer reads the name. -/
  read : v.name ∈ e.directReads

/-- The uses of names in texts that do not follow a sure assignment in the same expression. -/
def exposedIn (D : Distances) (runs : List Run) : List Token :=
  runs.flatMap fun r => r.program?.elim [] (stmtsExposed D)

/-- The code of texts: some uses of names are exposed, and the others follow an assignment. -/
def Discipline.ofRuns (D : Distances) (runs : List Run) : Discipline where
  names _ := True
  distances := D
  loose t := t ∈ exposedIn D runs

/-- A machine goes by some distances where a name is looked up, and there is a current frame. -/
def Placed (D : Distances) (m : Machine) (t : Token) : Prop :=
  m.distances.find? t.position = D.find? t.position ∧ (m.store.site? m.current).isSome

/-- If a name that is looked up is a local variable which is read in its own initializer, then
the analysis had come to an assignment to the variable before, and the variable belongs to the
current frame. -/
def OwnReadPlaced (runs : List Run) (m : Machine) (t : Token) : Prop :=
  ∀ r ∈ runs, ∀ v δ e, r.ReadsItself v δ e → v.name = t →
    δ.AssignedBefore t r.visits ∧ m.distances.find? t.position = some 0
      ∧ m.store.site? m.current = some δ.site

/-- Moreover the current frame holds the name, unless its use is exposed. -/
def OwnReadHeld (D : Distances) (runs : List Run) (m : Machine) (t : Token) : Prop :=
  (Placed D m t ∧ OwnReadPlaced runs m t)
    ∧ (t ∈ exposedIn D runs ∨ (m.store.slot? m.current t.lexeme).isSome)

instance (D : Distances) (m : Machine) (t : Token) : Decidable (Placed D m t) :=
  inferInstanceAs (Decidable (_ ∧ _))

noncomputable instance (runs : List Run) (m : Machine) (t : Token) :
    Decidable (OwnReadPlaced runs m t) := Classical.propDecidable _

noncomputable instance (D : Distances) (runs : List Run) (m : Machine) (t : Token) :
    Decidable (OwnReadHeld D runs m t) := Classical.propDecidable _

variable {depth rounds : Nat} {runs runs' : List Run} {i : Interpreter} {r : Run} {m : Machine}
  {next : Nat} {t : Token} {v v' : Visit} {δ : Declaration} {e : Expr} {program : Program}
  {D : Distances}

/-! ### Where names are looked up -/

/-- Each name is visited once. -/
theorem Session.visit_unique (h : Session runs m next) (hv : v ∈ runs.flatMap Run.visits)
    (hv' : v' ∈ runs.flatMap Run.visits) (hname : v'.name = v.name) : v' = v :=
  List.inj_on_of_nodup_map h.nodup_visits hv' hv (by rw [hname])

/-- A name of a text has a position within the text. -/
theorem Run.position_of_visit (hv : v ∈ r.visits) :
    r.before.nextPosition ≤ v.name.position ∧ v.name.position < r.next := by
  cases h : r.program? with
  | none => simp [visits, h] at hv
  | some program =>
    obtain ⟨o, ho, heq⟩ := (walks h).named v hv
    have hposition := position_of_mem (occurrences_eq h ▸ ho)
    rw [heq] at hposition
    exact hposition

/-- In a text without fault, a variable that is read in its own initializer is assigned to
before, and it belongs to the innermost scope. -/
theorem Session.assignedBefore (h : Session runs m next) (hr : r ∈ runs)
    (hfaultless : r.Faultless) (hreads : r.ReadsItself v δ e) :
    δ.AssignedBefore v.name r.visits ∧ v.distance = some 0 := by
  obtain ⟨program, hprogram, hclean⟩ := hfaultless
  have hdeclared := hreads.declared
  rw [Run.declarations_eq hprogram] at hdeclared
  have hbefore := Program.assignedBefore hclean δ hdeclared hreads.site hreads.kind e
    hreads.initializer v.name hreads.read hreads.refers.2.symm
  rw [← Run.visits_eq hprogram] at hbefore
  refine ⟨hbefore, ?_⟩
  obtain ⟨w, v', hsublist, -, hname, hdistance, -⟩ := hbefore
  have hv' : v' ∈ r.visits := hsublist.subset (by simp)
  have hvisits : ∀ u ∈ r.visits, u ∈ runs.flatMap Run.visits :=
    fun u hu => List.mem_flatMap.mpr ⟨r, hr, hu⟩
  rw [← h.visit_unique (hvisits v hreads.visited) (hvisits v' hv') hname]
  exact hdistance

/-- When a name is looked up, the machine goes by the distances of all texts. -/
theorem Machine.LooksUp.placed (h : m.LooksUp runs t) (hruns : runs ⊆ runs')
    (hD : ∀ v ∈ runs'.flatMap Run.visits, D.find? v.name.position = v.distance) :
    Placed D m t := by
  obtain ⟨m₀, next, p, k, site, env, h, hm, hat, ht, -⟩ := h
  obtain ⟨v, hv, rfl, hchain, -, hdistance⟩ := ht.exists_visit h.find?_distances hat
  obtain ⟨r, hr, hv⟩ := List.mem_flatMap.mp hv
  refine ⟨?_, by rw [hm.site_eq]; rfl⟩
  rw [hdistance, hD v (List.mem_flatMap.mpr ⟨r, hruns hr, hv⟩)]

/-- When a variable is looked up in its own initializer, it belongs to the current frame. -/
theorem Machine.LooksUp.ownReadPlaced (h : m.LooksUp runs t) : OwnReadPlaced runs m t := by
  obtain ⟨m₀, next, p, k, site, env, h, hm, hat, ht, hw⟩ := h
  rintro r hr v δ e hreads rfl
  have hv : v ∈ runs.flatMap Run.visits := List.mem_flatMap.mpr ⟨r, hr, hreads.visited⟩
  -- the text in which the name is looked up is the one that reads it
  obtain ⟨v', hv', hname, hchain, -, hdistance⟩ := ht.exists_visit h.find?_distances hat
  cases h.visit_unique hv hv' hname
  have hthis : v.name.kind ≠ .kwThis := fun hkind => Run.name_ne_this hreads.declared
    (hreads.refers.2.trans (Lexed.lexeme_eq_this (Run.name_mem_tokens hreads.visited) hkind))
  obtain ⟨r', hr', hfaultless, hvr', -⟩ := h.settled hv (hw.resolve_left hthis)
  cases h.eq_of_position hr hr' (Run.position_of_visit hreads.visited)
    (Run.position_of_visit hvr')
  obtain ⟨hbefore, hzero⟩ := h.assignedBefore hr hfaultless hreads
  refine ⟨hbefore, hdistance.trans hzero, ?_⟩
  obtain ⟨g, site', hg, hgsite, hsite⟩ := v.exists_frame hchain hzero
  cases hg
  rw [hgsite, ← hsite, hreads.refers.1]

/-! ### Code -/

/-- The code of a text is as the texts tell. -/
theorem Run.obeys_ofRuns (hr : r ∈ runs) (hprogram : r.program? = some program) :
    ∀ s ∈ program, s.Obeys (.ofRuns D runs) := by
  have hexposed : ∀ t ∈ stmtsExposed D program, t ∈ exposedIn D runs := by
    intro t ht
    refine List.mem_flatMap.mpr ⟨r, hr, ?_⟩
    rw [hprogram]
    exact ht
  have hadmits : (Discipline.ofRuns D runs).Admits program.declarations (stmtsAccesses program)
      (stmtsExposed D program) := ⟨fun _ _ => trivial, fun _ _ => trivial, hexposed⟩
  exact obey_of_stmts hadmits

/-- Where a machine goes by the distances, names of the innermost scope are assigned to in the
current frame. -/
theorem Placed.near {P : Machine → Token → Prop} [∀ m t, Decidable (P m t)]
    (hP : ∀ {m : Machine} {t : Token}, P m t → Placed D m t) {f : FrameId}
    (hnear : D.find? t.position = some 0)
    (htarget : (Naming.byDistance.guarded P).target m t = .ok f) :
    f = m.current ∧ (m.store.site? f).isSome := by
  rcases Naming.byDistance.guarded_target P m t with hgive | ⟨hholds, heq⟩
  · cases hgive.symm.trans htarget
  · obtain ⟨hdistance, hsite⟩ := hP hholds
    rw [heq] at htarget
    simp only [Naming.byDistance, hdistance.trans hnear, Store.ancestor?] at htarget
    cases htarget
    exact ⟨rfl, hsite⟩

/-- In every session, closures come from the texts.  More texts may follow. -/
theorem Reached.coded_ofRuns (h : Reached depth rounds runs i) (hruns : runs ⊆ runs')
    (hD : ∀ v ∈ runs'.flatMap Run.visits, D.find? v.name.position = v.distance) :
    i.machine.store.Coded (.ofRuns D runs') := by
  induction h with
  | start h =>
    show Store.Coded _ _
    rw [(Interpreter.start_eq_ok h).1]
    intro c closure hc
    cases hc
  | @take runs i r h hr ih =>
    have hcoded := ih fun r' hr' => hruns (List.mem_append_left _ hr')
    rw [← hr.before_eq.1] at hcoded
    rcases r.machine_cases with heq | ⟨program, hprogram, hclean, hends⟩
    · rw [heq]
      exact hcoded
    · let placed : Limits := { depth, rounds, naming := Naming.byDistance.guarded (Placed D) }
      have hsame : Naming.SameIn (.ofRuns D runs') (Store.Coded (.ofRuns D runs')) placed.naming
          placed.naming := ⟨fun _ hnear htarget => Placed.near id hnear htarget,
        fun _ _ => rfl, fun _ _ => rfl⟩
      have hguarded := h.runProgram_guarded hr hprogram hclean
        fun _ _ hlooks => hlooks.placed hruns hD
      unfold EndsIn at hends
      rw [← hguarded] at hends
      have hmem : r ∈ runs' := hruns List.mem_concat_self
      exact (Kept.of_coded _).steps hcoded (((Kept.of_coded _).runProgram_stays hsame
        (Run.obeys_ofRuns hmem hprogram) (m := { r.before.machine with
          distances := (Analysis.ofProgram program r.before.machine.distances).distances })
        hcoded).2 _ hends)
  | meanwhile _ _ _ _ ih => exact ih hruns

/-! ### Faults -/

/-- A text that fails was found without fault, and it is the run of its program that fails. -/
theorem Run.exists_of_fault? {f : Fault} (hf : r.fault? = some f) :
    ∃ program m', r.program? = some program
      ∧ let analysis := Analysis.ofProgram program r.before.machine.distances
        analysis.Clean ∧ runProgram r.before.limits program
          { r.before.machine with distances := analysis.distances } = .error f m' := by
  rcases Interpreter.process_cases r with ⟨-, hnone, -⟩ | ⟨program, log, hprogram, hrest⟩
  · rw [hnone] at hf
    cases hf
  rcases hrest with ⟨hnone, -⟩ | ⟨hclean, -, hfault⟩
  · rw [hnone] at hf
    cases hf
  rw [hfault] at hf
  cases hm : runProgram r.before.limits program _ with
  | ok _ m' =>
    rw [hm] at hf
    cases hf
  | error f' m' =>
    rw [hm] at hf
    cases hf
    exact ⟨program, m', hprogram, hclean, hm⟩

/-- If a text fails, then the fault is one of those that are allowed within limits that make no
difference. -/
theorem Run.fault_of_traced {limits : Limits} {A : Fault → Prop} {f : Fault}
    (htraced : Traced A limits.naming)
    (h : ∀ program, r.program? = some program →
      let analysis := Analysis.ofProgram program r.before.machine.distances
      let m := { r.before.machine with distances := analysis.distances }
      analysis.Clean → runProgram limits program m = runProgram r.before.limits program m)
    (hf : r.fault? = some f) : A f := by
  obtain ⟨program, m', hprogram, hclean, hrun⟩ := Run.exists_of_fault? hf
  have hdoes := htraced.runProgram_does program { r.before.machine with
    distances := (Analysis.ofProgram program r.before.machine.distances).distances }
  rw [h program hprogram hclean, hrun] at hdoes
  exact hdoes.2

/-- Where names are held unless their use is exposed, a variable that is missed in its own
initializer is exposed. -/
theorem traced_ownReadHeld (D : Distances) (runs : List Run) :
    Traced (fun f => ∀ t, f = .at .undefinedVariable t →
      ∀ r ∈ runs, ∀ v δ e, r.ReadsItself v δ e → v.name = t → t ∈ exposedIn D runs)
      (Naming.byDistance.guarded (OwnReadHeld D runs)) where
  value {m t f} hf := by
    rcases Naming.byDistance.guarded_value (OwnReadHeld D runs) m t with
      hgive | ⟨⟨⟨-, hplaced⟩, hheld⟩, heq⟩
    · cases hgive.symm.trans hf
      exact nofun
    · rw [heq] at hf
      rintro t rfl r hr v δ e hreads rfl
      cases Naming.eq_of_value_byDistance hf
      refine hheld.resolve_right fun hslot => ?_
      obtain ⟨-, hzero, -⟩ := hplaced r hr v δ e hreads rfl
      have hholds : m.Holds 0 v.name.lexeme := ⟨m.current, rfl, hslot⟩
      cases hholds.value_eq hzero hf
  target {m t f} hf := by
    rcases Naming.byDistance.guarded_target (OwnReadHeld D runs) m t with
      hgive | ⟨⟨⟨-, hplaced⟩, -⟩, heq⟩
    · cases hgive.symm.trans hf
      exact nofun
    · rw [heq] at hf
      rintro t rfl r hr v δ e hreads rfl
      obtain ⟨rfl, hnone⟩ := Naming.eq_of_target_byDistance hf
      obtain ⟨-, hzero, -⟩ := hplaced r hr v δ e hreads rfl
      cases hnone.symm.trans hzero
  other hf t heq := absurd heq (hf t)

/-! ### Sessions -/

/-- Running a program in which every look-up is guarded by the name being held by the current
frame, unless its use is exposed. -/
theorem Reached.runProgram_ownReadHeld (h : Reached depth rounds runs i) (hr : i.Takes r)
    (hD : ∀ v ∈ (runs ++ [r]).flatMap Run.visits, D.find? v.name.position = v.distance)
    (hprogram : r.program? = some program)
    (hclean : (Analysis.ofProgram program r.before.machine.distances).Clean) :
    let m : Machine := { r.before.machine with
      distances := (Analysis.ofProgram program r.before.machine.distances).distances }
    LoxLang.runProgram
        { depth, rounds, naming := Naming.byDistance.guarded (OwnReadHeld D (runs ++ [r])) }
        program m
      = LoxLang.runProgram r.before.limits program m := by
  intro m
  let P : Machine → Token → Prop := fun m t => Placed D m t ∧ OwnReadPlaced (runs ++ [r]) m t
  let placed : Limits := { depth, rounds, naming := Naming.byDistance.guarded P }
  have hguarded : LoxLang.runProgram placed program m
      = LoxLang.runProgram r.before.limits program m :=
    h.runProgram_guarded hr hprogram hclean fun _ _ hlooks =>
      ⟨hlooks.placed (List.Subset.refl _) hD, hlooks.ownReadPlaced⟩
  -- a name whose use is exposed, or that is held, passes one guard if it passes the other
  have hiff : ∀ {m : Machine} {t : Token}, t ∈ exposedIn D (runs ++ [r])
      ∨ (m.store.slot? m.current t.lexeme).isSome → (OwnReadHeld D (runs ++ [r]) m t ↔ P m t) :=
    fun hheld => ⟨fun hP => hP.1, fun hP => ⟨hP, hheld⟩⟩
  have hsame : Naming.SameIn (.ofRuns D (runs ++ [r])) (Store.Coded (.ofRuns D (runs ++ [r])))
      placed.naming (Naming.byDistance.guarded (OwnReadHeld D (runs ++ [r]))) := by
    refine ⟨fun _ hnear htarget => Placed.near (fun hP => hP.1) hnear htarget,
      fun _ hheld => ?_, fun _ hloose => ?_⟩
    · simp only [placed, Naming.guarded, hiff hheld]
    · simp only [placed, Naming.guarded, hiff (.inl hloose)]
  have hcoded := h.coded_ofRuns (List.subset_append_left runs [r]) hD
  rw [← hr.before_eq.1] at hcoded
  exact ((Kept.of_coded _).runProgram_stays hsame
    (Run.obeys_ofRuns List.mem_concat_self hprogram) (m := m) hcoded).1.trans hguarded

/-- **Variables that are surely assigned to before they are read in their own initializers are
held.**

If a text without fault reads a local variable in its own initializer, outside of the functions
that are made there, then the analysis had come to an assignment to the variable in the
initializer before.  A run in which every such reading is guarded by the variable being held by
the current frame, unless its use is exposed, is the same run.  So if the variable is found to be
undefined there, its use is exposed. -/
theorem Reached.own_initializer_held (h : Reached depth rounds runs i) (hr : i.Takes r) :
    let D := r.result.1.machine.distances
    let limits : Limits :=
      { depth, rounds, naming := Naming.byDistance.guarded (OwnReadHeld D (runs ++ [r])) }
    (∀ r' ∈ runs ++ [r], r'.Faultless → ∀ v δ e, r'.ReadsItself v δ e →
        δ.AssignedBefore v.name r'.visits ∧ v.distance = some 0)
      ∧ { r.before with limits }.process r.source r.line = ({ r.result.1 with limits }, r.result.2)
      ∧ r.result.2 ≠ .aborted .dangling
      ∧ ∀ t, r.fault? = some (.at .undefinedVariable t) →
        ∀ r' ∈ runs ++ [r], ∀ v δ e, r'.ReadsItself v δ e → v.name = t →
          t ∈ exposedIn D (runs ++ [r]) := by
  intro D limits
  have hsession := (h.take hr).session.1
  have hrun : ∀ program, r.program? = some program →
      let analysis := Analysis.ofProgram program r.before.machine.distances
      let m := { r.before.machine with distances := analysis.distances }
      analysis.Clean → runProgram limits program m = runProgram r.before.limits program m :=
    fun program hprogram hclean =>
      h.runProgram_ownReadHeld hr hsession.find?_distances hprogram hclean
  have htraced : Traced _ limits.naming := traced_ownReadHeld D (runs ++ [r])
  exact ⟨fun r' hr' hfaultless v δ e hreads => hsession.assignedBefore hr' hfaultless hreads,
    Run.process_eq hrun, h.ne_dangling hr, fun t hf => Run.fault_of_traced htraced hrun hf t rfl⟩

/-- That a variable is read in its own initializer can be told from the text. -/
theorem Run.exists_readsItself
    (h : ∃ v ∈ r.visits, ∃ δ ∈ r.declarations, ∃ e ∈ δ.initializer, δ.kind = .variable
      ∧ δ.site ≠ .globals ∧ v.RefersTo δ ∧ v.name = t ∧ v.name ∈ e.directReads) :
    ∃ v δ e, r.ReadsItself v δ e ∧ v.name = t := by
  obtain ⟨v, hv, δ, hδ, e, he, hkind, hsite, hrefers, hname, hread⟩ := h
  exact ⟨v, δ, e, ⟨hv, hδ, hkind, hsite, hrefers, he, hread⟩, hname⟩

/-- A variable is assigned to at the beginning of its own initializer and read behind that. -/
theorem Reached.own_initializer_held_assigned_first :
    let r := (Interpreter.terminal 30 1).entry
      "\x7b var a = (a = \"x\") and a; print a; \x7d" 1
    let t : Token := ⟨.identifier, "a", .nil, 1, 24⟩
    let D := r.result.1.machine.distances
    let limits : Limits :=
      { depth := 30, rounds := 1, naming := Naming.byDistance.guarded (OwnReadHeld D ([] ++ [r])) }
    (∃ v δ e, r.ReadsItself v δ e ∧ v.name = t) ∧ t ∉ exposedIn D ([] ++ [r])
      ∧ r.result.1.machine.output = "x\n"
      ∧ { r.before with limits }.process r.source r.line
        = ({ r.result.1 with limits }, r.result.2) := by
  intro r t D limits
  have hreads : ∃ v δ e, r.ReadsItself v δ e ∧ v.name = t :=
    Run.exists_readsItself (by decide +kernel)
  have hcovered : t ∉ exposedIn D ([] ++ [r]) := by decide +kernel
  have houtput : r.result.1.machine.output = "x\n" := by decide +kernel
  have htakes : (Interpreter.terminal 30 1).Takes r := .entry r.source 1
  exact ⟨hreads, hcovered, houtput, ((Reached.terminal 30 1).own_initializer_held htakes).2.1⟩

/-- The assignment is skipped when the initializer is evaluated: the analysis has found no fault,
and the variable that is read in its own initializer is undefined. -/
theorem Run.own_initializer_missed :
    let r := (Interpreter.terminal 30 1).entry
      "\x7b var a = false and (a = \"x\") or a; \x7d" 1
    let t : Token := ⟨.identifier, "a", .nil, 1, 33⟩
    r.Faultless ∧ (∃ v δ e, r.ReadsItself v δ e ∧ v.name = t)
      ∧ r.fault? = some (.at .undefinedVariable t) := by
  intro r t
  have hfault : r.fault? = some (.at .undefinedVariable t) := by decide +kernel
  obtain ⟨program, -, hprogram, hclean, -⟩ := Run.exists_of_fault? hfault
  exact ⟨⟨program, hprogram, hclean⟩, Run.exists_readsItself (by decide +kernel), hfault⟩

end LoxLang
