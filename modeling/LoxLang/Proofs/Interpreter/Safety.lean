import LoxLang.Proofs.Interpreter.Session
import LoxLang.Proofs.Machine.Jump

/-!
# Safety

What an interpreter relies on while it works, but never checks, holds in every session,
whatever the texts are.  Names are looked up in frames that mirror the scopes of the
analysis.  The work on a text ends with or without success, and what a program did wrong is
blamed on a token that was read.  No jump is left over.

## Main results

* `Reached.frames_mirror_scopes` — wherever a name is looked up, frames mirror scopes.
* `Reached.outcome_proper` — no text gets an interpreter into disorder.
* `Reached.jumps_absorbed` — no jump leaves a loop or function that it does not stand in.
-/

namespace LoxLang

variable {depth rounds : Nat} {runs : List Run} {i : Interpreter} {r : Run}

/-- A fault of the program is caught. -/
theorem Run.result_of_fault? {f : RuntimeFault} (h : r.fault? = some (.runtime f)) :
    r.result.2 = .finished false := by
  rcases Interpreter.process_cases r with ⟨-, hfault, -⟩ | ⟨program, log, -, hrest⟩
  · rw [hfault] at h
    cases h
  rcases hrest with ⟨hfault, -⟩ | ⟨-, hprocess, hfault⟩
  · rw [hfault] at h
    cases h
  · have hresult : r.result = _ := hprocess r.before.limits
    rw [hfault] at h
    rw [hresult, Interpreter.execute]
    dsimp only at h ⊢
    split at h
    · cases h
    · next hrun =>
      cases h
      rw [hrun]

/-! ### Names -/

/-- In every session, frames mirror scopes wherever a name is looked up: a run in which every
look-up is guarded by that is the same run.  In particular there are always enough frames.

All visits are told apart by the positions of their names, and all constructs by their own, so
that the visit and the frames are those of the name itself.  What is recorded for a name is
the distance of its visit, and there is none only if no scope had declared the name. -/
theorem Reached.frames_mirror_scopes (h : Reached depth rounds runs i) (hr : i.Takes r) :
    let visits := (runs ++ [r]).flatMap Run.visits
    let limits : Limits := { depth, rounds, naming := Naming.byDistance.guarded (Mirrors visits) }
    { r.before with limits }.process r.source r.line = ({ r.result.1 with limits }, r.result.2)
      ∧ r.result.2 ≠ .aborted .dangling ∧ (∀ d, r.result.2 ≠ .aborted (.beyondGlobals d))
      ∧ (∀ v ∈ visits, r.result.1.machine.distances.find? v.name.position = v.distance
        ∧ (v.distance = none ↔ ∀ s ∈ v.scopes, s.names.contains v.name.lexeme = false))
      ∧ (visits.map fun v => v.name.position).Nodup
      ∧ ((runs ++ [r]).flatMap Run.sites).Nodup := by
  intro visits limits
  obtain ⟨hsession, hlimits⟩ := h.session_before hr
  have hnaming : r.before.limits.naming = .byDistance := by rw [hlimits]
  obtain ⟨hsession', -, hproper, -, hprocess⟩ :=
    hsession.result (Naming.byDistance.guarded (Mirrors visits)) hnaming
      (fun m t hm => if_pos hm) (fun m t hm => if_pos hm)
  rw [hlimits] at hprocess
  refine ⟨hprocess, fun habort => ?_, fun d habort => ?_, fun v hv => ⟨?_, ?_⟩, ?_, ?_⟩
  · exact hproper.ne_aborted (by simp) (by simp) habort
  · exact hproper.ne_aborted (by simp) (by simp) habort
  · exact hsession'.find?_distances v hv
  · exact v.distance_eq_none_iff
  · exact hsession'.nodup_visits
  · exact hsession'.nodup_sites

/-- A method of an earlier entry, called through a function that it has made. -/
theorem Reached.frames_mirror_scopes_later_call :
    let r := (Interpreter.terminal 30 1).entry
      "class A { m(x) { return fun() { return this.n + x; }; } }
      var a = A(); a.n = \"n\"; var f = a.m(\"x\");" 1
    let r' := r.result.1.entry "print f();" 1
    let visits := ([r] ++ [r']).flatMap Run.visits
    let limits : Limits :=
      { depth := 30, rounds := 1, naming := Naming.byDistance.guarded (Mirrors visits) }
    Reached 30 1 [r] r.result.1
      ∧ visits.map (fun v => (v.name.lexeme, v.distance))
        = [("this", some 2), ("x", some 1), ("A", none), ("a", none), ("a", none), ("f", none)]
      ∧ { r'.before with limits }.process r'.source r'.line
        = ({ r'.result.1 with limits }, .finished true) := by
  intro r r' visits limits
  have hreached : Reached 30 1 [r] r.result.1 := (Reached.terminal 30 1).take (.entry r.source 1)
  have hrun : r'.result.2 = .finished true := by decide +kernel
  obtain ⟨hprocess, -⟩ := hreached.frames_mirror_scopes (r := r') (.entry r'.source 1)
  rw [hrun] at hprocess
  exact ⟨hreached, by decide +kernel, hprocess⟩

/-! ### Outcomes -/

/-- In every session, the work on a text ends with or without success, unless a bound is
reached; reading it comes to an end in any case.  What its program did wrong is caught, and
the token that is blamed for it is one of those read so far. -/
theorem Reached.outcome_proper (h : Reached depth rounds runs i) (hr : i.Takes r) :
    let lexed := Lexed.ofText r.source r.line r.before.nextPosition
    r.result.2.Proper
      ∧ (∃ program rest, readProgram (descentBound lexed.tokens.length)
          ⟨lexed.tokens, lexed.final, #[]⟩ = .ok program rest)
      ∧ ∀ f, r.fault? = some (.runtime f) →
        r.result.2 = .finished false ∧ f.token ∈ (runs ++ [r]).flatMap Run.tokens := by
  intro lexed
  obtain ⟨hsession, hlimits⟩ := h.session_before hr
  have hnaming : r.before.limits.naming = .byDistance := by rw [hlimits]
  obtain ⟨-, -, hproper, hblamed, -⟩ :=
    hsession.result .byDistance hnaming (fun _ _ _ => rfl) (fun _ _ _ => rfl)
  refine ⟨hproper, readProgram_eq_ok _ _, fun f hf => ⟨Run.result_of_fault? hf, ?_⟩⟩
  rcases hblamed _ hf with hf | hf | ⟨cause, t, hf, ht⟩
  · cases hf
  · cases hf
  · cases hf
    exact ht

/-- An operator of an earlier entry is to blame. -/
theorem Reached.outcome_proper_later_call :
    let r := (Interpreter.terminal 30 1).entry "fun f(x) { return -x; }" 1
    let r' := r.result.1.entry "f(nil);" 1
    let minus : Token := ⟨.minus, "-", .nil, 1, 18⟩
    Reached 30 1 [r] r.result.1
      ∧ r'.fault? = some (.runtime ⟨.operandNotNumber, minus⟩)
      ∧ r'.result.2 = .finished false ∧ minus ∈ ([r] ++ [r']).flatMap Run.tokens := by
  intro r r' minus
  have hreached : Reached 30 1 [r] r.result.1 := (Reached.terminal 30 1).take (.entry r.source 1)
  have hfault : r'.fault? = some (.runtime ⟨.operandNotNumber, minus⟩) := by decide +kernel
  obtain ⟨-, -, hcaught⟩ := hreached.outcome_proper (r := r') (.entry r'.source 1)
  exact ⟨hreached, hfault, hcaught _ hfault⟩

/-! ### Jumps -/

/-- In every session, a program without fault of analysis leaves no jump over: running it never
fails because of one.  A loop ends normally or by a return, and a body that ends by a return
does so because of a return statement of its own, not of a function within; the call takes
the value, and an initializer gives its receiver as always. -/
theorem Reached.jumps_absorbed (h : Reached depth rounds runs i) {program : Program}
    (hclean : (Analysis.ofProgram program i.machine.distances).Clean) :
    (∀ f m, runProgram i.limits program (i.analyze program).1.machine = .error f m → f.IsPlain)
      ∧ (∀ d condition body increment m c m',
        exec i.limits d (.while condition body increment) m = .ok c m' →
          c = .normal ∨ ∃ keyword v, c = .returned keyword v)
      ∧ ∀ d (closure : Closure) m keyword v m',
        runAll (exec i.limits d) closure.body m = .ok (.returned keyword v) m' →
          (∃ o ∈ stmtsOccurrences closure.body .top,
            o.item = .return keyword ∧ o.place.function = none)
          ∧ callResult closure (.returned keyword v) m'
            = if closure.isInitializer then callResult closure .normal m' else .ok v m' := by
  obtain ⟨hsession, hlimits⟩ := h.session
  refine ⟨fun f m hf => ?_, fun d condition body increment m c m' hc => ?_,
    fun d closure m keyword v m' hbody => ⟨?_, ?_⟩⟩
  · obtain ⟨vs, hwalk⟩ := Analysis.walked_ofProgram program i.machine.distances
    have htop : (i.analyze program).1.machine.At Occurrence.JumpFits
        (i.analyze program).1.machine.distances .top :=
      ⟨⟨hsession.at_top.sound.imp fun o ho => ho.1.jumpFits, rfl⟩, hsession.at_top.chained⟩
    have hlaws : Laws Occurrence.JumpFits Fault.IsPlain (i.analyze program).1.machine.distances
        i.limits.naming .byDistance := by
      rw [hlimits]
      exact laws_of_jumps _
    -- how names are looked up does not matter for jumps, so it is left as it is
    obtain ⟨-, hrun⟩ := hlaws.runProgram_runs program htop fun o ho =>
      (hwalk.checked hclean o ho).jumpFits
    rw [hf] at hrun
    exact hrun.2
  · cases d with
    | zero => cases increment <;> cases hc
    | succ d =>
      have hbody := exec_yields i.limits d body .top
      rcases exec_while_yields hbody condition increment m c m' hc with hc | ⟨keyword, v, hc, -⟩
      · exact .inl hc
      · exact .inr ⟨keyword, v, hc⟩
  · exact runAll_yields (fun s => exec_yields i.limits d s .top) closure.body m _ m' hbody
  · unfold callResult
    cases closure.isInitializer <;> rfl

/-- A return in a loop, in a function that is declared in a loop. -/
theorem Reached.jumps_absorbed_nested_loops :
    let r := (Interpreter.terminal 30 2).entry "fun f() { while (true) { return true; } }" 1
    let i := r.result.1
    let r' := i.entry "while (f()) { fun g() { while (f()) return nil; } -g(); break; }" 1
    let program := r'.program?.getD []
    Reached 30 2 [r] i
      ∧ r'.fault? = some (.runtime ⟨.operandNotNumber, ⟨.minus, "-", .nil, 1, 92⟩⟩)
      ∧ (Analysis.ofProgram program i.machine.distances).Clean
      ∧ ∀ f m, runProgram i.limits program (i.analyze program).1.machine = .error f m →
        f.IsPlain := by
  intro r i r' program
  have hreached : Reached 30 2 [r] i := (Reached.terminal 30 2).take (.entry r.source 1)
  have hfindings : (Analysis.ofProgram program i.machine.distances).findings.toList = [] := by
    decide +kernel
  have hclean : (Analysis.ofProgram program i.machine.distances).Clean := by
    intro f
    rw [hfindings]
    exact List.not_mem_nil
  exact ⟨hreached, by decide +kernel, hclean, (hreached.jumps_absorbed hclean).1⟩

end LoxLang
