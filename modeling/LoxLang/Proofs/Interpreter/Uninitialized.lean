import LoxLang.Proofs.Interpreter.Bindings
import LoxLang.Proofs.Machine.Effects

/-!
# Names without a value

Values are never missing; only a name in a frame can lack one.  In every session a name that
lacks a value is that of a variable which was declared without an initializer, by the very
construct of which the frame is an activation.  So parameters, functions, classes and `this`
have a value whenever they are bound.  What is found under a name is a value that a frame
holds.

A name that has a value loses it only if a variable of this name is declared without an
initializer again, in the same frame.

## Main definitions

* `Store.Confined` — names without a value are those of variables without an initializer.

## Main results

* `Stmt.mem_bare_iff` — a statement that leaves a name without a value is its declaration.
* `Reached.uninitialized_confined` — **names without a value are confined, and values are not
  lost.**
-/

namespace LoxLang

/-- The names in frames that lack a value are those of variables that the construct of the
frame declares without an initializer. -/
structure Store.Confined (runs : List Run) (s : Store) : Prop where
  /-- A name without a value is that of a variable without an initializer. -/
  bare : ∀ {f : FrameId} {x : String}, s.slot? f x = some none →
    x ≠ "this" ∧ ∃ r ∈ runs, ∃ δ ∈ r.declarations,
      s.site? f = some δ.site ∧ δ.name.lexeme = x ∧ δ.IsBare
  /-- What else a construct declares has a value whenever it is bound. -/
  others : ∀ r ∈ runs, r.Faultless → ∀ δ ∈ r.declarations, δ.site ≠ .globals → ¬δ.IsBare →
    ∀ f, s.site? f = some δ.site → s.slot? f δ.name.lexeme ≠ some none
  /-- So has `this`, which is always bound. -/
  this : ∀ {f : FrameId} {k : Nat}, s.site? f = some (.receiver k) →
    ∃ v, s.slot? f "this" = some (some v)

noncomputable instance (runs : List Run) (s : Store) : Decidable (s.Confined runs) :=
  Classical.propDecidable _

variable {depth rounds : Nat} {runs : List Run} {i : Interpreter} {r : Run} {m m₀ : Machine}
  {next : Nat} {s : Store}

/-! ### Stores -/

/-- Names without a value are confined in a store that is tidy and sound. -/
theorem Session.confined (h : Session runs m₀ next) {w : Access → Token → List Binding → Prop}
    (htidy : s.Tidy (runs.flatMap Run.declarations) w) {R : Occurrence → Prop} {g : FrameId}
    (hsound : s.Sound R g) : s.Confined runs := by
  have hbare : ∀ {f : FrameId} {x : String}, s.slot? f x = some none →
      ∃ r ∈ runs, ∃ δ ∈ r.declarations,
        s.site? f = some δ.site ∧ δ.name.lexeme = x ∧ δ.IsBare := by
    intro f x hnone
    obtain ⟨fr, hfr, hslot⟩ := Option.bind_eq_some_iff.mp hnone
    obtain ⟨δ, hδ, hsite, hname, hδbare⟩ := (htidy.names hfr hslot).bare rfl
    obtain ⟨r, hr, hδ⟩ := List.mem_flatMap.mp hδ
    exact ⟨r, hr, δ, hδ, by rw [Store.site?, hfr, Option.map_some, hsite], hname, hδbare⟩
  refine ⟨fun hnone => ⟨?_, hbare hnone⟩, ?_, ?_⟩
  · obtain ⟨r, -, δ, hδ, -, rfl, -⟩ := hbare hnone
    exact Run.name_ne_this hδ
  · intro r hr hfaultless δ hδ hglobals hδbare f hsite hnone
    obtain ⟨r', hr', δ', hδ', hsite', hname, hδbare'⟩ := hbare hnone
    -- the construct declares the name once
    have hbinding : δ'.binding = δ.binding :=
      Prod.ext (Option.some.inj (hsite'.symm.trans hsite)) hname
    have heq := h.declaration_unique hr hr' hfaultless hδ hδ' hglobals hbinding
    exact hδbare (heq ▸ hδbare')
  · intro f k hsite
    obtain ⟨fr, hfr, hframe⟩ := Option.map_eq_some_iff.mp hsite
    obtain ⟨v, hv⟩ := hsound.receivers hfr hframe
    exact ⟨v, by rw [Store.slot?, hfr]; exact hv⟩

/-- What is found by walking outwards is a value that a frame holds. -/
theorem NameReading.exists_slot {f : FrameId} {t : Token} {v : Value}
    (h : (NameReading.ofSlot? (s.slot? f t.lexeme)).valueAt t = .ok v) :
    s.slot? f t.lexeme = some (some v) := by
  cases hslot : s.slot? f t.lexeme with
  | none =>
    rw [hslot] at h
    cases h
  | some slot =>
    rw [hslot] at h
    cases slot with
    | none => cases h
    | some w =>
      cases h
      rfl

theorem Store.exists_slot_of_read {f : FrameId} {t : Token} {v : Value}
    (h : (s.read f t.lexeme).valueAt t = .ok v) : ∃ g, s.slot? g t.lexeme = some (some v) := by
  unfold Store.read at h
  split at h
  · cases h
  · exact ⟨_, NameReading.exists_slot h⟩

/-- What is found by distance is a value that a frame holds, too. -/
theorem Naming.exists_slot_byDistance {t : Token} {v : Value}
    (h : Naming.byDistance.value m t = .ok v) :
    ∃ f, m.store.slot? f t.lexeme = some (some v) := by
  unfold byDistance at h
  dsimp only at h
  split at h
  · exact Store.exists_slot_of_read h
  · next d hd =>
    cases hg : m.store.ancestor? m.current d with
    | none =>
      rw [Store.readAt?, hg] at h
      cases h
    | some g =>
      rw [Store.readAt?, hg] at h
      exact ⟨g, NameReading.exists_slot h⟩

/-! ### Statements -/

/-- What a statement leaves without a value is what it declares. -/
theorem Stmt.bare_subset_declared : ∀ s : Stmt, s.bare ⊆ s.declared
  | .var _ none => List.Subset.refl _
  | .ifElse _ t none => t.bare_subset_declared
  | .ifElse _ t (some e) =>
      List.append_subset.mpr
        ⟨List.subset_append_of_subset_left _ t.bare_subset_declared,
          List.subset_append_of_subset_right _ e.bare_subset_declared⟩
  | .while _ body _ => body.bare_subset_declared
  | .var _ (some _) | .expression _ | .print _ | .block _ _ | .break _ | .continue _
  | .function _ | .return _ _ | .classDecl _ _ _ _ => List.nil_subset _

/-- A statement that leaves a name without a value is the declaration of a variable without
an initializer. -/
theorem Stmt.mem_bare_iff {s : Stmt} (h : s.wellFormed = true) {x : String} :
    x ∈ s.bare ↔ ∃ name, s = .var name none ∧ name.lexeme = x := by
  cases hstatement : s.isStatement with
  | true =>
    -- what can be a branch declares nothing
    have hbare : s.bare = [] :=
      List.subset_nil.mp (s.declared_eq_nil h hstatement ▸ s.bare_subset_declared)
    rw [hbare]
    refine ⟨fun hx => absurd hx List.not_mem_nil, ?_⟩
    rintro ⟨name, rfl, -⟩
    cases hstatement
  | false =>
    cases s with
    | var name value =>
      cases value with
      | none => simp [Stmt.bare, eq_comm]
      | some e => simp [Stmt.bare]
    | function f => simp [Stmt.bare]
    | classDecl name superclass methods statics => simp [Stmt.bare]
    | expression | print | block | ifElse | «while» | «break» | «continue» | «return» =>
      cases hstatement

theorem stmtsWellFormed_iff {ss : List Stmt} :
    stmtsWellFormed ss = true ↔ ∀ s ∈ ss, s.wellFormed = true := by
  induction ss with
  | nil => simp [stmtsWellFormed]
  | cons s ss ih => simp [stmtsWellFormed, ih]

/-- The names that a program leaves without a value in the global frame. -/
theorem Program.mem_bare_iff {program : Program} (h : program.wellFormed = true) {x : String} :
    x ∈ program.flatMap Stmt.bare ↔ ∃ name, .var name none ∈ program ∧ name.lexeme = x := by
  rw [List.mem_flatMap]
  constructor
  · rintro ⟨s, hs, hx⟩
    obtain ⟨name, rfl, hname⟩ := (Stmt.mem_bare_iff (stmtsWellFormed_iff.mp h s hs)).mp hx
    exact ⟨name, hs, hname⟩
  · rintro ⟨name, hmem, rfl⟩
    exact ⟨_, hmem, List.mem_singleton_self _⟩

/-! ### Sessions -/

/-- What a text leaves without a value in a frame from before it. -/
theorem Run.slot?_result (r : Run) {f : FrameId} {x : String}
    (hf : f < r.before.machine.store.frames.size)
    (hnone : r.result.1.machine.store.slot? f x = some none) :
    r.before.machine.store.slot? f x = some none
      ∨ f = r.before.machine.current ∧ ∃ program, r.program? = some program
        ∧ ∃ name, .var name none ∈ program ∧ name.lexeme = x := by
  rcases r.machine_cases with heq | ⟨program, hsome, -, hends⟩
  · rw [heq] at hnone
    exact .inl hnone
  have hdoes := (Traced.any r.before.limits.naming).runProgram_does program
  have hwf := (Interpreter.derives_of_read hsome).wellFormed
  rcases (hdoes.changes hends).slots hnone with hnone | ⟨hcurrent, hx⟩ | hnew
  · exact .inl hnone
  · exact .inr ⟨hcurrent, program, hsome, (Program.mem_bare_iff hwf).mp hx⟩
  · exact absurd hf (Nat.not_lt.mpr hnew)

/-- Names without a value are confined whenever a name is looked up. -/
theorem Machine.LooksUp.confined {t : Token} (h : m.LooksUp runs t) : m.store.Confined runs := by
  obtain ⟨m₀, next, p, k, site, env, hsession, hm, hat, -⟩ := h
  exact hsession.confined hm.tidy hat.sound

/-- **Names without a value are confined, and values are not lost.**

Names without a value are confined before and after each text, and whenever a name is looked
up: a run in which every look-up is guarded by that is the same run.  A name that a frame held
before a text has no value after it only if it had none before, or if it is global and the
text declares it without an initializer.  The same is so within a text: evaluating or calling
takes no value away, and a statement does only if it declares the name without an initializer
in the very frame.  Whatever way a name is looked up, what is found is a value of that name. -/
theorem Reached.uninitialized_confined (h : Reached depth rounds runs i) :
    i.machine.store.Confined runs
      ∧ (∀ r, i.Takes r →
        (let limits : Limits :=
          { depth, rounds
            naming := Naming.byDistance.guarded fun m _ => m.store.Confined (runs ++ [r]) }
        { r.before with limits }.process r.source r.line
            = ({ r.result.1 with limits }, r.result.2)
          ∧ r.result.2 ≠ .aborted .dangling)
        ∧ ∀ f x, f < i.machine.store.frames.size →
          r.result.1.machine.store.slot? f x = some none →
            i.machine.store.slot? f x = some none
              ∨ f = i.machine.globals ∧ ∃ program, r.program? = some program
                ∧ ∃ name, .var name none ∈ program ∧ name.lexeme = x)
      ∧ (∀ d m m' f x, f < m.store.frames.size → m'.store.slot? f x = some none →
        ((∃ e, EndsIn (eval i.limits d e) m m') ∨ (∃ c vs, EndsIn (invoke i.limits d c vs) m m') →
            m.store.slot? f x = some none)
          ∧ ∀ s, EndsIn (exec i.limits d s) m m' →
            m.store.slot? f x = some none ∨ f = m.current ∧ x ∈ s.bare)
      ∧ (∀ (s : Stmt) x, s.wellFormed = true →
        (x ∈ s.bare ↔ ∃ name, s = .var name none ∧ name.lexeme = x))
      ∧ ∀ (m : Machine) (t : Token) (v : Value),
        Naming.byDistance.value m t = .ok v ∨ Naming.byName.value m t = .ok v →
          ∃ f, m.store.slot? f t.lexeme = some (some v) := by
  obtain ⟨hsession, -⟩ := h.session
  refine ⟨hsession.confined (h.tidy (List.Subset.refl _)) hsession.at_top.sound,
    fun r hr => ⟨⟨Run.process_eq ?_, h.ne_dangling hr⟩, ?_⟩, ?_,
    fun s x hs => Stmt.mem_bare_iff hs, ?_⟩
  · intro program hprogram analysis m hclean
    exact h.runProgram_guarded hr hprogram hclean fun _ _ h => h.confined
  · obtain ⟨hmachine, -, -⟩ := hr.before_eq
    have hglobals : i.machine.current = i.machine.globals := hsession.at_top.chained.eq_root
    intro f x hf hnone
    rw [← hglobals, ← hmachine]
    rw [← hmachine] at hf
    exact r.slot?_result hf hnone
  · intro d m m' f x hf hnone
    have hdoes := (Traced.any i.limits.naming).evaluates d
    have hold : ∀ {may : FrameId → FrameId → String → Prop}, Changes may m m' →
        m.store.slot? f x = some none ∨ may m.current f x := fun hchanges =>
      (hchanges.slots hnone).imp_right fun hor => hor.resolve_right (Nat.not_le.mpr hf)
    refine ⟨?_, fun s hs => hold ((hdoes.exec s).changes hs)⟩
    rintro (⟨e, he⟩ | ⟨c, vs, hc⟩)
    · exact (hold ((hdoes.eval e).changes he)).resolve_right id
    · exact (hold ((hdoes.invoke c vs).changes hc)).resolve_right id
  · rintro m t v (hv | hv)
    · exact Naming.exists_slot_byDistance hv
    · exact Store.exists_slot_of_read hv

/-- A global variable that has a value is declared anew without one, and then read; a variable
that a function has captured never gets a value. -/
theorem Reached.uninitialized_confined_declared_anew :
    let r := (Interpreter.terminal 30 1).entry
      ("var a = \"x\"; fun f() \x7b var b; return fun() \x7b return b; \x7d; \x7d\n"
        ++ "var g = f();") 1
    let i := r.result.1
    let r' := i.entry "var a; print a;" 1
    Reached 30 1 [r] i ∧ i.machine.store.Confined [r]
      ∧ i.machine.store.slot? 0 "a" = some (some (.text "x"))
      ∧ i.machine.store.slot? 1 "b" = some none
      ∧ r'.result.1.machine.store.slot? 0 "a" = some none
      ∧ r'.fault? = some (.at .uninitializedVariable ⟨.identifier, "a", .nil, 1, 86⟩)
      ∧ ∃ program, r'.program? = some program
        ∧ ∃ name, .var name none ∈ program ∧ name.lexeme = "a" := by
  intro r i r'
  have hreached : Reached 30 1 [r] i := (Reached.terminal 30 1).take (.entry r.source 1)
  have htakes : i.Takes r' := .entry r'.source 1
  have hbefore : i.machine.store.slot? 0 "a" = some (some (.text "x")) := by decide +kernel
  have hafter : r'.result.1.machine.store.slot? 0 "a" = some none := by decide +kernel
  have hsize : 0 < i.machine.store.frames.size := by decide +kernel
  obtain ⟨hconfined, htext, -⟩ := hreached.uninitialized_confined
  refine ⟨hreached, hconfined, hbefore, by decide +kernel, hafter, by decide +kernel, ?_⟩
  rcases (htext r' htakes).2 0 "a" hsize hafter with hnone | ⟨-, hprogram⟩
  · rw [hbefore] at hnone
    cases hnone
  · exact hprogram

end LoxLang
