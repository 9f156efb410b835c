import LoxLang.Proofs.Interpreter.Bindings
import LoxLang.Proofs.Machine.Effects

/-!
# Names with a distance are bound

A name that has a distance is bound, whenever it is looked up, in the frame at this distance.
That is so in every session, also in a function that is called by a later text, and whatever
loops, jumps and faults came before.  The only exception is a name that stands in the
initializer of the variable it refers to.

## Main definitions

* `Run.InOwnInitializer` — a name stands in the initializer of the variable it refers to.
* `BoundAt` — a name is bound where it is looked up.

## Main results

* `Reached.resolved_bound` — **names are bound when they are looked up.**
-/

namespace LoxLang

/-- A name refers to one declaration, which is that of a variable, and stands in its
initializer. -/
def Run.InOwnInitializer (r : Run) (v : Visit) : Prop :=
  ∃ δ ∈ r.declarations, (∀ δ' ∈ r.declarations, v.RefersTo δ' ↔ δ' = δ) ∧ δ.kind = .variable
    ∧ ∃ e ∈ δ.initializer, v.name ∈ e.accesses.map Prod.snd

/-- The frame at a distance holds a name. -/
def Machine.Holds (m : Machine) (distance : Nat) (x : String) : Prop :=
  ∃ f ∈ m.store.ancestor? m.current distance, (m.store.slot? f x).isSome

/-- A name was visited in one of some texts.  The distance is that of the visit; if there is
one, the frame at this distance holds the name, unless the name stands in the initializer of
the variable it refers to. -/
def BoundAt (runs : List Run) (m : Machine) (t : Token) : Prop :=
  ∃ r ∈ runs, ∃ v ∈ r.visits, v.name = t ∧ m.distances.find? t.position = v.distance
    ∧ ∀ d ∈ v.distance, m.Holds d t.lexeme ∨ r.InOwnInitializer v

noncomputable instance (runs : List Run) (m : Machine) (t : Token) : Decidable (BoundAt runs m t) :=
  Classical.propDecidable _

variable {depth rounds : Nat} {runs : List Run} {i : Interpreter} {r : Run} {m m₀ : Machine}
  {next : Nat} {p : Place} {t : Token} {v : Visit}

/-! ### What a name refers to -/

/-- A construct around a visit is not the whole program. -/
theorem Visit.site?_ne_globals (hsites : v.sites.Nodup) {site : Site}
    (h : v.site? = some site) : site ≠ .globals := by
  rintro rfl
  obtain ⟨s, hs, hglobals, -⟩ := v.exists_of_site? h
  have hmem : Site.globals ∈ v.scopes.map Scope.site := hglobals ▸ List.mem_map_of_mem hs
  exact (List.nodup_append.mp hsites).2.2 _ hmem _ (List.mem_singleton_self _) rfl

/-- In a text without fault, a name that has a distance refers to one declaration. -/
theorem Run.Faultless.refersTo_iff (h : r.Faultless) (hsites : v.sites.Nodup)
    {δ : Declaration} (hδ : δ ∈ r.declarations) (hrefers : v.RefersTo δ) :
    ∀ δ' ∈ r.declarations, v.RefersTo δ' ↔ δ' = δ := by
  intro δ' hδ'
  refine ⟨fun hrefers' => ?_, fun heq => heq ▸ hrefers⟩
  have hsite : δ'.site = δ.site := Option.some.inj (hrefers'.1.symm.trans hrefers.1)
  have hname : δ'.name.lexeme = δ.name.lexeme := hrefers'.2.trans hrefers.2.symm
  exact h.declaration_unique hδ hδ' (v.site?_ne_globals hsites hrefers.1)
    (Prod.ext hsite hname)

/-- The word `this` is written as itself in all texts. -/
theorem lexeme_eq_this_of_mem (ht : t ∈ runs.flatMap Run.tokens) (hkind : t.kind = .kwThis) :
    t.lexeme = "this" := by
  obtain ⟨r, -, ht⟩ := List.mem_flatMap.mp ht
  exact Lexed.lexeme_eq_this ht hkind

/-! ### Where names are bound -/

/-- A name that is bound is read, unless it has no value yet. -/
theorem Machine.Holds.value_eq {d : Nat} (h : m.Holds d t.lexeme)
    (hd : m.distances.find? t.position = some d) {f : Fault}
    (hf : Naming.byDistance.value m t = .error f) : f = .at .uninitializedVariable t := by
  obtain ⟨g, hg, hslot⟩ := h
  obtain ⟨slot, hslot⟩ := Option.isSome_iff_exists.mp hslot
  rw [Option.mem_def] at hg
  simp only [Naming.byDistance, hd, Store.readAt?, hg, Option.map_some, hslot] at hf
  cases slot with
  | none =>
    cases hf
    rfl
  | some w => cases hf

/-- When a name is looked up, it is bound. -/
theorem Machine.LooksUp.boundAt (h : m.LooksUp runs t) : BoundAt runs m t := by
  obtain ⟨m₀, next, p, k, site, env, h, hm, hat, ht, hw⟩ := h
  obtain ⟨v, hv, rfl, hchain, hsites, hdistance⟩ := ht.exists_visit h.find?_distances hat
  by_cases hthis : v.name.lexeme = "this"
  · -- the frame is one around a method, and it holds the object
    obtain ⟨r, hr, hvr⟩ := List.mem_flatMap.mp hv
    refine ⟨r, hr, v, hvr, rfl, hdistance, fun d hd => .inl ?_⟩
    obtain ⟨g, site, hg, hgsite, hsite⟩ := v.exists_frame hchain hd
    have hdeclared := v.declaredAt (proper_of_mem_visits (List.Subset.refl _) v hv) hsite
    rw [hthis] at hdeclared
    rw [hthis]
    exact ⟨g, hg, hat.sound.isSome_this name_ne_this_of_mem hdeclared hgsite⟩
  · have hwritten : v.name ∈ runs.flatMap Run.tokens := ht.written
    have hsettled := hw.resolve_left fun hkind => hthis (lexeme_eq_this_of_mem hwritten hkind)
    obtain ⟨r, hr, hfaultless, hvr, hsettled⟩ := h.settled hv hsettled
    refine ⟨r, hr, v, hvr, rfl, hdistance, fun d hd => ?_⟩
    obtain ⟨g, site, hg, hgsite, hsite⟩ := v.exists_frame hchain hd
    rcases hsettled hthis site hsite with hmem | ⟨δ, hδ, rfl, hkind, hname, e, he, hu⟩
    · -- the construct has bound the name in its only activation on the way out
      exact .inl ⟨g, hg, (hm.bound _ hmem).isSome_slot? hchain hsites hg hgsite⟩
    · exact .inr ⟨δ, hδ, hfaultless.refersTo_iff hsites hδ ⟨hsite, hname⟩, hkind, e, he,
        List.mem_map_of_mem hu⟩

/-! ### Names that are missing -/

/-- A look-up blames the name that it was asked for. -/
theorem Naming.eq_of_value_byDistance {cause : RuntimeCause} {t' : Token}
    (h : Naming.byDistance.value m t = .error (.at cause t')) : t' = t := by
  have hreading : ∀ reading : NameReading, reading.valueAt t = .error (.at cause t') → t' = t := by
    intro reading hreading
    cases reading <;> cases hreading <;> rfl
  unfold byDistance at h
  dsimp only at h
  split at h
  · exact hreading _ h
  · split at h
    · cases h
    · exact hreading _ h

/-- Only a name without a distance has no frame. -/
theorem Naming.eq_of_target_byDistance {cause : RuntimeCause} {t' : Token}
    (h : Naming.byDistance.target m t = .error (.at cause t')) :
    t' = t ∧ m.distances.find? t.position = none := by
  unfold byDistance at h
  dsimp only at h
  split at h
  · next hnone =>
    unfold Store.holderAt at h
    split at h <;> cases h
    exact ⟨rfl, hnone⟩
  · split at h <;> cases h

/-- If a name with a distance is missed, then it stands in the initializer of the variable it
refers to. -/
def Missed (runs : List Run) (D : Distances) (f : Fault) : Prop :=
  ∀ t, f = .at .undefinedVariable t → (D.find? t.position).isSome →
    ∃ r ∈ runs, ∃ v ∈ r.visits, v.name = t ∧ r.InOwnInitializer v

/-- Where names are bound, no others are missed. -/
theorem Session.traced_boundAt (h : Session runs m₀ next) :
    Traced (Missed runs m₀.distances) (Naming.byDistance.guarded (BoundAt runs)) where
  value {m t f} hf := by
    rcases Naming.byDistance.guarded_value (BoundAt runs) m t with
      hgive | ⟨⟨r, hr, v, hv, rfl, hdistance, hbound⟩, heq⟩
    · cases hgive.symm.trans hf
      exact nofun
    · rw [heq] at hf
      rintro t rfl hrecorded
      cases Naming.eq_of_value_byDistance hf
      rw [h.find?_distances v (List.mem_flatMap.mpr ⟨r, hr, hv⟩)] at hrecorded
      obtain ⟨d, hd⟩ := Option.isSome_iff_exists.mp hrecorded
      rcases hbound d hd with hholds | hown
      · cases hholds.value_eq (hdistance.trans hd) hf
      · exact ⟨r, hr, v, hv, rfl, hown⟩
  target {m t f} hf := by
    rcases Naming.byDistance.guarded_target (BoundAt runs) m t with
      hgive | ⟨⟨r, hr, v, hv, rfl, hdistance, -⟩, heq⟩
    · cases hgive.symm.trans hf
      exact nofun
    · rw [heq] at hf
      rintro t rfl hrecorded
      obtain ⟨rfl, hnone⟩ := Naming.eq_of_target_byDistance hf
      rw [h.find?_distances v (List.mem_flatMap.mpr ⟨r, hr, hv⟩), ← hdistance, hnone] at hrecorded
      cases hrecorded
  other hf t heq := absurd heq (hf t)

/-! ### Sessions -/

/-- A name with a distance that a text misses stands in the initializer of the variable it
refers to. -/
theorem Reached.missed (h : Reached depth rounds runs i) (hr : i.Takes r) {f : Fault}
    (hf : r.fault? = some f) : Missed (runs ++ [r]) r.result.1.machine.distances f := by
  rcases Interpreter.process_cases r with ⟨-, hnone, -⟩ | ⟨program, log, hprogram, hrest⟩
  · rw [hnone] at hf
    cases hf
  rcases hrest with ⟨hnone, -⟩ | ⟨hclean, hprocess, hfault⟩
  · rw [hnone] at hf
    cases hf
  have hresult : r.result = _ := hprocess r.before.limits
  let bound : Limits :=
    { depth, rounds, naming := Naming.byDistance.guarded (BoundAt (runs ++ [r])) }
  let D := (Analysis.ofProgram program r.before.machine.distances).distances
  have htraced : Traced (Missed (runs ++ [r]) D) bound.naming :=
    ((h.session_before hr).1.analyzed hprogram).traced_boundAt
  have hdoes := htraced.runProgram_does program { r.before.machine with distances := D }
  rw [h.runProgram_guarded hr hprogram hclean fun _ _ h => h.boundAt] at hdoes
  rw [hfault] at hf
  rw [hresult]
  unfold Interpreter.execute
  dsimp only at hf ⊢
  cases hm : runProgram r.before.limits program _ with
  | ok _ m' =>
    rw [hm] at hf
    cases hf
  | error f' m' =>
    rw [hm] at hf hdoes
    cases hf
    obtain ⟨hchanges, hmissed⟩ := hdoes
    have hdistances := hchanges.distances_eq
    cases f <;> exact hdistances ▸ hmissed

/-- **Names are bound when they are looked up.**

A run in which every look-up of a name that has a distance is guarded by the name being bound
at this distance is the same run; the only names that are excepted stand in the initializer of
the variable they refer to.  So if a name with a distance is found to be undefined, it stands
there.  Reading a name that is bound can only fail because it has no value yet. -/
theorem Reached.resolved_bound (h : Reached depth rounds runs i) (hr : i.Takes r) :
    let limits : Limits :=
      { depth, rounds, naming := Naming.byDistance.guarded (BoundAt (runs ++ [r])) }
    { r.before with limits }.process r.source r.line = ({ r.result.1 with limits }, r.result.2)
      ∧ r.result.2 ≠ .aborted .dangling
      ∧ (∀ t, r.fault? = some (.at .undefinedVariable t) →
        (r.result.1.machine.distances.find? t.position).isSome →
          ∃ r' ∈ runs ++ [r], ∃ v ∈ r'.visits, v.name = t ∧ r'.InOwnInitializer v)
      ∧ ∀ (m : Machine) (t : Token) (d : Nat), m.distances.find? t.position = some d →
        m.Holds d t.lexeme → ∀ f, Naming.byDistance.value m t = .error f →
          f = .at .uninitializedVariable t := by
  intro limits
  refine ⟨Run.process_eq ?_, h.ne_dangling hr, fun t hf hrecorded => h.missed hr hf t rfl hrecorded,
    fun m t d hd hholds f hf => hholds.value_eq hd hf⟩
  intro program hprogram analysis m hclean
  exact h.runProgram_guarded hr hprogram hclean fun _ _ h => h.boundAt

/-- A variable whose initializer makes a function that returns the variable: a later text
calls this function before the variable is bound. -/
theorem Reached.resolved_bound_called_early :
    let r := (Interpreter.terminal 30 1).entry
      "fun g(p) \x7b var a = p(fun() \x7b return a; \x7d); return a; \x7d" 1
    let r' := r.result.1.entry "g(fun(h) \x7b return h(); \x7d);" 1
    let t : Token := ⟨.identifier, "a", .nil, 1, 36⟩
    r'.fault? = some (.at .undefinedVariable t)
      ∧ r'.result.1.machine.distances.find? t.position = some 1
      ∧ ∃ r'' ∈ [r, r'], ∃ v ∈ r''.visits, v.name = t ∧ r''.InOwnInitializer v := by
  intro r r' t
  have hreached : Reached 30 1 [r] r.result.1 := (Reached.terminal 30 1).take (.entry r.source 1)
  have hfault : r'.fault? = some (.at .undefinedVariable t) := by decide +kernel
  have hdistance : r'.result.1.machine.distances.find? t.position = some 1 := by decide +kernel
  have htakes : r.result.1.Takes r' := .entry r'.source 1
  obtain ⟨-, -, hmissed, -⟩ := hreached.resolved_bound htakes
  exact ⟨hfault, hdistance, hmissed t hfault (by rw [hdistance]; rfl)⟩

end LoxLang
