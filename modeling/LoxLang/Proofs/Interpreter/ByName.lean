import LoxLang.Proofs.Interpreter.Bindings

/-!
# Names by distance and by name

The value of a name can be found at the recorded distance, or by walking outwards until a
frame holds the name.  The two may differ: a name may be declared again further in, after
its use has been analyzed, or it may not be bound yet where the analysis has found it.  If
all names that a program declares are different, and if it takes no advantage of the moment
before a variable is bound, then the walk ends at the recorded distance.

Frames hold only what their constructs declare, so a name is held by the activation of a
single construct.  A frame that is assigned to at a distance already holds the name;
otherwise the assignment would bind it, while the walk would miss it.

## Main definitions

* `Program.PlainlyNamed` — names are different, and used where they are known.
* `Charted` — what is known of the names of such a program before it is run.

## Main results

* `Charted.agrees` — look-ups by distance and by name agree.
* `Reached.process_byName` — **a plainly named program does the same by name as by
  distance.**
-/

namespace LoxLang

/-! ### Names that are told apart -/

/-- The visits of a program know the declarations that are around them, and no name is
declared twice. -/
structure Charted (ds : List Declaration) (vs : List Visit) (D : Distances) : Prop where
  /-- No name is declared twice. -/
  nodup : (ds.map fun d => d.name.lexeme).Nodup
  /-- The name of the native function is not declared. -/
  clock : ∀ d ∈ ds, d.name.lexeme ≠ "clock"
  /-- The name `this` is not declared. -/
  this : ∀ d ∈ ds, d.name.lexeme ≠ "this"
  /-- The constructs around a visit are different. -/
  sites : ∀ v ∈ vs, v.sites.Nodup
  /-- The scopes at a visit had declared what their constructs declare. -/
  proper : ∀ v ∈ vs, v.outline.Proper ds
  /-- The distance is that of the visit. -/
  distances : ∀ v ∈ vs, D.find? v.name.position = v.distance
  /-- A name that a construct around the visit declares has a distance. -/
  recorded : ∀ v ∈ vs, ∀ d ∈ ds, d.name.lexeme = v.name.lexeme → d.site ≠ .globals →
    d.site ∈ v.sites → v.distance ≠ none

/-- The constructs around a visit are those of its scopes, as far as these go. -/
theorem Visit.site_eq {v : Visit} {j : Nat} {site : Site} (hj : j < v.scopes.length)
    (h : v.sites[j]? = some site) : v.scopes[j].site = site := by
  rw [Visit.sites, List.getElem?_append_left (by simpa using hj)] at h
  simpa [hj] using h

namespace Charted

variable {ds : List Declaration} {vs : List Visit} {ts : List Token} {D : Distances}
  {R : Occurrence → Prop} {w : Access → Token → List Binding → Prop} {m : Machine} {v : Visit}
  {f g : FrameId} {d : Nat}

/-- Only one construct declares a name. -/
theorem site_eq (h : Charted ds vs D) {site site' : Site} {x : String} (hthis : x ≠ "this")
    (hx : DeclaredAt ds site x) (hx' : DeclaredAt ds site' x) : site = site' := by
  rcases hx with ⟨d, hd, rfl, rfl⟩ | ⟨-, -, rfl⟩ | ⟨rfl, rfl⟩
  · rcases hx' with ⟨d', hd', rfl, heq⟩ | ⟨-, -, heq⟩ | ⟨-, heq⟩
    · rw [List.inj_on_of_nodup_map h.nodup hd hd' heq.symm]
    · exact absurd heq hthis
    · exact absurd heq (h.clock d hd)
  · exact absurd rfl hthis
  · rcases hx' with ⟨d', hd', -, heq⟩ | ⟨-, -, heq⟩ | ⟨rfl, -⟩
    · exact absurd heq (h.clock d' hd')
    · exact absurd heq hthis
    · rfl

/-- Only a construct around methods declares `this`. -/
theorem receiver (h : Charted ds vs D) {site : Site} (hx : DeclaredAt ds site "this") :
    ∃ k, site = .receiver k := by
  rcases hx with ⟨d, hd, -, heq⟩ | ⟨k, rfl, -⟩ | ⟨-, heq⟩
  · exact absurd heq (h.this d hd)
  · exact ⟨k, rfl⟩
  · exact absurd heq (by decide)

theorem proper_scope (h : Charted ds vs D) (hv : v ∈ vs) {s : Scope} (hs : s ∈ v.scopes) :
    (∀ x, s.names.contains x → DeclaredAt ds s.site x)
      ∧ ∀ k, s.site = .receiver k → s.names.contains "this" :=
  h.proper v hv (s.site, s.names.contains) (List.mem_map_of_mem hs)

/-! ### The frame that holds a name -/

section Holder

variable (h : Charted ds vs D) (hv : v ∈ vs) (hm : m.Ok R D)
  (hchain : m.store.Chained m.globals m.current v.sites)

include h hv hchain

/-- The frame at the distance is the activation of a construct that declares the name. -/
theorem exists_declaredAt (hd : v.distance = some d)
    (hg : (m.store.chain m.current)[d]? = some g) :
    ∃ site, v.sites[d]? = some site ∧ m.store.site? g = some site
      ∧ DeclaredAt ds site v.name.lexeme := by
  obtain ⟨site, hsite, hgsite⟩ := hchain.exists_site hg
  obtain ⟨hlt, hnames, -⟩ := List.findIdx?_eq_some_iff_getElem.mp hd
  have hscope := Visit.site_eq hlt hsite
  exact ⟨site, hsite, hgsite, hscope ▸ (h.proper_scope hv (List.getElem_mem hlt)).1 _ hnames⟩

omit h hv in
theorem exists_frame (hd : v.distance = some d) : ∃ g, (m.store.chain m.current)[d]? = some g := by
  obtain ⟨hlt, -, -⟩ := List.findIdx?_eq_some_iff_getElem.mp hd
  have hlength := congrArg List.length hchain.map_site?_chain
  simp only [Visit.sites, List.length_map, List.length_append] at hlength
  exact ⟨_, List.getElem?_eq_getElem (by omega)⟩

include hm in
/-- The frame at the distance of `this` holds it. -/
theorem isSome_slot?_this (hd : v.distance = some d)
    (hg : (m.store.chain m.current)[d]? = some g) (hthis : v.name.lexeme = "this") :
    (m.store.slot? g v.name.lexeme).isSome := by
  obtain ⟨site, -, hgsite, hdeclared⟩ := h.exists_declaredAt hv hchain hd hg
  rw [hthis] at hdeclared ⊢
  obtain ⟨k, rfl⟩ := h.receiver hdeclared
  obtain ⟨fr, hfr, hframe⟩ := Option.map_eq_some_iff.mp hgsite
  obtain ⟨u, hu⟩ := hm.sound.receivers hfr hframe
  simp [Store.slot?, hfr, hu]

variable (htidy : m.store.Tidy ds w)
  (hholder : m.store.holder? m.current v.name.lexeme = some f)

include htidy hholder

include hm in
/-- The frame that holds a name with a distance is the one at this distance. -/
theorem holder_eq (hd : v.distance = some d) (hg : (m.store.chain m.current)[d]? = some g) :
    f = g := by
  obtain ⟨hslot, j, hj, hfirst⟩ := Store.exists_of_holder? hholder
  obtain ⟨site, hsite, hf⟩ := hchain.exists_site hj
  obtain ⟨site', hsite', hgsite, hdeclared'⟩ := h.exists_declaredAt hv hchain hd hg
  have hdeclared := htidy.of_slot? hslot hf
  suffices hjd : j = d by
    rw [hjd, hg] at hj
    exact (Option.some.inj hj).symm
  by_cases hthis : v.name.lexeme = "this"
  · -- both constructs are around methods; the analysis and the walk stop at the first
    have hslot' := h.isSome_slot?_this hv hm hchain hd hg hthis
    rcases Nat.lt_trichotomy j d with hlt | heq | hlt
    · rw [hthis] at hdeclared
      obtain ⟨k, rfl⟩ := h.receiver hdeclared
      obtain ⟨hdlt, -, hbefore⟩ := List.findIdx?_eq_some_iff_getElem.mp hd
      have hjlt : j < v.scopes.length := Nat.lt_trans hlt hdlt
      have hcontains := (h.proper_scope hv (List.getElem_mem hjlt)).2 k (Visit.site_eq hjlt hsite)
      exact absurd (hthis ▸ hcontains) (hbefore j hlt)
    · exact heq
    · rw [hfirst d hlt g hg] at hslot'
      cases hslot'
  · -- the name is declared by one construct, which has one activation in the chain
    rw [← h.site_eq hthis hdeclared hdeclared'] at hsite'
    exact (List.getElem?_inj (List.getElem?_eq_some_iff.mp hsite).1 (h.sites v hv)).mp
      (hsite.trans hsite'.symm)

/-- The frame that holds a name without a distance is the global one. -/
theorem holder_eq_globals (hd : v.distance = none) : f = m.globals := by
  obtain ⟨hslot, j, hj, -⟩ := Store.exists_of_holder? hholder
  obtain ⟨site, hsite, hf⟩ := hchain.exists_site hj
  have hlength : (m.store.chain m.current).length = v.scopes.length + 1 := by
    simpa [Visit.sites] using congrArg List.length hchain.map_site?_chain
  by_cases hlt : j < v.scopes.length
  · exfalso
    have hne : site ≠ .globals := by
      -- the whole program comes last
      rintro rfl
      have hend : v.sites[v.scopes.length]? = some .globals := by simp [Visit.sites]
      have hj' := (List.getElem?_inj (List.getElem?_eq_some_iff.mp hsite).1 (h.sites v hv)).mp
        (hsite.trans hend.symm)
      exact Nat.ne_of_lt hlt hj'
    rcases htidy.of_slot? hslot hf with ⟨d, hd', rfl, hname⟩ | ⟨k, rfl, hthis⟩ | ⟨rfl, -⟩
    · exact h.recorded v hv d hd' hname hne (List.mem_of_getElem? hsite) hd
    · have hcontains := (h.proper_scope hv (List.getElem_mem hlt)).2 k (Visit.site_eq hlt hsite)
      rw [← hthis, v.distance_eq_none_iff.mp hd _ (List.getElem_mem hlt)] at hcontains
      cases hcontains
    · exact hne rfl
  · have hlast := hchain.getLast?_chain
    have hjlt := (List.getElem?_eq_some_iff.mp hj).1
    rw [List.getLast?_eq_getElem?, show _ - 1 = j by omega, hj] at hlast
    exact Option.some.inj hlast

end Holder

/-! ### Look-ups agree -/

section LookUp

variable (h : Charted ds vs D) (hv : v ∈ vs) (hm : m.Ok R D)
  (hchain : m.store.Chained m.globals m.current v.sites) (htidy : m.store.Tidy ds w)

include h hv hchain htidy

/-- Walking outwards to a name without a distance is as good as starting at the global
frame. -/
theorem holder?_globals (hd : v.distance = none) :
    m.store.holder? m.current v.name.lexeme = m.store.holder? m.globals v.name.lexeme := by
  rw [hchain.holder?_root, Store.holder?_eq (List.mem_of_getLast? hchain.getLast?_chain) fun f hf =>
    h.holder_eq_globals hv hchain htidy hf hd]

include hm

/-- The value of a name by distance and by name. -/
theorem value_eq : Naming.byName.value m v.name = Naming.byDistance.value m v.name := by
  unfold Naming.byName Naming.byDistance
  dsimp only
  rw [hm.distances_eq, h.distances v hv]
  cases hd : v.distance with
  | none => simp only [Store.read, h.holder?_globals hv hchain htidy hd]
  | some d =>
    obtain ⟨g, hg⟩ := exists_frame hchain hd
    have hread := Store.read_eq (List.mem_of_getElem? hg) fun f hf =>
      h.holder_eq hv hm hchain htidy hf hd hg
    simp only [hread, Store.readAt?, hchain.ancestor?_eq, hg, Option.map_some]

/-- The frame of an assignment by distance and by name. -/
theorem target_eq (hbound : v.name.lexeme ≠ "this" → ∀ site ∈ v.site?,
      m.store.Bound (site, v.name.lexeme) m.current) :
    Naming.byName.target m v.name = Naming.byDistance.target m v.name := by
  unfold Naming.byName Naming.byDistance
  dsimp only
  rw [hm.distances_eq, h.distances v hv]
  cases hd : v.distance with
  | none => simp only [Store.holderAt, h.holder?_globals hv hchain htidy hd]
  | some d =>
    obtain ⟨g, hg⟩ := exists_frame hchain hd
    have hholds : (m.store.holder? m.current v.name.lexeme).isSome := by
      by_cases hthis : v.name.lexeme = "this"
      · have hslot := h.isSome_slot?_this hv hm hchain hd hg hthis
        rw [Store.holder?, List.find?_isSome]
        exact ⟨g, List.mem_of_getElem? hg, hslot⟩
      · obtain ⟨-, site, -, -, hsite⟩ := v.exists_frame hchain hd
        exact (hbound hthis site hsite).isSome_holder? hchain
    obtain ⟨f, hf⟩ := Option.isSome_iff_exists.mp hholds
    have hfg := h.holder_eq hv hm hchain htidy hf hd hg
    simp only [Store.holderAt, hchain.ancestor?_eq, hg, hf, hfg]

end LookUp

end Charted

variable {ds : List Declaration} {vs : List Visit} {ts : List Token} {D : Distances}

/-- Look-ups by distance and by name agree, where names occur. -/
theorem Charted.agrees (h : Charted ds vs D) {w : Access → Token → List Binding → Prop}
    (hwrites : ∀ v ∈ vs, ∀ env, w .write v.name env → v.name.lexeme ≠ "this" →
      ∀ site ∈ v.site?, (site, v.name.lexeme) ∈ env) :
    Agrees .refl ds w (Naming.byDistance.within (Rules vs ts) D) .byName where
  value {m t _ _} hm _ := by
    rcases Naming.byDistance.within_value (Rules vs ts) D m t with
      hgive | ⟨⟨p, hat, ht⟩, heq⟩
    · exact .inl hgive
    · obtain ⟨v, hv, rfl, hchain, -⟩ := ht.exists_visit h.distances hat
      rw [Renaming.refl_machine, heq]
      exact .inr ((h.value_eq hv hat.toOk hchain hm.tidy).symm ▸ .refl _)
  target {m t _ env} hm hw := by
    rcases Naming.byDistance.within_target (Rules vs ts) D m t with
      hgive | ⟨⟨p, hat, ht⟩, heq⟩
    · exact .inl hgive
    · obtain ⟨v, hv, rfl, hchain, -, hdistance⟩ := ht.exists_visit h.distances hat
      have hbound : v.name.lexeme ≠ "this" → ∀ site ∈ v.site?,
          m.store.Bound (site, v.name.lexeme) m.current := fun hthis site hsite =>
        hm.bound _ (hwrites v hv env hw hthis site hsite)
      rw [Renaming.refl_machine, heq]
      refine .inr ⟨(h.target_eq hv hat.toOk hchain hm.tidy hbound).symm ▸ .refl _,
        fun f hf => ?_⟩
      obtain ⟨site, hsite, hdeclared, -⟩ :=
        v.exists_target hm.tidy (h.proper v hv) hchain hdistance hf
      exact ⟨site, hsite, hdeclared, rfl⟩
  spares _ _ _ := rfl

/-! ### Plainly named programs -/

/-- The name that occurs, if a name does. -/
def Item.name? : Item → Option Token
  | .name t => some t
  | _ => none

/-- All names that a program declares are different, and they are used where they are
known. -/
structure Program.PlainlyNamed (D : Distances) (program : Program) : Prop where
  /-- No name is declared twice. -/
  nodup : (program.declarations.map fun d => d.name.lexeme).Nodup
  /-- The name of the native function is not declared. -/
  clock : ∀ d ∈ program.declarations, d.name.lexeme ≠ "clock"
  /-- A name that a construct around declares has a distance. -/
  recorded : ∀ o ∈ program.occurrences, ∀ t ∈ o.item.name?, ∀ d ∈ program.declarations,
    d.name.lexeme = t.lexeme → d.site ≠ .globals → d.site ∈ o.place.sites →
      (D.find? t.position).isSome
  /-- A variable is not assigned to by its own initializer. -/
  initializer : ∀ d ∈ program.declarations, ∀ e ∈ d.initializer, ∀ u ∈ e.accesses,
    u.1 = .write → u.2.lexeme ≠ d.name.lexeme

instance (D : Distances) (program : Program) : Decidable (program.PlainlyNamed D) :=
  decidable_of_iff (_ ∧ _ ∧ _ ∧ _)
    ⟨fun ⟨h₁, h₂, h₃, h₄⟩ => ⟨h₁, h₂, h₃, h₄⟩, fun ⟨h₁, h₂, h₃, h₄⟩ => ⟨h₁, h₂, h₃, h₄⟩⟩

/-- The visits whose constructs are those around an occurrence of the name. -/
def Program.placed (program : Program) (vs : List Visit) : List Visit :=
  vs.filter fun v =>
    decide (∃ o ∈ program.occurrences, o.item = .name v.name ∧ o.place.sites = v.sites)

theorem Program.mem_placed {program : Program} {v : Visit} :
    v ∈ program.placed vs ↔ v ∈ vs
      ∧ ∃ o ∈ program.occurrences, o.item = .name v.name ∧ o.place.sites = v.sites := by
  rw [placed, List.mem_filter, decide_eq_true_eq]

/-- An occurrence is checked by a visit that is placed. -/
theorem Occurrence.Checked.placed {program : Program} {o : Occurrence} (h : o.Checked vs)
    (ho : o ∈ program.occurrences) : o.Checked (program.placed vs) := by
  obtain ⟨p, i⟩ := o
  cases i with
  | name t =>
    obtain ⟨v, hv, rfl, hsites⟩ := h
    exact ⟨v, Program.mem_placed.mpr ⟨hv, _, ho, rfl, hsites.symm⟩, rfl, hsites⟩
  | _ => exact h

/-- An interpreter that has taken no text has the machine before any text, but for what was
printed. -/
theorem Reached.machine_eq {depth rounds : Nat} {runs : List Run} {i : Interpreter}
    (h : Reached depth rounds runs i) (hruns : runs = []) :
    ∃ clock, i.machine = { Machine.initial clock with output := i.machine.output } := by
  induction h with
  | @start log log' path interactive contents? clock i h =>
    refine ⟨clock, ?_⟩
    show i.machine = { Machine.initial clock with output := i.machine.output }
    rw [(Interpreter.start_eq_ok h).1]
  | take => simp at hruns
  | meanwhile _ log output clock ih =>
    obtain ⟨clock₀, hmachine⟩ := ih hruns
    refine ⟨clock, ?_⟩
    rw [Interpreter.meanwhile, hmachine]
    rfl

section Run

variable {r : Run} {program : Program} (hprogram : r.program? = some program)

include hprogram

variable (hsession : Session [] r.before.machine r.before.nextPosition)
  (hnames : program.PlainlyNamed (Analysis.ofProgram program r.before.machine.distances).distances)

include hsession

/-- The distances after the first text. -/
theorem Run.find?_distances : ∀ v ∈ r.visits,
    (Analysis.ofProgram program r.before.machine.distances).distances.find? v.name.position
      = v.distance := by
  intro v hv
  rw [(Run.walks hprogram).distances_eq]
  exact hsession.take.find?_distances v (by simpa using hv)

include hnames

/-- What is known of a plainly named program that is the first text. -/
theorem Run.charted : Charted program.declarations (program.placed r.visits)
    (Analysis.ofProgram program r.before.machine.distances).distances where
  nodup := hnames.nodup
  clock := hnames.clock
  this _ hd := Run.name_ne_this (Run.declarations_eq hprogram ▸ hd)
  sites v hv := by
    obtain ⟨-, o, ho, -, hsites⟩ := Program.mem_placed.mp hv
    have hpositions := r.nodup_positions
    rw [Run.occurrences_eq hprogram] at hpositions
    exact hsites ▸ Program.nodup_sites hpositions ho
  proper v hv :=
    r.proper (Run.declarations_eq hprogram ▸ List.Subset.refl _) (Program.mem_placed.mp hv).1
  distances v hv := Run.find?_distances hprogram hsession v (Program.mem_placed.mp hv).1
  recorded v hv d hd hname hglobals hsite hnone := by
    obtain ⟨hv, o, ho, hitem, hsites⟩ := Program.mem_placed.mp hv
    have hrecorded := hnames.recorded o ho v.name (by rw [hitem]; rfl) d hd hname hglobals
      (hsites ▸ hsite)
    rw [Run.find?_distances hprogram hsession v hv, hnone] at hrecorded
    cases hrecorded

omit hprogram in
/-- A name that is assigned to at a distance is bound. -/
theorem Run.bound_of_write {v : Visit} (hv : v ∈ program.placed r.visits) {env : List Binding}
    (hw : Settled program.declarations r.visits .write v.name env)
    (hthis : v.name.lexeme ≠ "this") {site : Site} (hsite : v.site? = some site) :
    (site, v.name.lexeme) ∈ env := by
  obtain ⟨v', hv', hname, hsettled⟩ := hw
  have hvisits : (r.visits.map fun v => v.name.position).Nodup := by
    simpa using hsession.take.nodup_visits
  have heq : v' = v := List.inj_on_of_nodup_map hvisits hv' (Program.mem_placed.mp hv).1
    (by rw [hname])
  rw [heq] at hsettled
  rcases hsettled hthis site hsite with hmem | ⟨d, hd, -, -, hlexeme, e, he, hu⟩
  · exact hmem
  · exact absurd hlexeme.symm (hnames.initializer d hd e he _ hu rfl)

/-- A plainly named program that is the first text runs in the same way by name and by
distance. -/
theorem Run.runProgram_byName {clock : Clock} {output : String}
    (hinitial : r.before.machine = { Machine.initial clock with output })
    (hnaming : r.before.limits.naming = .byDistance)
    (hclean : (Analysis.ofProgram program r.before.machine.distances).Clean) :
    let m : Machine := { r.before.machine with
      distances := (Analysis.ofProgram program r.before.machine.distances).distances }
    runProgram { r.before.limits with naming := .byName } program m
      = runProgram r.before.limits program m := by
  intro m
  have hat : m.At (Rules (program.placed r.visits) r.tokens) m.distances .top := by
    have hat : r.before.machine.At (Rules (program.placed r.visits) r.tokens) .empty .top := by
      rw [hinitial]
      exact (Machine.at_initial _ clock).meanwhile output clock
    exact ⟨⟨hat.sound, rfl⟩, hat.chained⟩
  have htidy : r.before.machine.store.Tidy program.declarations
      (Settled program.declarations r.visits) := by
    rw [hinitial]
    exact Store.tidy_initial _ _ clock
  have hrules : ∀ o ∈ program.occurrences, Rules (program.placed r.visits) r.tokens o := by
    intro o ho
    have hrules := Run.rules_of_clean hprogram hclean ho
    exact { hrules with checked := hrules.checked.placed ho }
  have hcharted := Run.charted hprogram hsession hnames
  have hagrees : Agrees .refl program.declarations (Settled program.declarations r.visits)
      (Naming.byDistance.within (Rules (program.placed r.visits) r.tokens) m.distances) .byName :=
    hcharted.agrees fun v hv env hw hthis site hsite =>
      Run.bound_of_write hsession hnames hv hw hthis hsite
  exact hagrees.runProgram_eq hnaming hcharted.distances hat htidy hrules (List.Subset.refl _)
    (Run.settled hprogram hclean fun h => Run.declarations_eq hprogram ▸ h)

end Run

/-- **A plainly named program does the same by name as by distance.**  It prints the same,
ends in the same way, and the same faults are reported. -/
theorem Reached.process_byName {depth rounds : Nat} {i : Interpreter} {r : Run}
    {program : Program} (h : Reached depth rounds [] i) (hr : i.Takes r)
    (hprogram : r.program? = some program)
    (hnames : program.PlainlyNamed
      (Analysis.ofProgram program r.before.machine.distances).distances) :
    { r.before with limits := { r.before.limits with naming := .byName } }.process
        r.source r.line
      = ({ r.result.1 with limits := { r.before.limits with naming := .byName } },
        r.result.2) := by
  obtain ⟨hsession, hlimits⟩ := h.session
  obtain ⟨clock, hinitial⟩ := h.machine_eq rfl
  obtain ⟨hmachine, hposition, hbefore⟩ := hr.before_eq
  rw [← hmachine, ← hposition] at hsession
  rw [← hmachine] at hinitial
  rcases Interpreter.process_cases r with ⟨hnone, -⟩ | ⟨program', log, hsome, hrest⟩
  · rw [hnone] at hprogram
    cases hprogram
  · cases hsome.symm.trans hprogram
    rcases hrest with ⟨-, hprocess⟩ | ⟨hclean, hprocess, -⟩
    · -- the program is not run, and names are not looked up
      have hresult : r.result = _ := hprocess r.before.limits
      rw [hprocess, hresult]
    · have hresult : r.result = _ := hprocess r.before.limits
      have hnaming : r.before.limits.naming = .byDistance := by rw [hbefore, hlimits]
      have hrun := Run.runProgram_byName hprogram hsession hnames hinitial hnaming hclean
      rw [hprocess, hresult]
      unfold Interpreter.execute
      dsimp only at hrun ⊢
      rw [hrun]
      cases runProgram r.before.limits program _ with
      | ok => rfl
      | error f => cases f <;> rfl

/-- Methods and closures that assign to captured names, and a name that is not there. -/
theorem Reached.process_byName_counter :
    let source := "fun f(a) \x7b var b = a; fun g() \x7b b = b + a; return b; \x7d return g; \x7d\n"
      ++ "class C \x7b m(d) \x7b this.e = d; return this; \x7d \x7d\n"
      ++ "print C().m(f(\"x\")).e();\nprint h;"
    let r := (Interpreter.terminal 30 2).entry source 1
    { r.before with limits := { r.before.limits with naming := .byName } }.process
          r.source r.line
        = ({ r.result.1 with limits := { r.before.limits with naming := .byName } }, r.result.2)
      ∧ r.result.1.machine.output = "xx\n" ∧ r.result.2 = .finished false
      ∧ r.result.1.log.errors.map Diagnostic.line = #[some 4] := by
  intro source r
  obtain ⟨program, hprogram, hnames, hresult⟩ : ∃ program ∈ r.program?,
      program.PlainlyNamed (Analysis.ofProgram program r.before.machine.distances).distances
        ∧ r.result.1.machine.output = "xx\n" ∧ r.result.2 = .finished false
        ∧ r.result.1.log.errors.map Diagnostic.line = #[some 4] := by decide +kernel
  have hreached : Reached 30 2 [] (Interpreter.terminal 30 2) := .terminal 30 2
  exact ⟨hreached.process_byName (.entry source 1) hprogram hnames, hresult⟩

end LoxLang
