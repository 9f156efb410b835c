import LoxLang.Proofs.Interpreter.Session
import LoxLang.Proofs.Machine.Agreement
import LoxLang.Proofs.Scope.Unique
import LoxLang.Proofs.Token.Reserved

/-!
# The names of all texts

What the analysis found out about the names of a text holds whenever the text is run, also
when one of its functions is called by a later text.  Frames hold only what their constructs
declare, in any text, and what a function uses is bound where it was made, as far as its text
tells.

## Main definitions

* `Run.declarations` — the declarations of a text.
* `Run.Faultless` — a text in which nothing is found wrong before it is run.
* `SettledIn` — a use of a name is settled in one of some texts.
* `Visit.RefersTo` — a visited name refers to a declaration.
* `Machine.LooksUp` — a machine has come to where a name occurs.

## Main results

* `Agrees.runProgram_within` — running a program and the renamed one, with look-ups that agree
  wherever names occur.
* `Reached.tidy` — the store is tidy in every session.
* `Reached.runProgram_guarded` — what holds when names are looked up may guard a run.
-/

namespace LoxLang

/-! ### A single text -/

/-- The declarations of the program. -/
def Run.declarations (r : Run) : List Declaration := r.program?.elim [] Program.declarations

/-- Nothing is found wrong with a text before it is run. -/
def Run.Faultless (r : Run) : Prop :=
  ∃ program, r.program? = some program
    ∧ (Analysis.ofProgram program r.before.machine.distances).Clean

/-- A use of a name is settled in one of some texts. -/
def SettledIn (runs : List Run) (k : Access) (t : Token) (env : List Binding) : Prop :=
  ∃ r ∈ runs, r.Faultless ∧ Settled r.declarations r.visits k t env

/-- A name was found in the scope of the construct in which a declaration of it stands. -/
def Visit.RefersTo (v : Visit) (δ : Declaration) : Prop :=
  v.site? = some δ.site ∧ δ.name.lexeme = v.name.lexeme

instance (v : Visit) (δ : Declaration) : Decidable (v.RefersTo δ) :=
  inferInstanceAs (Decidable (_ ∧ _))

/-- In a session with some texts, a machine has come to a place where a name occurs, and names
are bound there as the text tells. -/
def Machine.LooksUp (runs : List Run) (m : Machine) (t : Token) : Prop :=
  ∃ (m₀ : Machine) (next : Nat) (p : Place) (k : Access) (site : Site) (env : List Binding),
    Session runs m₀ next
      ∧ m.Ready (runs.flatMap Run.declarations) (SettledIn runs) site env
      ∧ m.At (Rules (runs.flatMap Run.visits) (runs.flatMap Run.tokens)) m₀.distances p
      ∧ Rules (runs.flatMap Run.visits) (runs.flatMap Run.tokens) ⟨p, .name t⟩
      ∧ (t.kind = .kwThis ∨ SettledIn runs k t env)

namespace Run

variable {r : Run} {program : Program} {ds : List Declaration}

theorem declarations_eq (h : r.program? = some program) :
    r.declarations = program.declarations := by
  rw [declarations, h]
  rfl

theorem visits_eq (h : r.program? = some program) :
    r.visits = (Analysis.ofProgram program r.before.machine.distances).visits.toList := by
  rw [visits, h]
  rfl

/-- A declared name is a token of the text, and no reserved word. -/
theorem namedIn {d : Declaration} (hd : d ∈ r.declarations) : d.NamedIn r.tokens := by
  cases h : r.program? with
  | none => simp [declarations, h] at hd
  | some program =>
    rw [declarations_eq h] at hd
    obtain ⟨⟨hmem, hkind⟩, -⟩ := (Interpreter.derives_of_read h).declared .globals d hd
    exact ⟨List.mem_append_left _ hmem, hkind⟩

/-- No declared name is `this`. -/
theorem name_ne_this {d : Declaration} (hd : d ∈ r.declarations) : d.name.lexeme ≠ "this" := by
  have hkeyword := Lexed.keyword?_eq_none (namedIn hd).1 (namedIn hd).2
  intro hthis
  rw [hthis] at hkeyword
  cases hkeyword

/-- A construct that declares something has a position within the text, unless it is the whole
program. -/
theorem site_position {d : Declaration} (hd : d ∈ r.declarations) (hglobals : d.site ≠ .globals) :
    r.before.nextPosition ≤ d.site.position ∧ d.site.position < r.next := by
  cases h : r.program? with
  | none => simp [declarations, h] at hd
  | some program =>
    rw [declarations_eq h] at hd
    obtain ⟨-, hplaced⟩ := (Interpreter.derives_of_read h).declared .globals d hd
    obtain ⟨t, ht, hposition⟩ := hplaced.resolve_left hglobals
    have hle := Lexed.le_position_of_mem ht
    have hlt := Lexed.position_lt_of_mem ht
    rw [← hposition, next]
    omega

/-- When a name was visited, scopes held what the text declares. -/
theorem proper (hds : r.declarations ⊆ ds) {v : Visit} (hv : v ∈ r.visits) :
    v.outline.Proper ds := by
  cases h : r.program? with
  | none => simp [visits, h] at hv
  | some program =>
    rw [visits_eq h] at hv
    rw [declarations_eq h] at hds
    exact (Analysis.proper_ofProgram _ hds).visits v hv

/-- The uses of names in a text without fault are settled. -/
theorem settled (h : r.program? = some program)
    (hclean : (Analysis.ofProgram program r.before.machine.distances).Clean)
    {w : Access → Token → List Binding → Prop}
    (hw : ∀ {k : Access} {t : Token} {env : List Binding},
      Settled r.declarations r.visits k t env → w k t env) :
    stmtsScoped w program .globals [] := by
  rw [declarations_eq h, visits_eq h] at hw
  exact Program.settled hw (Interpreter.derives_of_read h).wellFormed (List.Subset.refl _)
    ⟨List.Subset.refl _, hclean⟩

/-- In a text without fault, a construct and a name determine the declaration. -/
theorem Faultless.declaration_unique (h : r.Faultless) {d d' : Declaration}
    (hd : d ∈ r.declarations) (hd' : d' ∈ r.declarations) (hglobals : d.site ≠ .globals)
    (hbinding : d'.binding = d.binding) : d' = d := by
  obtain ⟨program, hprogram, hclean⟩ := h
  rw [declarations_eq hprogram] at hd hd'
  have hpositions := r.nodup_positions
  rw [occurrences_eq hprogram] at hpositions
  exact Program.declaration_unique hclean hpositions hd hd' hglobals hbinding

end Run

/-! ### Where names are looked up -/

section LookUp

variable {ds : List Declaration} {vs : List Visit} {ts : List Token} {D : Distances}
  {R : Occurrence → Prop} {w : Access → Token → List Binding → Prop} {m : Machine} {p : Place}
  {t : Token} {v : Visit} {d : Nat}

/-- A look-up that is guarded gives up, or the condition holds. -/
theorem Naming.guarded_value (n : Naming) (P : Machine → Token → Prop) [∀ m t, Decidable (P m t)]
    (m : Machine) (t : Token) :
    (n.guarded P).value m t = .error .dangling
      ∨ P m t ∧ (n.guarded P).value m t = n.value m t := by
  by_cases hP : P m t
  · exact .inr ⟨hP, if_pos hP⟩
  · exact .inl (if_neg hP)

theorem Naming.guarded_target (n : Naming) (P : Machine → Token → Prop)
    [∀ m t, Decidable (P m t)] (m : Machine) (t : Token) :
    (n.guarded P).target m t = .error .dangling
      ∨ P m t ∧ (n.guarded P).target m t = n.target m t := by
  by_cases hP : P m t
  · exact .inr ⟨hP, if_pos hP⟩
  · exact .inl (if_neg hP)

open Classical in
/-- A look-up gives up, or it is made where the name occurs. -/
theorem Naming.within_value (n : Naming) (R : Occurrence → Prop) (D : Distances) (m : Machine)
    (t : Token) :
    (n.within R D).value m t = .error .dangling
      ∨ (∃ p, m.At R D p ∧ R ⟨p, .name t⟩) ∧ (n.within R D).value m t = n.value m t :=
  n.guarded_value _ m t

open Classical in
theorem Naming.within_target (n : Naming) (R : Occurrence → Prop) (D : Distances) (m : Machine)
    (t : Token) :
    (n.within R D).target m t = .error .dangling
      ∨ (∃ p, m.At R D p ∧ R ⟨p, .name t⟩) ∧ (n.within R D).target m t = n.target m t :=
  n.guarded_target _ m t

/-- The frame at the distance of a visit is an activation of the construct in whose scope the
name was found. -/
theorem Visit.exists_frame (hchain : m.store.Chained m.globals m.current v.sites)
    (hd : v.distance = some d) :
    ∃ g site, m.store.ancestor? m.current d = some g ∧ m.store.site? g = some site
      ∧ v.site? = some site := by
  obtain ⟨s, hs, -⟩ := v.exists_scope hd
  have hlt : d < v.scopes.length := (List.getElem?_eq_some_iff.mp hs).1
  have hsite : v.sites[d]? = some s.site := by
    rw [Visit.sites, List.getElem?_append_left (by simpa using hlt), List.getElem?_map, hs]
    rfl
  obtain ⟨g, hg, hgsite⟩ := hchain.ancestor?_eq_some
    (d := d) (by rw [Visit.sites, List.length_append, List.length_map]; omega)
  refine ⟨g, s.site, hg, hgsite.trans hsite, ?_⟩
  rw [Visit.site?, hd, Option.bind_some, hs, Option.map_some]

/-- The outermost frame is the activation of the whole program. -/
theorem Visit.site?_globals (hchain : m.store.Chained m.globals m.current v.sites) :
    m.store.site? m.globals = some .globals := by
  have hlast := congrArg List.getLast? hchain.map_site?_chain
  rw [List.getLast?_map, hchain.getLast?_chain] at hlast
  simpa [Visit.sites] using hlast

/-- A construct in whose scope a name was found declares the name. -/
theorem Visit.declaredAt (hproper : v.outline.Proper ds) {site : Site}
    (hsite : v.site? = some site) : DeclaredAt ds site v.name.lexeme := by
  obtain ⟨s, hs, rfl, hnames⟩ := v.exists_of_site? hsite
  exact (hproper (s.site, s.names.contains) (List.mem_map_of_mem hs)).1 _ hnames

/-- Only a construct around methods declares `this`, and its activations hold it. -/
theorem Store.Sound.isSome_this {s : Store} {g f : FrameId} (h : s.Sound R g)
    (hthis : ∀ d ∈ ds, d.name.lexeme ≠ "this") {site : Site} (hx : DeclaredAt ds site "this")
    (hsite : s.site? f = some site) : (s.slot? f "this").isSome := by
  rcases hx with ⟨d, hd, -, heq⟩ | ⟨k, rfl, -⟩ | ⟨-, heq⟩
  · exact absurd heq (hthis d hd)
  · obtain ⟨fr, hfr, hframe⟩ := Option.map_eq_some_iff.mp hsite
    obtain ⟨u, hu⟩ := h.receivers hfr hframe
    simp [Store.slot?, hfr, hu]
  · exact absurd heq (by decide)

/-- Where a name occurs, there is a visit whose scopes the frames mirror. -/
theorem Rules.exists_visit (hD : ∀ v ∈ vs, D.find? v.name.position = v.distance)
    (hm : m.At R D p) (ht : Rules vs ts ⟨p, .name t⟩) :
    ∃ v ∈ vs, v.name = t ∧ m.store.Chained m.globals m.current v.sites ∧ v.sites.Nodup
      ∧ m.distances.find? t.position = v.distance := by
  obtain ⟨v, hv, rfl, hsites⟩ := ht.checked
  refine ⟨v, hv, rfl, hsites ▸ hm.chained, hsites ▸ ht.nodup, ?_⟩
  rw [hm.distances_eq]
  exact hD v hv

/-- The frame of an assignment is the activation of a construct that declares the name. -/
theorem Visit.exists_target (htidy : m.store.Tidy ds w) (hproper : v.outline.Proper ds)
    (hchain : m.store.Chained m.globals m.current v.sites)
    (hdistance : m.distances.find? v.name.position = v.distance) {f : FrameId}
    (hf : Naming.byDistance.target m v.name = .ok f) :
    ∃ site, m.store.site? f = some site ∧ DeclaredAt ds site v.name.lexeme
      ∧ (v.distance = none ∧ f = m.globals ∧ site = .globals ∨ v.site? = some site) := by
  unfold Naming.byDistance at hf
  dsimp only at hf
  rw [hdistance] at hf
  cases hd : v.distance with
  | none =>
    have hroot := hchain.holder?_root (x := v.name.lexeme)
    simp only [hd, Store.holderAt, hroot] at hf
    by_cases hslot : (m.store.slot? m.globals v.name.lexeme).isSome
    · simp only [if_pos hslot, Except.ok.injEq] at hf
      subst hf
      have hsite := v.site?_globals hchain
      exact ⟨.globals, hsite, htidy.of_slot? hslot hsite, .inl ⟨rfl, rfl, rfl⟩⟩
    · simp [hslot] at hf
  | some d =>
    obtain ⟨g, site, hg, hgsite, hsite⟩ := v.exists_frame hchain hd
    simp only [hd, hg, Except.ok.injEq] at hf
    subst hf
    exact ⟨site, hgsite, v.declaredAt hproper hsite, .inr hsite⟩

/-- Look-ups by distance may be guarded by what holds where names are bound as the text
tells. -/
theorem agrees_guarded (hD : ∀ v ∈ vs, D.find? v.name.position = v.distance)
    (hproper : ∀ v ∈ vs, v.outline.Proper ds) {P : Machine → Token → Prop}
    [∀ m t, Decidable (P m t)]
    (hP : ∀ {m : Machine} {t : Token} {p : Place} {k : Access} {site : Site} {env : List Binding},
      m.Ready ds w site env → m.At (Rules vs ts) D p → Rules vs ts ⟨p, .name t⟩ →
      t.kind = .kwThis ∨ w k t env → P m t) :
    Agrees .refl ds w (Naming.byDistance.within (Rules vs ts) D)
      (Naming.byDistance.guarded P) where
  value {m t _ _} hm hw := by
    rcases Naming.byDistance.within_value (Rules vs ts) D m t with
      hgive | ⟨⟨p, hat, ht⟩, heq⟩
    · exact .inl hgive
    · have hguarded : (Naming.byDistance.guarded P).value m t = Naming.byDistance.value m t :=
        if_pos (hP hm hat ht hw)
      rw [Renaming.refl_machine, heq]
      exact .inr (hguarded.symm ▸ .refl _)
  target {m t _ _} hm hw := by
    rcases Naming.byDistance.within_target (Rules vs ts) D m t with
      hgive | ⟨⟨p, hat, ht⟩, heq⟩
    · exact .inl hgive
    · have hguarded : (Naming.byDistance.guarded P).target m t = Naming.byDistance.target m t :=
        if_pos (hP hm hat ht (.inr hw))
      rw [Renaming.refl_machine, heq]
      refine .inr ⟨hguarded.symm ▸ .refl _, fun f hf => ?_⟩
      obtain ⟨v, hv, rfl, hchain, -, hdistance⟩ := ht.exists_visit hD hat
      obtain ⟨site, hsite, hdeclared, -⟩ :=
        v.exists_target hm.tidy (hproper v hv) hchain hdistance hf
      exact ⟨site, hsite, hdeclared, rfl⟩
  spares _ _ _ := rfl

open Classical in
/-- Look-ups by distance agree with themselves, where names occur. -/
theorem agrees_within (hD : ∀ v ∈ vs, D.find? v.name.position = v.distance)
    (hproper : ∀ v ∈ vs, v.outline.Proper ds) :
    Agrees .refl ds w (Naming.byDistance.within (Rules vs ts) D)
      (Naming.byDistance.within (Rules vs ts) D) :=
  agrees_guarded hD hproper fun _ hat ht _ => ⟨_, hat, ht⟩

end LookUp

/-! ### Running a program -/

section RunProgram

variable {ρ : Renaming} {ds : List Declaration} {vs : List Visit} {ts : List Token}
  {D : Distances} {w : Access → Token → List Binding → Prop} {m : Machine} {n' : Naming}
  {limits : Limits} {program : Program}

/-- Running a program and the renamed one, with look-ups that agree wherever names occur. -/
theorem Agrees.runProgram_within
    (laws : Agrees ρ ds w (Naming.byDistance.within (Rules vs ts) D) n')
    (hnaming : limits.naming = .byDistance)
    (hD : ∀ v ∈ vs, D.find? v.name.position = v.distance)
    (hm : m.At (Rules vs ts) D .top) (htidy : m.store.Tidy ds w)
    (hrules : ∀ o ∈ program.occurrences, Rules vs ts o) (hd : program.declarations ⊆ ds)
    (hs : stmtsScoped w program .globals []) :
    match runProgram limits program m with
    | .ok _ m' => runProgram { limits with naming := n' } (program.rename ρ) (ρ.machine m)
          = .ok () (ρ.machine m')
        ∧ Keeping ds w m m'
    | .error f m' => (∃ f', ρ.Blames f f'
          ∧ runProgram { limits with naming := n' } (program.rename ρ) (ρ.machine m)
            = .error f' (ρ.machine m'))
        ∧ Keeping ds w m m' := by
  let guarded : Limits := { limits with naming := Naming.byDistance.within (Rules vs ts) D }
  have hwithin : Laws (Rules vs ts) (Blamed ts) D limits.naming guarded.naming := by
    rw [hnaming]
    exact (laws_of_visits hD (fun _ _ _ => rfl) fun _ _ _ => rfl).within
  obtain ⟨heq, hrun⟩ := hwithin.runProgram_runs program hm hrules
  have hready : m.Ready ds w .globals [] :=
    ⟨htidy, hm.chained.site?_eq, fun _ hb => absurd hb List.not_mem_nil⟩
  have hguarded : Agrees ρ ds w guarded.naming n' := laws
  have hfollows := hguarded.runProgram_follows program hready hd hs
  unfold Follows at hfollows
  rw [heq] at hfollows
  cases hr : runProgram limits program m with
  | ok _ m' =>
    rw [hr] at hfollows
    exact ⟨hfollows.1, hfollows.2.1⟩
  | error f m' =>
    rw [hr] at hfollows hrun
    refine hfollows.resolve_left ?_
    -- names are looked up where they occur, so that the run never gives up
    rintro rfl
    rcases hrun.2 with h | h | ⟨_, _, h, -⟩ <;> cases h

/-- A program runs in the same way with look-ups that agree wherever names occur. -/
theorem Agrees.runProgram_eq
    (laws : Agrees .refl ds w (Naming.byDistance.within (Rules vs ts) D) n')
    (hnaming : limits.naming = .byDistance)
    (hD : ∀ v ∈ vs, D.find? v.name.position = v.distance)
    (hm : m.At (Rules vs ts) D .top) (htidy : m.store.Tidy ds w)
    (hrules : ∀ o ∈ program.occurrences, Rules vs ts o) (hd : program.declarations ⊆ ds)
    (hs : stmtsScoped w program .globals []) :
    runProgram { limits with naming := n' } program m = runProgram limits program m := by
  have hrun := laws.runProgram_within hnaming hD hm htidy hrules hd hs
  rw [Renaming.refl_machine, Renaming.refl_program] at hrun
  cases hr : runProgram limits program m with
  | ok a m' =>
    rw [hr] at hrun
    rw [hrun.1, Renaming.refl_machine]
  | error f m' =>
    rw [hr] at hrun
    obtain ⟨⟨f', hf, hrun⟩, -⟩ := hrun
    rw [hrun, Renaming.refl_machine]
    rcases hf with rfl | ⟨cause, t, rfl, rfl⟩ <;> rfl

end RunProgram

/-! ### All texts of a session -/

/-- The machine before any text holds the clock alone. -/
theorem Store.tidy_initial (ds : List Declaration) (w : Access → Token → List Binding → Prop)
    (clock : Clock) : (Machine.initial clock).store.Tidy ds w := by
  have hempty : Store.Tidy ds w {} := ⟨fun h => by simp at h, fun h => by simp at h⟩
  refine ((hempty.of_extends (Store.extends_newNative _ _) rfl rfl).newFrame .globals none).define
    fun site hsite => ?_
  cases hsite
  exact DeclaredAt.mayHold (.inr (.inr ⟨rfl, rfl⟩)) _

section Session

variable {runs runs' : List Run} {r : Run} {depth rounds : Nat} {i : Interpreter}

/-- When a name of any text was visited, scopes held what the texts declare. -/
theorem proper_of_mem_visits (hruns : runs ⊆ runs') :
    ∀ v ∈ runs.flatMap Run.visits, v.outline.Proper (runs'.flatMap Run.declarations) := by
  intro v hv
  obtain ⟨r, hr, hv⟩ := List.mem_flatMap.mp hv
  exact r.proper (fun d hd => List.mem_flatMap.mpr ⟨r, hruns hr, hd⟩) hv

/-- What a program declares is declared in the texts, if its own is among them. -/
theorem Run.declarations_subset (hr : r ∈ runs) {program : Program}
    (hprogram : r.program? = some program) :
    program.declarations ⊆ runs.flatMap Run.declarations := by
  rw [← Run.declarations_eq hprogram]
  exact fun d hd => List.mem_flatMap.mpr ⟨r, hr, hd⟩

/-- The uses of names in a program without fault are settled in the texts. -/
theorem Run.settledIn (hr : r ∈ runs) {program : Program} (hprogram : r.program? = some program)
    (hclean : (Analysis.ofProgram program r.before.machine.distances).Clean) :
    stmtsScoped (SettledIn runs) program .globals [] :=
  Run.settled hprogram hclean fun h => ⟨r, hr, ⟨program, hprogram, hclean⟩, h⟩

theorem name_ne_this_of_mem : ∀ d ∈ runs.flatMap Run.declarations, d.name.lexeme ≠ "this" := by
  intro d hd
  obtain ⟨r, -, hd⟩ := List.mem_flatMap.mp hd
  exact Run.name_ne_this hd

/-- Taking a text leaves the store tidy. -/
theorem Session.tidy_result (h : Session runs r.before.machine r.before.nextPosition)
    (hnaming : r.before.limits.naming = .byDistance) (hruns : runs ++ [r] ⊆ runs')
    (htidy : r.before.machine.store.Tidy (runs'.flatMap Run.declarations) (SettledIn runs')) :
    r.result.1.machine.store.Tidy (runs'.flatMap Run.declarations) (SettledIn runs') := by
  have hmem : r ∈ runs' := hruns List.mem_concat_self
  rcases r.machine_cases with heq | ⟨program, hsome, hclean, hends⟩
  · rw [heq]
    exact htidy
  have hsession := h.analyzed hsome
  have hproper := proper_of_mem_visits hruns
  have hagrees : Agrees .refl (runs'.flatMap Run.declarations) (SettledIn runs')
      (Naming.byDistance.within (Rules _ ((runs ++ [r]).flatMap Run.tokens)) _) _ :=
    agrees_within hsession.find?_distances hproper
  have hrun := hagrees.runProgram_within hnaming hsession.find?_distances hsession.at_top htidy
    (Run.rules_of_clean_append runs hsome hclean) (Run.declarations_subset hmem hsome)
    (Run.settledIn hmem hsome hclean)
  rcases hends with ⟨_, hr⟩ | ⟨f, hr⟩
  · rw [hr] at hrun
    exact hrun.2.tidy
  · rw [hr] at hrun
    exact hrun.2.tidy

/-- In all texts, a construct and a name determine the declaration. -/
theorem Session.declaration_unique {m : Machine} {next : Nat} (h : Session runs m next)
    {r r' : Run} (hr : r ∈ runs) (hr' : r' ∈ runs) (hfaultless : r.Faultless)
    {d d' : Declaration} (hd : d ∈ r.declarations) (hd' : d' ∈ r'.declarations)
    (hglobals : d.site ≠ .globals) (hbinding : d'.binding = d.binding) : d' = d := by
  have hsite : d'.site = d.site := congrArg Prod.fst hbinding
  -- the construct stands in one text
  have hposition := r'.site_position hd' (hsite ▸ hglobals)
  rw [hsite] at hposition
  have heq : r' = r := h.eq_of_position hr hr' (r.site_position hd hglobals) hposition
  exact hfaultless.declaration_unique hd (heq ▸ hd') hglobals hbinding

/-- The visit at which the use of a name is settled. -/
theorem Session.settled {m : Machine} {next : Nat} (h : Session runs m next) {k : Access}
    {env : List Binding} {v : Visit} (hv : v ∈ runs.flatMap Run.visits)
    (hw : SettledIn runs k v.name env) :
    ∃ r ∈ runs, r.Faultless ∧ v ∈ r.visits ∧ (v.name.lexeme ≠ "this" → ∀ site ∈ v.site?,
      (site, v.name.lexeme) ∈ env ∨ ∃ d ∈ r.declarations, d.site = site ∧ d.kind = .variable
        ∧ d.UsesItself (k, v.name)) := by
  obtain ⟨r, hr, hfaultless, v', hv', hname, hsettled⟩ := hw
  -- each name is visited once
  have heq : v' = v := List.inj_on_of_nodup_map h.nodup_visits
    (List.mem_flatMap.mpr ⟨r, hr, hv'⟩) hv (by rw [hname])
  exact ⟨r, hr, hfaultless, heq ▸ hv', heq ▸ hsettled⟩

/-- In every session, frames hold only what the texts declare, and functions use what is bound
where they were made.  More texts may follow. -/
theorem Reached.tidy (h : Reached depth rounds runs i) (hruns : runs ⊆ runs') :
    i.machine.store.Tidy (runs'.flatMap Run.declarations) (SettledIn runs') := by
  induction h with
  | start h =>
    show Store.Tidy (runs'.flatMap Run.declarations) (SettledIn runs') _
    rw [(Interpreter.start_eq_ok h).1]
    exact Store.tidy_initial _ _ _
  | @take runs i r h hr ih =>
    obtain ⟨hsession, hlimits⟩ := h.session_before hr
    have htidy := ih fun r' hr' => hruns (List.mem_append_left _ hr')
    rw [← hr.before_eq.1] at htidy
    exact hsession.tidy_result (by rw [hlimits]) hruns htidy
  | meanwhile _ _ _ _ ih => exact ih hruns

/-- A text is run in the same way if look-ups are guarded by what holds when names are looked
up. -/
theorem Reached.runProgram_guarded (h : Reached depth rounds runs i) (hr : i.Takes r)
    {program : Program} (hprogram : r.program? = some program)
    (hclean : (Analysis.ofProgram program r.before.machine.distances).Clean)
    {P : Machine → Token → Prop} [∀ m t, Decidable (P m t)]
    (hP : ∀ m t, m.LooksUp (runs ++ [r]) t → P m t) :
    let m : Machine := { r.before.machine with
      distances := (Analysis.ofProgram program r.before.machine.distances).distances }
    LoxLang.runProgram { depth, rounds, naming := Naming.byDistance.guarded P } program m
      = LoxLang.runProgram r.before.limits program m := by
  intro m
  obtain ⟨hsession, hlimits⟩ := h.session_before hr
  have hanalyzed := hsession.analyzed hprogram
  have htidy := h.tidy (List.subset_append_left runs [r])
  rw [← hr.before_eq.1] at htidy
  have hmem : r ∈ runs ++ [r] := List.mem_concat_self
  have hagrees := agrees_guarded hanalyzed.find?_distances
    (proper_of_mem_visits (List.Subset.refl _)) fun hm hat ht hw =>
      hP _ _ ⟨_, _, _, _, _, _, hanalyzed, hm, hat, ht, hw⟩
  have hnaming : r.before.limits.naming = .byDistance := by rw [hlimits]
  have hrun := hagrees.runProgram_eq hnaming hanalyzed.find?_distances hanalyzed.at_top htidy
    (Run.rules_of_clean_append runs hprogram hclean) (Run.declarations_subset hmem hprogram)
    (Run.settledIn hmem hprogram hclean)
  rw [hlimits] at hrun ⊢
  exact hrun

end Session

end LoxLang
