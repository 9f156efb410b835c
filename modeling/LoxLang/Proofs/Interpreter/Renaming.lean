import LoxLang.Proofs.Interpreter.Bindings
import LoxLang.Proofs.Scope.Renaming

/-!
# Other names for variables and parameters

A local variable or a parameter gets another name, one that does not occur in the text.  The
name changes where it is declared and at the uses that refer to the declaration, and nowhere
else.  The new program is accepted, each use keeps its distance, and the new program does
what the program did.

Frames are asked for names, but in a frame that was chosen by its distance.  So it is enough
that a use has got the name that its declaration has got, and that the scopes further in did
not get this name.  What earlier texts have left behind is not concerned, as their constructs
have other positions.

## Main definitions

* `Renaming.Fits` — a use gets the new name of what it refers to.
* `Renaming.Suits` — a renaming that fits a text, and leaves earlier ones alone.
* `LocalRenaming` — a local variable or parameter of a text, and another name for it.

## Main results

* `Renaming.Suits.agrees` — names are looked up and assigned to as before.
* `Renaming.Suits.runProgram` — running a program and the renamed one.
* `Reached.rename_local` — **a local variable or parameter may have another name.**
-/

namespace LoxLang

/-- A use gets the new name of what it refers to; what was found in no scope is global. -/
def Renaming.Fits (ρ : Renaming) (v : Visit) : Prop :=
  ρ.key (v.site?.getD .globals) v.name.lexeme = ρ.use v.name

/-- A renaming for a text that comes after others. -/
structure Renaming.Suits (ρ : Renaming) (runs : List Run) (r : Run) : Prop where
  /-- Each use gets the new name of what it refers to. -/
  fits : ∀ v ∈ (runs ++ [r]).flatMap Run.visits, ρ.Fits v
  /-- Each use in the text finds under its new name what it found before. -/
  finds : ∀ v ∈ r.visits, ρ.Finds v.name v.scopes
  /-- Functions and classes keep their names. -/
  spares : ∀ d ∈ (runs ++ [r]).flatMap Run.declarations,
    d.kind = .function ∨ d.kind = .class → ρ.Spares d
  /-- What earlier texts have declared keeps its name. -/
  keeps : ∀ {site : Site} {x : String}, DeclaredAt (runs.flatMap Run.declarations) site x →
    ρ.key site x = x
  /-- Uses in earlier texts keep their names. -/
  uses : ∀ v ∈ runs.flatMap Run.visits, ρ.use v.name = v.name.lexeme

variable {depth rounds : Nat} {runs : List Run} {i : Interpreter} {r : Run} {m : Machine}
  {next : Nat} {ρ : Renaming} {v : Visit} {program : Program}

/-! ### Where a use is found -/

/-- The construct in whose scope a name is found is that of the first scope that declares
it. -/
theorem Visit.site?_cons (t : Token) (s : Scope) (ss : List Scope) :
    (⟨t, s :: ss⟩ : Visit).site?
      = if s.names.contains t.lexeme then some s.site else (⟨t, ss⟩ : Visit).site? := by
  unfold Visit.site? Visit.distance
  rw [List.findIdx?_cons]
  split
  · rfl
  · cases ss.findIdx? fun s => s.names.contains t.lexeme <;> rfl

namespace Renaming.Fits

variable (h : ρ.Fits v)

include h

/-- A use is found under its new name if the scopes that do not know the name do not know the
new name either. -/
theorem finds (hfresh : ∀ s ∈ v.scopes, s.names.contains v.name.lexeme = false →
      ∀ x, ρ.key s.site x = ρ.use v.name → s.names.contains x = false) :
    ρ.Finds v.name v.scopes := by
  obtain ⟨t, ss⟩ := v
  induction ss with
  | nil => exact h
  | cons s ss ih =>
    unfold Fits at h
    rw [Visit.site?_cons] at h
    unfold Finds
    split
    · next hcontains =>
      rw [if_pos hcontains] at h
      exact h
    · next hcontains =>
      rw [if_neg hcontains] at h
      refine ⟨hfresh s List.mem_cons_self (Bool.not_eq_true _ ▸ hcontains), ?_⟩
      exact ih h fun s hs => hfresh s (List.mem_cons_of_mem _ hs)

/-- The frame of what a use refers to holds under the new name what it held before. -/
theorem slot?_eq {s : Store} {f : FrameId} (hsite : s.site? f = some (v.site?.getD .globals)) :
    (ρ.store s).slot? f (ρ.use v.name) = s.slot? f v.name.lexeme := by
  rw [← h]
  exact slot?_store hsite _

end Renaming.Fits

/-! ### Looking names up -/

theorem Renaming.alike_valueAt (ρ : Renaming) (t : Token) (reading : NameReading) :
    ρ.Alike (reading.valueAt t) (reading.valueAt (ρ.refer t)) := by
  cases reading with
  | value u => rfl
  | undefined | uninitialized => exact ⟨_, .inr ⟨_, _, rfl, rfl⟩, rfl⟩

section LookUp

variable (h : ρ.Fits v) (hchain : m.store.Chained m.globals m.current v.sites)

include h hchain

/-- A global name and its new name. -/
theorem Renaming.Fits.slot?_globals (hd : v.distance = none) :
    (ρ.store m.store).slot? m.globals (ρ.use v.name) = m.store.slot? m.globals v.name.lexeme := by
  refine h.slot?_eq ?_
  rw [v.site?_globals hchain, Visit.site?, hd]
  rfl

variable (hdistance : m.distances.find? v.name.position = v.distance)

include hdistance

/-- Reading a name in the renamed machine. -/
theorem Renaming.Fits.value_alike : ρ.Alike (Naming.byDistance.value m v.name)
    (Naming.byDistance.value (ρ.machine m) (ρ.refer v.name)) := by
  have hrenamed : (ρ.machine m).distances.find? (ρ.refer v.name).position = v.distance := hdistance
  unfold Naming.byDistance
  dsimp only
  rw [hdistance, hrenamed]
  cases hd : v.distance with
  | none =>
    -- the global frame holds the name itself, there is nothing around it
    have hread : (ρ.machine m).store.read (ρ.machine m).globals (ρ.refer v.name).lexeme
        = m.store.read m.globals v.name.lexeme := by
      have hslot := h.slot?_globals hchain hd
      rw [hchain.read_root, ← hslot]
      exact (ρ.chained_store hchain).read_root
    dsimp only
    rw [hread]
    exact ρ.alike_valueAt v.name _
  | some d =>
    obtain ⟨g, site, hg, hgsite, hsite⟩ := v.exists_frame hchain hd
    have hslot : (ρ.store m.store).slot? g (ρ.use v.name) = m.store.slot? g v.name.lexeme :=
      h.slot?_eq (by rw [hsite]; exact hgsite)
    have hread : (ρ.machine m).store.readAt? (ρ.machine m).current d (ρ.refer v.name).lexeme
        = m.store.readAt? m.current d v.name.lexeme := by
      have hg' : (ρ.machine m).store.ancestor? (ρ.machine m).current d = some g :=
        (ancestor?_store ρ m.store m.current d).trans hg
      rw [Store.readAt?, Store.readAt?, hg', hg, Option.map_some, Option.map_some, ← hslot]
      rfl
    dsimp only
    rw [hread]
    cases m.store.readAt? m.current d v.name.lexeme with
    | none => exact .refl _
    | some reading => exact ρ.alike_valueAt v.name reading

/-- Assigning to a name in the renamed machine. -/
theorem Renaming.Fits.target_alike : ρ.Alike (Naming.byDistance.target m v.name)
    (Naming.byDistance.target (ρ.machine m) (ρ.refer v.name)) := by
  have hrenamed : (ρ.machine m).distances.find? (ρ.refer v.name).position = v.distance := hdistance
  unfold Naming.byDistance
  dsimp only
  rw [hdistance, hrenamed]
  cases hd : v.distance with
  | none =>
    have hholder : (ρ.machine m).store.holder? (ρ.machine m).globals (ρ.refer v.name).lexeme
        = m.store.holder? m.globals v.name.lexeme := by
      have hslot := h.slot?_globals hchain hd
      rw [hchain.holder?_root, ← hslot]
      exact (ρ.chained_store hchain).holder?_root
    dsimp only [Store.holderAt]
    rw [hholder]
    cases m.store.holder? m.globals v.name.lexeme with
    | none => exact ⟨_, .inr ⟨_, _, rfl, rfl⟩, rfl⟩
    | some g => rfl
  | some d =>
    have hancestor : (ρ.machine m).store.ancestor? (ρ.machine m).current d
        = m.store.ancestor? m.current d := ancestor?_store ρ m.store m.current d
    dsimp only
    rw [hancestor]
    exact .refl _

end LookUp

namespace Renaming.Suits

variable (h : ρ.Suits runs r)

include h

/-- Names are looked up and assigned to as before, wherever they occur. -/
theorem agrees (hsession : Session (runs ++ [r]) m next) :
    Agrees ρ ((runs ++ [r]).flatMap Run.declarations) (SettledIn (runs ++ [r]))
      (Naming.byDistance.within (Rules ((runs ++ [r]).flatMap Run.visits)
        ((runs ++ [r]).flatMap Run.tokens)) m.distances) .byDistance where
  value {m' t _ _} _ _ := by
    rcases Naming.byDistance.within_value (Rules ((runs ++ [r]).flatMap Run.visits)
      ((runs ++ [r]).flatMap Run.tokens)) m.distances m' t with hgive | ⟨⟨p, hat, ht⟩, heq⟩
    · exact .inl hgive
    · obtain ⟨v, hv, rfl, hchain, -, hdistance⟩ := ht.exists_visit hsession.find?_distances hat
      rw [heq]
      exact .inr ((h.fits v hv).value_alike hchain hdistance)
  target {m' t _ _} hm _ := by
    rcases Naming.byDistance.within_target (Rules ((runs ++ [r]).flatMap Run.visits)
      ((runs ++ [r]).flatMap Run.tokens)) m.distances m' t with hgive | ⟨⟨p, hat, ht⟩, heq⟩
    · exact .inl hgive
    · obtain ⟨v, hv, rfl, hchain, -, hdistance⟩ := ht.exists_visit hsession.find?_distances hat
      rw [heq]
      refine .inr ⟨(h.fits v hv).target_alike hchain hdistance, fun f hf => ?_⟩
      obtain ⟨site, hsite, hdeclared, hcases⟩ := v.exists_target hm.tidy
        (proper_of_mem_visits (List.Subset.refl _) v hv) hchain hdistance hf
      refine ⟨site, hsite, hdeclared, ?_⟩
      have hfits := h.fits v hv
      unfold Fits at hfits
      rcases hcases with ⟨hd, -, rfl⟩ | hfound
      · rw [Visit.site?, hd] at hfits
        exact hfits
      · rw [hfound] at hfits
        exact hfits
  spares := h.spares

/-- What earlier texts have left behind stays the same. -/
theorem machine_eq_self
    (htidy : m.store.Tidy (runs.flatMap Run.declarations) (SettledIn runs)) :
    ρ.machine m = m := by
  have hframes : ∀ fr ∈ m.store.frames, ρ.frame fr = fr := by
    intro fr hfr
    obtain ⟨f, hf, rfl⟩ := Array.mem_iff_getElem.mp hfr
    refine frame_eq_self fun x hx => h.keeps ?_
    obtain ⟨slot, hslot⟩ := Option.isSome_iff_exists.mp hx
    exact (htidy.names (Array.getElem?_eq_getElem hf) hslot).declared
  have hclosures : ∀ c ∈ m.store.closures, ρ.closure c = c := by
    intro c hc
    obtain ⟨k, hk, rfl⟩ := Array.mem_iff_getElem.mp hc
    have hclosure := htidy.closures (Array.getElem?_eq_getElem hk)
    obtain ⟨env, -, hscoped⟩ := hclosure.uses
    refine closure_eq_self (fun t ht => h.keeps (hclosure.params t ht))
      (fun d hd => h.keeps (.of_mem (hclosure.body hd))) ?_
    -- what a function uses was visited in the text of the function
    intro u hu
    obtain ⟨env, r', hr', -, v, hv, hname, -⟩ := stmtsScoped_accesses _ hscoped u hu
    rw [← hname]
    exact h.uses v (List.mem_flatMap.mpr ⟨r', hr', hv⟩)
  rw [machine, store_eq_self hframes hclosures]

/-- The renamed program has no fault and the same distances. -/
theorem renamed_analysis (hprogram : r.program? = some program)
    (hclean : (Analysis.ofProgram program r.before.machine.distances).Clean) :
    (Analysis.ofProgram program r.before.machine.distances).Renamed ρ
      (Analysis.ofProgram (program.rename ρ) r.before.machine.distances) := by
  have hmem : r ∈ runs ++ [r] := List.mem_concat_self
  have haccepted : (Analysis.ofProgram program r.before.machine.distances).Accepted r.visits :=
    ⟨(Run.visits_eq hprogram).symm ▸ List.Subset.refl _, hclean⟩
  exact Program.renamed_analysis
    ⟨fun d hd => h.spares d (List.mem_flatMap.mpr ⟨r, hmem, hd⟩), h.finds⟩
    (Interpreter.derives_of_read hprogram).wellFormed
    ((Run.declarations_eq hprogram).symm ▸ List.Subset.refl _) haccepted

/-- Running a program and the renamed one. -/
theorem runProgram (hreached : Reached depth rounds runs i) (hr : i.Takes r)
    (hprogram : r.program? = some program)
    (hclean : (Analysis.ofProgram program r.before.machine.distances).Clean) :
    let m : Machine := { r.before.machine with
      distances := (Analysis.ofProgram program r.before.machine.distances).distances }
    match LoxLang.runProgram r.before.limits program m with
    | .ok _ m' =>
        LoxLang.runProgram r.before.limits (program.rename ρ) m = .ok () (ρ.machine m')
    | .error f m' => ∃ f', ρ.Blames f f'
        ∧ LoxLang.runProgram r.before.limits (program.rename ρ) m = .error f' (ρ.machine m') := by
  intro m
  obtain ⟨hsession, hlimits⟩ := hreached.session_before hr
  have hanalyzed := hsession.analyzed hprogram
  have hmem : r ∈ runs ++ [r] := List.mem_concat_self
  have htidy := hreached.tidy (List.subset_append_left runs [r])
  have hearlier := hreached.tidy (List.Subset.refl runs)
  rw [← hr.before_eq.1] at htidy hearlier
  -- the renamed program starts where the program starts
  have hself : ρ.machine m = m := h.machine_eq_self hearlier
  have hnaming : r.before.limits.naming = .byDistance := by rw [hlimits]
  have hrun := (h.agrees hanalyzed).runProgram_within hnaming hanalyzed.find?_distances
    hanalyzed.at_top htidy (Run.rules_of_clean_append runs hprogram hclean)
    (Run.declarations_subset hmem hprogram) (Run.settledIn hmem hprogram hclean)
  have hsame : { r.before.limits with naming := .byDistance } = r.before.limits := by rw [hlimits]
  rw [hself, hsame] at hrun
  cases hend : LoxLang.runProgram r.before.limits program m with
  | ok a m' =>
    rw [hend] at hrun
    exact hrun.1
  | error f m' =>
    rw [hend] at hrun
    exact hrun.1

end Renaming.Suits

/-! ### Carrying a renamed program out -/

/-- Runs that end alike have the same outcome. -/
theorem Interpreter.execute_alike {i j : Interpreter} {program' : Program}
    (h : match runProgram i.limits program i.machine with
      | .ok _ m' => runProgram j.limits program' j.machine = .ok () (ρ.machine m')
      | .error f m' => ∃ f', ρ.Blames f f'
          ∧ runProgram j.limits program' j.machine = .error f' (ρ.machine m')) :
    (j.execute program').2 = (i.execute program).2
      ∧ (j.execute program').1.machine = ρ.machine (i.execute program).1.machine := by
  unfold execute
  cases hrun : runProgram i.limits program i.machine with
  | ok a m' =>
    rw [hrun] at h
    rw [h]
    exact ⟨rfl, rfl⟩
  | error f m' =>
    rw [hrun] at h
    obtain ⟨f', hblames, hrun'⟩ := h
    rw [hrun']
    rcases hblames with rfl | ⟨cause, t, rfl, rfl⟩
    · cases f' <;> exact ⟨rfl, rfl⟩
    · exact ⟨rfl, rfl⟩

/-- The analysis succeeds if there is no fault, and no error before. -/
theorem Interpreter.analyze_finished {i : Interpreter} {program : Program} :
    (i.analyze program).2 = .finished true
      ↔ i.log.hadError = false ∧ (Analysis.ofProgram program i.machine.distances).Clean := by
  rw [(analyze_outcome i program).1, Outcome.finished.injEq, Bool.not_eq_true']
  unfold analyze
  rw [Log.hadError_trace, Log.hadError_noteFindings_eq_false]
  rfl

/-- A text whose analysis succeeds is run. -/
theorem Run.result_eq (hprogram : r.program? = some program)
    (hresolved : (r.read.analyze program).2 = .finished true) :
    ∃ log, r.result = { (r.read.analyze program).1 with log }.execute program := by
  have hread : r.before.read r.source r.line = (r.read, some program) := Prod.ext rfl hprogram
  have hanalyze : r.read.analyze program = ((r.read.analyze program).1, .finished true) :=
    Prod.ext rfl hresolved
  refine ⟨(r.read.analyze program).1.log.trace "interpret" (r.read.analyze program).1.path, ?_⟩
  rw [Run.result, Interpreter.process, hread]
  dsimp only
  rw [hanalyze]

/-- A renamed program is accepted with the same distances, and its run has the same outcome
and ends with the renamed machine. -/
theorem Renaming.Suits.execute (h : ρ.Suits runs r) (hreached : Reached depth rounds runs i)
    (hr : i.Takes r) (hprogram : r.program? = some program)
    (hresolved : (r.read.analyze program).2 = .finished true) :
    let analyzed := r.read.analyze (program.rename ρ)
    let executed := analyzed.1.execute (program.rename ρ)
    analyzed.2 = .finished true
      ∧ analyzed.1.machine.distances = (r.read.analyze program).1.machine.distances
      ∧ executed.2 = r.result.2 ∧ executed.1.machine = ρ.machine r.result.1.machine := by
  intro analyzed executed
  obtain ⟨herror, hclean⟩ := Interpreter.analyze_finished.mp hresolved
  have hrenamed := h.renamed_analysis hprogram hclean
  have hrun := h.runProgram hreached hr hprogram hclean
  obtain ⟨log, hresult⟩ := Run.result_eq hprogram hresolved
  refine ⟨Interpreter.analyze_finished.mpr ⟨herror, hrenamed.clean⟩, hrenamed.distances_eq, ?_⟩
  rw [hresult]
  refine Interpreter.execute_alike ?_
  -- the two machines differ in nothing before the run
  have hmachine : analyzed.1.machine = (r.read.analyze program).1.machine :=
    congrArg (fun distances => { r.before.machine with distances }) hrenamed.distances_eq
  rw [hmachine]
  exact hrun

/-! ### Another name for a local variable -/

/-- A local variable or parameter of a text, and another name for it that does not occur in
the text. -/
structure LocalRenaming (r : Run) where
  /-- The declaration of the variable or parameter. -/
  declaration : Declaration
  /-- The new name. -/
  name : String
  /-- The text declares it. -/
  mem : declaration ∈ r.declarations
  /-- It is local. -/
  site_ne : declaration.site ≠ .globals
  /-- It is a variable or a parameter. -/
  kind_eq : declaration.kind = .variable ∨ declaration.kind = .parameter
  /-- The new name does not occur. -/
  unused : ∀ t ∈ r.tokens, t.lexeme ≠ name
  /-- It is not reserved. -/
  keyword?_eq : keyword? name = none
  /-- It is not that of the clock. -/
  ne_clock : name ≠ "clock"

namespace LocalRenaming

variable (c : LocalRenaming r)

theorem ne_this : c.name ≠ "this" := by
  intro hthis
  have hkeyword := c.keyword?_eq
  rw [hthis] at hkeyword
  cases hkeyword

theorem declaration_ne_this : c.declaration.name.lexeme ≠ "this" := Run.name_ne_this c.mem

/-- The declaration and the uses that refer to it get the new name. -/
def toRenaming : Renaming where
  key site :=
    if site = c.declaration.site then Equiv.swap c.declaration.name.lexeme c.name
    else Equiv.refl String
  -- a use is told by its position, at which the analysis has visited it
  use t :=
    if t.kind ≠ .kwThis
        ∧ ∃ v ∈ r.visits, v.name.position = t.position ∧ v.RefersTo c.declaration then c.name
    else t.lexeme
  key_this site := by
    split
    · exact Equiv.swap_apply_of_ne_of_ne c.declaration_ne_this.symm c.ne_this.symm
    · rfl
  use_this t ht := if_neg fun h => h.1 ht

theorem key_eq (site : Site) : c.toRenaming.key site
    = if site = c.declaration.site then Equiv.swap c.declaration.name.lexeme c.name
      else Equiv.refl String := rfl

theorem key_declaration :
    c.toRenaming.key c.declaration.site c.declaration.name.lexeme = c.name := by
  rw [key_eq, if_pos rfl, Equiv.swap_apply_left]

/-- In the scopes of other constructs nothing changes. -/
theorem key_of_site_ne {site : Site} (hsite : site ≠ c.declaration.site) (x : String) :
    c.toRenaming.key site x = x := by
  rw [key_eq, if_neg hsite]
  rfl

/-- The new name is not declared in the text. -/
theorem name_ne {site : Site} {x : String} (h : DeclaredAt r.declarations site x) :
    x ≠ c.name := by
  rcases h with ⟨d, hd, -, rfl⟩ | ⟨-, -, rfl⟩ | ⟨-, rfl⟩
  · exact c.unused _ (Run.namedIn hd).1
  · exact c.ne_this.symm
  · exact c.ne_clock.symm

section Session

variable (hsession : Session (runs ++ [r]) m next)

include hsession

/-- A construct of the text is none of the earlier ones. -/
theorem site_ne_of_declaredAt {site : Site} {x : String}
    (h : DeclaredAt (runs.flatMap Run.declarations) site x) (hx : x ≠ "this") :
    site ≠ c.declaration.site := by
  rintro rfl
  rcases h with ⟨d, hd, hsite, -⟩ | ⟨-, -, rfl⟩ | ⟨hglobals, -⟩
  · -- the text starts behind the construct, which is within it
    obtain ⟨r', hr', hd⟩ := List.mem_flatMap.mp hd
    have hown := r.site_position c.mem c.site_ne
    have hearlier := r'.site_position hd (hsite ▸ c.site_ne)
    have hapart := (List.pairwise_append.mp hsession.apart).2.2 r' hr' r List.mem_cons_self
    rw [hsite] at hearlier
    omega
  · exact hx rfl
  · exact c.site_ne hglobals

/-- What earlier texts declare keeps its name. -/
theorem key_of_declaredAt {site : Site} {x : String}
    (h : DeclaredAt (runs.flatMap Run.declarations) site x) : c.toRenaming.key site x = x := by
  by_cases hx : x = "this"
  · rw [hx, c.toRenaming.key_this]
  · exact c.key_of_site_ne (c.site_ne_of_declaredAt hsession h hx) x

/-- Nothing in earlier texts refers to the declaration. -/
theorem not_refersTo_of_mem (hv : v ∈ runs.flatMap Run.visits) :
    ¬ v.RefersTo c.declaration := by
  intro h
  have hdeclared := v.declaredAt (proper_of_mem_visits (List.Subset.refl runs) v hv) h.1
  exact c.site_ne_of_declaredAt hsession hdeclared (h.2 ▸ c.declaration_ne_this) rfl

theorem mem_visits_of_refersTo (hv : v ∈ (runs ++ [r]).flatMap Run.visits)
    (h : v.RefersTo c.declaration) : v ∈ r.visits := by
  rw [List.flatMap_append, List.flatMap_singleton, List.mem_append] at hv
  exact hv.resolve_left fun hearlier => c.not_refersTo_of_mem hsession hearlier h

omit hsession in
theorem use_of_refersTo (hv : v ∈ r.visits) (h : v.RefersTo c.declaration) :
    c.toRenaming.use v.name = c.name := by
  refine if_pos ⟨fun hkind => ?_, v, hv, rfl, h⟩
  have hthis := Lexed.lexeme_eq_this (Run.name_mem_tokens hv) hkind
  exact c.declaration_ne_this (h.2.trans hthis)

/-- All other uses keep their names. -/
theorem use_of_not_refersTo (hv : v ∈ (runs ++ [r]).flatMap Run.visits)
    (h : ¬ v.RefersTo c.declaration) : c.toRenaming.use v.name = v.name.lexeme := by
  refine if_neg ?_
  rintro ⟨-, v', hv', hposition, hrefers⟩
  have hmem : v' ∈ (runs ++ [r]).flatMap Run.visits :=
    List.mem_flatMap.mpr ⟨r, List.mem_concat_self, hv'⟩
  have heq : v' = v := List.inj_on_of_nodup_map hsession.nodup_visits hmem hv hposition
  exact h (heq ▸ hrefers)

variable (hfaultless : r.Faultless)

include hfaultless

/-- All other declarations keep their names. -/
theorem spares {d : Declaration} (hd : d ∈ (runs ++ [r]).flatMap Run.declarations)
    (hne : d ≠ c.declaration) : c.toRenaming.Spares d := by
  unfold Renaming.Spares
  by_cases hsite : d.site = c.declaration.site
  · have hmem : r ∈ runs ++ [r] := List.mem_concat_self
    obtain ⟨r', hr', hd'⟩ := List.mem_flatMap.mp hd
    -- the construct declares each name once
    have hother : d.name.lexeme ≠ c.declaration.name.lexeme := by
      intro heq
      exact hne (hsession.declaration_unique hmem hr' hfaultless c.mem hd' c.site_ne
        (Prod.ext hsite heq))
    have hown := r'.site_position hd' (hsite ▸ c.site_ne)
    rw [hsite] at hown
    obtain rfl : r' = r :=
      hsession.eq_of_position hmem hr' (r.site_position c.mem c.site_ne) hown
    rw [key_eq, if_pos hsite]
    exact Equiv.swap_apply_of_ne_of_ne hother (c.name_ne (.of_mem hd'))
  · exact c.key_of_site_ne hsite _

theorem key_of_declaredAt_of_ne {site : Site} {x : String}
    (h : DeclaredAt ((runs ++ [r]).flatMap Run.declarations) site x)
    (hne : ¬ (site = c.declaration.site ∧ c.declaration.name.lexeme = x)) :
    c.toRenaming.key site x = x := by
  rcases h with ⟨d, hd, rfl, rfl⟩ | ⟨k, rfl, rfl⟩ | ⟨rfl, rfl⟩
  · refine c.spares hsession hfaultless hd ?_
    rintro rfl
    exact hne ⟨rfl, rfl⟩
  · exact c.toRenaming.key_this _
  · exact c.key_of_site_ne c.site_ne.symm _

/-- Each use gets the new name of what it refers to. -/
theorem fits (hv : v ∈ (runs ++ [r]).flatMap Run.visits) : c.toRenaming.Fits v := by
  unfold Renaming.Fits
  by_cases hrefers : v.RefersTo c.declaration
  · rw [c.use_of_refersTo (c.mem_visits_of_refersTo hsession hv hrefers) hrefers, hrefers.1,
      ← hrefers.2]
    exact c.key_declaration
  · rw [c.use_of_not_refersTo hsession hv hrefers]
    cases hsite : v.site? with
    | none => exact c.key_of_site_ne c.site_ne.symm _
    | some site =>
      have hdeclared := v.declaredAt (proper_of_mem_visits (List.Subset.refl _) v hv) hsite
      refine c.key_of_declaredAt_of_ne hsession hfaultless hdeclared ?_
      rintro ⟨rfl, hname⟩
      exact hrefers ⟨hsite, hname⟩

/-- Each use in the text finds under its new name what it found before. -/
theorem finds (hv : v ∈ r.visits) : c.toRenaming.Finds v.name v.scopes := by
  have hmem : v ∈ (runs ++ [r]).flatMap Run.visits :=
    List.mem_flatMap.mpr ⟨r, List.mem_concat_self, hv⟩
  refine (c.fits hsession hfaultless hmem).finds fun s hs hunknown x hx => ?_
  rw [← Bool.not_eq_true]
  intro hcontains
  -- the scope would hold a name that is, or becomes, the new name of the use
  have hown := (r.proper (List.Subset.refl _) hv (s.site, s.names.contains)
    (List.mem_map_of_mem hs)).1 x hcontains
  have hdeclared := (proper_of_mem_visits (List.Subset.refl _) v hmem (s.site, s.names.contains)
    (List.mem_map_of_mem hs)).1 x hcontains
  have hne : x ≠ v.name.lexeme := by
    rintro rfl
    rw [hunknown] at hcontains
    cases hcontains
  by_cases hthat : s.site = c.declaration.site ∧ c.declaration.name.lexeme = x
  · rw [hthat.1, ← hthat.2, c.key_declaration] at hx
    have hrefers : ¬ v.RefersTo c.declaration := fun h => hne (hthat.2.symm.trans h.2)
    rw [c.use_of_not_refersTo hsession hmem hrefers] at hx
    exact c.unused _ (Run.name_mem_tokens hv) hx.symm
  · rw [c.key_of_declaredAt_of_ne hsession hfaultless hdeclared hthat] at hx
    by_cases hrefers : v.RefersTo c.declaration
    · rw [c.use_of_refersTo hv hrefers] at hx
      exact c.name_ne hown hx
    · rw [c.use_of_not_refersTo hsession hmem hrefers] at hx
      exact hne hx

/-- The new name for a local variable or parameter suits the text. -/
theorem suits : c.toRenaming.Suits runs r where
  fits v hv := c.fits hsession hfaultless hv
  finds v hv := c.finds hsession hfaultless hv
  spares d hd hkind := by
    refine c.spares hsession hfaultless hd ?_
    rintro rfl
    rcases hkind with hkind | hkind <;> rcases c.kind_eq with hkind' | hkind' <;>
      exact absurd (hkind.symm.trans hkind') nofun
  keeps h := c.key_of_declaredAt hsession h
  uses v hv := by
    have hmem : v ∈ (runs ++ [r]).flatMap Run.visits := by
      rw [List.flatMap_append]
      exact List.mem_append_left _ hv
    exact c.use_of_not_refersTo hsession hmem (c.not_refersTo_of_mem hsession hv)

end Session

end LocalRenaming

/-- **A local variable or parameter may have another name.**

The name changes at the declaration and at the uses that the analysis has found to refer to
it, and nowhere else.  The new program is accepted, each use has the distance it had, and the
run has the same outcome and the same output. -/
theorem Reached.rename_local (h : Reached depth rounds runs i) (hr : i.Takes r)
    (hprogram : r.program? = some program)
    (hresolved : (r.read.analyze program).2 = .finished true) (c : LocalRenaming r) :
    let renamed := program.rename c.toRenaming
    let analyzed := r.read.analyze renamed
    let executed := analyzed.1.execute renamed
    (c.toRenaming.key c.declaration.site c.declaration.name.lexeme = c.name
        ∧ ∀ d ∈ r.declarations, d ≠ c.declaration → c.toRenaming.Spares d)
      ∧ (∀ v ∈ r.visits, c.toRenaming.use v.name
          = if v.RefersTo c.declaration then c.name else v.name.lexeme)
      ∧ analyzed.2 = .finished true
      ∧ analyzed.1.machine.distances = (r.read.analyze program).1.machine.distances
      ∧ executed.2 = r.result.2
      ∧ executed.1.machine.output = r.result.1.machine.output := by
  intro renamed analyzed executed
  have hsession := (h.session_before hr).1.analyzed hprogram
  have hfaultless : r.Faultless :=
    ⟨program, hprogram, (Interpreter.analyze_finished.mp hresolved).2⟩
  have hmem : r ∈ runs ++ [r] := List.mem_concat_self
  obtain ⟨haccepted, hdistances, houtcome, hmachine⟩ :=
    (c.suits hsession hfaultless).execute h hr hprogram hresolved
  have houtput := congrArg Machine.output hmachine
  refine ⟨⟨c.key_declaration, fun d hd => ?_⟩, fun v hv => ?_, haccepted, hdistances, houtcome,
    houtput⟩
  · exact c.spares hsession hfaultless (List.mem_flatMap.mpr ⟨r, hmem, hd⟩)
  · split
    · next hrefers => exact c.use_of_refersTo hv hrefers
    · next hrefers =>
      exact c.use_of_not_refersTo hsession (List.mem_flatMap.mpr ⟨r, hmem, hv⟩) hrefers

/-- A parameter that is captured by a function, with a variable of its name around it and
another one further in: its new name is that of a variable in an earlier text. -/
theorem Reached.rename_local_captured :
    let r := (Interpreter.terminal 30 1).entry "var b = \"q\"; fun h() \x7b return b; \x7d" 1
    let r' := r.result.1.entry
      "var a = \"p\"; fun f(a) \x7b
        fun g() \x7b a = a + h(); return a; \x7d
        \x7b print a; var a = g(); print a; \x7d
        return g;
      \x7d
      print f(a)() + a;" 1
    ∃ (program : Program) (c : LocalRenaming r'), r'.program? = some program
      ∧ c.declaration.site = .function 52 ∧ c.declaration.name.lexeme = "a" ∧ c.name = "b"
      ∧ let renamed := program.rename c.toRenaming
        let executed := (r'.read.analyze renamed).1.execute renamed
        executed.2 = .finished true ∧ executed.1.machine.output = "p\npq\npqqp\n" := by
  intro r r'
  have hreached : Reached 30 1 [r] r.result.1 := (Reached.terminal 30 1).take (.entry r.source 1)
  have htakes : r.result.1.Takes r' := .entry r'.source 1
  obtain ⟨⟨hsome, hresolved⟩, ⟨hlength, hsite, hname, hkind⟩, hunused, hends⟩ :
      (∃ h : r'.program?.isSome, (r'.read.analyze (r'.program?.get h)).2 = .finished true)
        ∧ (∃ _ : 2 < r'.declarations.length, r'.declarations[2].site = .function 52
          ∧ r'.declarations[2].name.lexeme = "a" ∧ r'.declarations[2].kind = .parameter)
        ∧ (∀ t ∈ r'.tokens, t.lexeme ≠ "b")
        ∧ r'.result.2 = .finished true ∧ r'.result.1.machine.output = "p\npq\npqqp\n" := by
    decide +kernel
  have hprogram : r'.program? = some (r'.program?.get hsome) := (Option.some_get hsome).symm
  obtain ⟨c, hdeclaration, hc⟩ : ∃ c : LocalRenaming r',
      c.declaration = r'.declarations[2] ∧ c.name = "b" :=
    ⟨⟨_, "b", List.getElem_mem hlength, by rw [hsite]; exact nofun, .inr hkind, hunused,
      by decide, by decide⟩, rfl, rfl⟩
  obtain ⟨-, -, -, -, houtcome, houtput⟩ := hreached.rename_local htakes hprogram hresolved c
  exact ⟨_, c, hprogram, hdeclaration ▸ hsite, hdeclaration ▸ hname, hc,
    houtcome.trans hends.1, houtput.trans hends.2⟩

end LoxLang
