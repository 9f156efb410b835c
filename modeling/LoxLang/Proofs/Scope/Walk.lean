import LoxLang.Proofs.Program.Occurrence
import LoxLang.Scope.Analysis
import Mathlib.Data.List.Forall2

/-!
# The walk of the analysis of scopes

What the analysis of scopes does on its walk over a piece of program, compared with what
occurs in the piece.  The walk leaves the scopes as it found them, except that more names
may be declared in them, and it never loses track of them.  It looks for each name that
occurs with exactly those scopes open that are around the place where the name occurs,
and it records the distance to the first of them that declares the name.  If it finds no
fault, then all names have been looked for and all jumps are where they may be.

## Main definitions

* `Visit.sites`, `Visit.distance` — the constructs around a visited name, and how far out
  the scope that declares it is.
* `Distances.record` — the distances after some visits.
* `Occurrence.Checked` — what the analysis makes sure of.
* `Analysis.At` — the walk has come to a place.
* `Walks`, `Walked` — what a part of the walk does.

## Main results

* `walked_expr`, `walked_stmt`, `walked_function` and their forms for lists.
* `Analysis.walked_ofProgram` — the walk over a program.
-/

namespace LoxLang

/-! ### Visits and distances -/

/-- The constructs around a visited name, innermost first. -/
def Visit.sites (v : Visit) : List Site := v.scopes.map Scope.site ++ [.globals]

/-- How far out the innermost scope is that had declared the visited name. -/
def Visit.distance (v : Visit) : Option Nat :=
  v.scopes.findIdx? fun s => s.names.contains v.name.lexeme

/-- The distances after a visit. -/
def Distances.recordVisit (known : Distances) (v : Visit) : Distances :=
  match v.distance with
  | none => known
  | some d => known.insert v.name.position d

/-- The distances after some visits. -/
def Distances.record (known : Distances) (vs : List Visit) : Distances :=
  vs.foldl Distances.recordVisit known

theorem Distances.record_append (known : Distances) (vs ws : List Visit) :
    known.record (vs ++ ws) = (known.record vs).record ws := List.foldl_append

/-- A visit changes the distance of one position only. -/
theorem Distances.find?_recordVisit (known : Distances) (v : Visit) (k : Nat) :
    (known.recordVisit v).find? k
      = if v.name.position = k then v.distance <|> known.find? k else known.find? k := by
  unfold recordVisit
  cases v.distance with
  | none => simp
  | some d => simp [Table.find?_insert]

/-- Nothing is recorded at positions that were not visited. -/
theorem Distances.find?_record_of_not_mem (known : Distances) (vs : List Visit) {k : Nat}
    (h : k ∉ vs.map fun v => v.name.position) : (known.record vs).find? k = known.find? k := by
  induction vs generalizing known with
  | nil => rfl
  | cons v vs ih =>
    rw [List.map_cons, List.mem_cons, not_or] at h
    rw [record, List.foldl_cons, ← record, ih _ h.2, find?_recordVisit, if_neg (Ne.symm h.1)]

/-- If no position is visited twice, the distance at a visit is what is recorded. -/
theorem Distances.find?_record_of_mem {known : Distances} {vs : List Visit} {v : Visit}
    (hnodup : (vs.map fun v => v.name.position).Nodup) (hv : v ∈ vs)
    (hknown : known.find? v.name.position = none) :
    (known.record vs).find? v.name.position = v.distance := by
  induction vs generalizing known with
  | nil => exact absurd hv List.not_mem_nil
  | cons w vs ih =>
    rw [List.map_cons, List.nodup_cons] at hnodup
    rw [record, List.foldl_cons, ← record]
    rcases List.mem_cons.mp hv with rfl | hv
    · -- the later visits are at other positions
      rw [find?_record_of_not_mem _ _ hnodup.1, find?_recordVisit, if_pos rfl, hknown]
      cases v.distance <;> rfl
    · refine ih hnodup.2 hv ?_
      have hne : w.name.position ≠ v.name.position := fun heq =>
        hnodup.1 (heq ▸ List.mem_map_of_mem hv)
      rw [find?_recordVisit, if_neg hne, hknown]

/-! ### What the analysis makes sure of -/

/-- What the analysis makes sure of, given its visits: a name was looked for among the
scopes around it, and a jump has something to leave. -/
def Occurrence.Checked (vs : List Visit) (o : Occurrence) : Prop :=
  match o.item with
  | .name t => ∃ v ∈ vs, v.name = t ∧ v.sites = o.place.sites
  | .break _ => 0 < o.place.loops
  | .continue _ => 0 < o.place.loops
  | .return _ => o.place.function.isSome
  | _ => True

/-- What was made sure of remains so after more visits. -/
theorem Occurrence.Checked.mono {vs ws : List Visit} (hsub : vs ⊆ ws) {o : Occurrence}
    (h : o.Checked vs) : o.Checked ws := by
  obtain ⟨p, i⟩ := o
  cases i with
  | name t =>
    obtain ⟨v, hv, hvt⟩ := h
    exact ⟨v, hsub hv, hvt⟩
  | _ => exact h -- only names depend on the visits

/-! ### Scopes that grow -/

/-- A scope still stands for the same construct and has kept its names. -/
def Scope.Grows (s s' : Scope) : Prop :=
  s'.site = s.site ∧ ∀ name, s.names.contains name → s'.names.contains name

theorem Scope.Grows.refl (s : Scope) : s.Grows s := ⟨rfl, fun _ h => h⟩

theorem Scope.Grows.trans {s s' s'' : Scope} (h : s.Grows s') (h' : s'.Grows s'') :
    s.Grows s'' := ⟨h'.1.trans h.1, fun name hn => h'.2 name (h.2 name hn)⟩

theorem Scope.grows_insert (s : Scope) (name : String) (l : Local) :
    s.Grows { s with names := s.names.insert name l } :=
  ⟨rfl, fun n hn => by simp [Table.contains_insert, hn]⟩

theorem Scope.grows_modify (s : Scope) (name : String) (f : Local → Local) :
    s.Grows { s with names := s.names.modify name f } :=
  ⟨rfl, fun n hn => by simpa using hn⟩

/-- Scopes have kept their constructs and their names. -/
abbrev ScopesGrow : List Scope → List Scope → Prop := List.Forall₂ Scope.Grows

theorem ScopesGrow.refl (ss : List Scope) : ScopesGrow ss ss :=
  List.forall₂_same.mpr fun s _ => .refl s

theorem ScopesGrow.trans {ss ss' ss'' : List Scope} (h : ScopesGrow ss ss')
    (h' : ScopesGrow ss' ss'') : ScopesGrow ss ss'' := by
  induction h generalizing ss'' with
  | nil => exact h'
  | cons hs _ ih =>
    obtain ⟨s'', ss'', hs', hss', rfl⟩ := List.forall₂_cons_left_iff.mp h'
    exact .cons (hs.trans hs') (ih hss')

/-- Scopes that grow stand for the same constructs. -/
theorem ScopesGrow.map_site {ss ss' : List Scope} (h : ScopesGrow ss ss') :
    ss'.map Scope.site = ss.map Scope.site := by
  induction h with
  | nil => rfl
  | cons hs _ ih => rw [List.map_cons, List.map_cons, hs.1, ih]

namespace Analysis

/-! ### Where the walk is -/

/-- What the walk knows about functions, classes and loops around it. -/
def flags (a : Analysis) : Bool × ClassPlace × Nat := (a.inFunction, a.classPlace, a.loopDepth)

/-- No fault has been found. -/
def Clean (a : Analysis) : Prop := ∀ f, Finding.fault f ∉ a.findings.toList

/-- The walk has come to a place. -/
structure At (a : Analysis) (p : Place) : Prop where
  /-- The scopes that are open are those around the place. -/
  sites : p.sites = a.scopes.map Scope.site ++ [.globals]
  /-- The loops are those around the place. -/
  loops : p.loops = a.loopDepth
  /-- The walk is in a function if the place is. -/
  function : p.function.isSome = a.inFunction

/-- The innermost scope, if there is one, declares a name. -/
def Declares (a : Analysis) (name : String) : Prop :=
  ∀ s ∈ a.scopes.head?, s.names.contains name

end Analysis

/-- What a part of the walk does that visits `vs` in a piece in which `occs` occur. -/
structure Walks (a : Analysis) (vs : List Visit) (occs : List Occurrence) (b : Analysis) :
    Prop where
  /-- The scopes are the same, with more names perhaps. -/
  grown : ScopesGrow a.scopes b.scopes
  /-- The walk is as deep in functions, classes and loops as before. -/
  flags_eq : b.flags = a.flags
  /-- The walk does not lose track. -/
  lost_eq : b.lost = a.lost
  /-- What has been found remains so. -/
  kept : a.findings.toList <+: b.findings.toList
  /-- The visits are added to earlier ones. -/
  visits_eq : b.visits.toList = a.visits.toList ++ vs
  /-- The distances are those of the visits. -/
  distances_eq : b.distances = a.distances.record vs
  /-- Only names that occur are visited. -/
  named : ∀ v ∈ vs, ∃ o ∈ occs, o.item = .name v.name
  /-- Each name is visited at most as often as it occurs. -/
  once : ∀ k, (vs.map fun v => v.name.position).count k
    ≤ (occs.map fun o => o.item.position).count k
  /-- Without a fault, all that occurs has been checked. -/
  checked : b.Clean → ∀ o ∈ occs, o.Checked vs

/-- What a part of the walk does, whatever it visits. -/
def Walked (a : Analysis) (occs : List Occurrence) (b : Analysis) : Prop :=
  ∃ vs, Walks a vs occs b

section Composition

variable {a b c : Analysis} {vs ws : List Visit} {occs occs' : List Occurrence} {p : Place}

theorem Walks.refl (a : Analysis) : Walks a [] [] a where
  grown := .refl _
  flags_eq := rfl
  lost_eq := rfl
  kept := List.prefix_rfl
  visits_eq := (List.append_nil _).symm
  distances_eq := rfl
  named _ hv := absurd hv List.not_mem_nil
  once _ := Nat.le_refl _
  checked _ _ ho := absurd ho List.not_mem_nil

/-- What is clean in the end was clean before. -/
theorem Walks.clean (h : Walks a vs occs b) (hb : b.Clean) : a.Clean := fun f hf =>
  hb f (h.kept.subset hf)

/-- Parts of the walk that follow each other. -/
theorem Walks.trans (h : Walks a vs occs b) (h' : Walks b ws occs' c) :
    Walks a (vs ++ ws) (occs ++ occs') c where
  grown := h.grown.trans h'.grown
  flags_eq := h'.flags_eq.trans h.flags_eq
  lost_eq := h'.lost_eq.trans h.lost_eq
  kept := h.kept.trans h'.kept
  visits_eq := by rw [h'.visits_eq, h.visits_eq, List.append_assoc]
  distances_eq := by rw [h'.distances_eq, h.distances_eq, Distances.record_append]
  named v hv := by
    rcases List.mem_append.mp hv with hv | hv
    · obtain ⟨o, ho, heq⟩ := h.named v hv
      exact ⟨o, List.mem_append_left _ ho, heq⟩
    · obtain ⟨o, ho, heq⟩ := h'.named v hv
      exact ⟨o, List.mem_append_right _ ho, heq⟩
  once k := by
    have h₁ := h.once k
    have h₂ := h'.once k
    simp only [List.map_append, List.count_append]
    omega
  checked hc o ho := by
    rcases List.mem_append.mp ho with ho | ho
    · exact (h.checked (h'.clean hc) o ho).mono (List.subset_append_left vs ws)
    · exact (h'.checked hc o ho).mono (List.subset_append_right vs ws)

/-- The walk over a piece comes back to the place of the piece. -/
theorem Walks.at (h : Walks a vs occs b) (hp : a.At p) : b.At p := by
  have hf := h.flags_eq
  simp only [Analysis.flags, Prod.mk.injEq] at hf
  exact ⟨by rw [h.grown.map_site]; exact hp.sites, by rw [hf.2.2]; exact hp.loops,
    by rw [hf.1]; exact hp.function⟩

/-- What the innermost scope declares it goes on to declare. -/
theorem Walks.declares {name : String} (h : Walks a vs occs b) (ha : a.Declares name) :
    b.Declares name := by
  intro s hs
  have hgrown := h.grown
  unfold Analysis.Declares at ha
  generalize a.scopes = ss at ha hgrown
  generalize b.scopes = ss' at hs hgrown
  cases hgrown with
  | nil => simp at hs
  | @cons s₀ s' _ _ hg _ =>
    have hs' : s' = s := by simpa using hs
    subst hs'
    exact hg.2 name (ha s₀ rfl)

theorem Walked.trans (h : Walked a occs b) (h' : Walked b occs' c) :
    Walked a (occs ++ occs') c := by
  obtain ⟨vs, h⟩ := h
  obtain ⟨ws, h'⟩ := h'
  exact ⟨vs ++ ws, h.trans h'⟩

theorem Walked.at (h : Walked a occs b) (hp : a.At p) : b.At p := h.elim fun _ h => h.at hp

theorem Walked.declares {name : String} (h : Walked a occs b) (ha : a.Declares name) :
    b.Declares name := h.elim fun _ h => h.declares ha

/-- Something more occurs that needs no visit. -/
theorem Walked.cons {o : Occurrence} (h : Walked a occs b)
    (ho : b.Clean → ∀ vs, o.Checked vs) : Walked a (o :: occs) b := by
  obtain ⟨vs, h⟩ := h
  refine ⟨vs, { h with named := fun v hv => ?_, once := fun k => ?_,
                       checked := fun hb o' ho' => ?_ }⟩
  · obtain ⟨o', ho', heq⟩ := h.named v hv
    exact ⟨o', List.mem_cons_of_mem _ ho', heq⟩
  · have := h.once k
    rw [List.map_cons, List.count_cons]
    omega
  · rcases List.mem_cons.mp ho' with rfl | ho'
    · exact ho hb vs
    · exact h.checked hb o' ho'

/-- Functions, classes and loops may be entered before a part of the walk if they are left
after it. -/
theorem Walked.reflag {a₀ b₀ : Analysis} (h : Walked a₀ occs b₀)
    (ha : a₀ = { a with inFunction := a₀.inFunction, classPlace := a₀.classPlace,
                        loopDepth := a₀.loopDepth })
    (hb : b = { b₀ with inFunction := a.inFunction, classPlace := a.classPlace,
                        loopDepth := a.loopDepth }) : Walked a occs b := by
  obtain ⟨vs, h⟩ := h
  have hscopes : a₀.scopes = a.scopes := by rw [ha]
  have hlost : a₀.lost = a.lost := by rw [ha]
  have hfindings : a₀.findings = a.findings := by rw [ha]
  have hvisits : a₀.visits = a.visits := by rw [ha]
  have hdistances : a₀.distances = a.distances := by rw [ha]
  subst hb
  exact ⟨vs, {
    grown := hscopes ▸ h.grown
    flags_eq := rfl
    lost_eq := hlost ▸ h.lost_eq
    kept := hfindings ▸ h.kept
    visits_eq := hvisits ▸ h.visits_eq
    distances_eq := hdistances ▸ h.distances_eq
    named := h.named
    once := h.once
    checked := h.checked }⟩

/-- A scope that is opened before a part of the walk can be closed after it. -/
theorem Walked.closeScope {site : Site} {names : Table String Local}
    (h : Walked (a.openScope site names) occs b) : Walked a occs b.closeScope := by
  obtain ⟨vs, h⟩ := h
  -- the scope that was opened is still the innermost one
  obtain ⟨s, ss, -, hss, heq⟩ := List.forall₂_cons_left_iff.mp h.grown
  have hclose : b.closeScope
      = { b with scopes := ss
                 findings := b.findings ++ (Analysis.unusedIn s.names).toArray } := by
    rw [Analysis.closeScope, heq]
  rw [hclose]
  refine ⟨vs, {
    grown := hss
    flags_eq := h.flags_eq
    lost_eq := h.lost_eq
    kept := ?_
    visits_eq := h.visits_eq
    distances_eq := h.distances_eq
    named := h.named
    once := h.once
    checked := fun hc => h.checked fun f hf => hc f ?_ }⟩
  · rw [Array.toList_append]
    exact h.kept.trans (List.prefix_append _ _)
  · rw [Array.toList_append]
    exact List.mem_append_left _ hf

end Composition

/-! ### The steps of the walk -/

section Steps

variable {a b : Analysis} {p : Place}

/-- A step that visits nothing. -/
theorem Walked.quiet (hgrown : ScopesGrow a.scopes b.scopes)
    (hkept : a.findings.toList <+: b.findings.toList)
    (hb : b = { a with scopes := b.scopes, findings := b.findings }) : Walked a [] b :=
  ⟨[], {
    grown := hgrown
    flags_eq := by rw [hb]; rfl
    lost_eq := by rw [hb]
    kept := hkept
    visits_eq := by rw [hb, List.append_nil]
    distances_eq := by rw [hb]; rfl
    named := fun _ hv => absurd hv List.not_mem_nil
    once := fun _ => Nat.le_refl _
    checked := fun _ _ ho => absurd ho List.not_mem_nil }⟩

theorem walked_fault (a : Analysis) (cause : ScopeCause) (token : Token) :
    Walked a [] (a.fault cause token) :=
  .quiet (.refl _) (by simp [Analysis.fault, Analysis.note]) rfl

theorem not_clean_fault (a : Analysis) (cause : ScopeCause) (token : Token) :
    ¬(a.fault cause token).Clean := fun h =>
  h ⟨cause, token⟩ (by simp [Analysis.fault, Analysis.note])

theorem walked_faultIf (a : Analysis) (condition : Bool) (cause : ScopeCause) (token : Token) :
    Walked a [] (a.faultIf condition cause token) := by
  cases condition with
  | true => exact walked_fault a cause token
  | false => exact ⟨[], .refl a⟩

theorem eq_false_of_clean_faultIf {condition : Bool} {cause : ScopeCause} {token : Token}
    (h : (a.faultIf condition cause token).Clean) : condition = false := by
  cases condition with
  | true => exact absurd h (not_clean_fault a cause token)
  | false => rfl

theorem walked_declare (a : Analysis) (name : Token) : Walked a [] (a.declare name) := by
  unfold Analysis.declare
  split
  · exact ⟨[], .refl a⟩
  · next s ss hscopes =>
    have hfault := walked_faultIf a (s.names.contains name.lexeme) .redeclared name
    refine hfault.trans (.quiet ?_ List.prefix_rfl rfl)
    have hsame : (a.faultIf (s.names.contains name.lexeme) .redeclared name).scopes = s :: ss := by
      rw [← hscopes]
      unfold Analysis.faultIf
      split <;> rfl
    rw [hsame]
    exact .cons (s.grows_insert _ _) (ScopesGrow.refl ss)

/-- What has just been declared is declared. -/
theorem declares_declare (a : Analysis) (name : Token) :
    (a.declare name).Declares name.lexeme := by
  intro s hs
  unfold Analysis.declare at hs
  split at hs
  · next hscopes => simp [hscopes] at hs
  · have hs' : _ = s := Option.some.inj hs
    rw [← hs']
    simp [Table.contains_insert]

/-- A name that is declared can be completed. -/
theorem walked_update {name : Token} (f : Local → Local) (h : a.Declares name.lexeme) :
    Walked a [] (a.update name f) := by
  unfold Analysis.update
  split
  · exact ⟨[], .refl a⟩
  · next s ss hscopes =>
    have hs : s.names.contains name.lexeme := h s (by rw [hscopes]; rfl)
    rw [if_pos hs]
    refine .quiet ?_ List.prefix_rfl rfl
    rw [hscopes]
    exact .cons (s.grows_modify _ _) (ScopesGrow.refl ss)

theorem walked_define {name : Token} (h : a.Declares name.lexeme) :
    Walked a [] (a.define name) := walked_update _ h

theorem walked_declareParam (a : Analysis) (name : Token) : Walked a [] (a.declareParam name) :=
  (walked_declare a name).trans (walked_update _ (declares_declare a name))

theorem walked_declareParams (params : List Token) (a : Analysis) :
    Walked a [] (params.foldl Analysis.declareParam a) := by
  induction params generalizing a with
  | nil => exact ⟨[], .refl a⟩
  | cons name params ih => exact (walked_declareParam a name).trans (ih _)

/-- Looking for a name finds the innermost scope that declares it, and keeps all scopes. -/
theorem touch_eq (name : String) (f : Local → Local) (ss : List Scope) :
    (Analysis.touch name f ss = none ∧ ss.findIdx? (fun s => s.names.contains name) = none)
      ∨ ∃ d ss', Analysis.touch name f ss = some (d, ss') ∧ ScopesGrow ss ss'
        ∧ ss.findIdx? (fun s => s.names.contains name) = some d := by
  induction ss with
  | nil => exact .inl ⟨rfl, rfl⟩
  | cons s ss ih =>
    cases hfind : s.names.find? name with
    | some l =>
      right
      refine ⟨0, _, by rw [Analysis.touch, hfind],
        .cons (s.grows_insert _ _) (ScopesGrow.refl ss), ?_⟩
      simp [List.findIdx?_cons, Table.contains, hfind]
    | none =>
      rcases ih with ⟨htouch, hidx⟩ | ⟨d, ss', htouch, hgrow, hidx⟩
      · left
        simp [Analysis.touch, hfind, htouch, List.findIdx?_cons, Table.contains]
        simpa [Table.contains] using hidx
      · right
        refine ⟨d + 1, s :: ss', by simp [Analysis.touch, hfind, htouch],
          .cons (.refl s) hgrow, ?_⟩
        simp only [List.findIdx?_cons, Table.contains, hfind, Option.isSome_none] at hidx ⊢
        simp [hidx]

/-- A name is looked for where it occurs. -/
theorem walked_refer {name : Token} (f : Local → Local) (hp : a.At p) :
    Walked a [⟨p, .name name⟩] (a.refer name f) := by
  have hchecked : ∀ o ∈ [(⟨p, .name name⟩ : Occurrence)], o.Checked [⟨name, a.scopes⟩] := by
    intro o ho
    rw [List.mem_singleton.mp ho]
    exact ⟨_, List.mem_singleton_self _, rfl, hp.sites.symm⟩
  have hnamed : ∀ v ∈ [(⟨name, a.scopes⟩ : Visit)],
      ∃ o ∈ [(⟨p, .name name⟩ : Occurrence)], o.item = .name v.name := by
    intro v hv
    rw [List.mem_singleton.mp hv]
    exact ⟨_, List.mem_singleton_self _, rfl⟩
  have hrecord : ∀ d : Option Nat,
      a.scopes.findIdx? (fun s => s.names.contains name.lexeme) = d →
      a.distances.record [⟨name, a.scopes⟩]
        = match d with
          | none => a.distances
          | some d => a.distances.insert name.position d := by
    rintro d rfl
    rfl
  have hvisit : ∀ {ss : List Scope} {known : Distances}, ScopesGrow a.scopes ss →
      a.distances.record [⟨name, a.scopes⟩] = known →
      Walked a [⟨p, .name name⟩] { a.visit name with scopes := ss, distances := known } :=
    fun hgrow hknown => ⟨[⟨name, a.scopes⟩], {
      grown := hgrow
      flags_eq := rfl
      lost_eq := rfl
      kept := List.prefix_rfl
      visits_eq := Array.toList_push
      distances_eq := hknown.symm
      named := hnamed
      once := fun _ => Nat.le_refl _
      checked := fun _ => hchecked }⟩
  -- the visit is the same whether or not the name is found; only what is recorded differs
  rcases touch_eq name.lexeme f a.scopes with ⟨htouch, hidx⟩ | ⟨d, ss, htouch, hgrow, hidx⟩
  · have hrefer : a.refer name f = a.visit name := by
      simp only [Analysis.refer, Analysis.visit, htouch]
    rw [hrefer]
    exact hvisit (.refl _) (hrecord none hidx)
  · have hrefer : a.refer name f
        = { a.visit name with scopes := ss, distances := a.distances.insert name.position d } := by
      simp only [Analysis.refer, Analysis.visit, htouch]
    rw [hrefer]
    exact hvisit hgrow (hrecord (some d) hidx)

theorem walked_read {name : Token} (hp : a.At p) : Walked a [⟨p, .name name⟩] (a.read name) := by
  have hfault := walked_faultIf a (a.isDeclaring name.lexeme) .ownInitializer name
  exact hfault.trans (walked_refer _ (hfault.at hp))

/-- An occurrence of `this` outside of the methods of a class is a fault. -/
theorem walked_this {keyword : Token} (hp : a.At p) :
    Walked a [⟨p, .name keyword⟩] (a.this keyword) := by
  unfold Analysis.this
  split
  · exact (walked_fault a _ _).cons fun h => absurd h (not_clean_fault a _ _)
  · exact (walked_fault a _ _).cons fun h => absurd h (not_clean_fault a _ _)
  · exact walked_refer _ hp

theorem walked_declareClass {name : Token} {superclass : Option Token} (hp : a.At p) :
    Walked a (superclass.toList.map fun s => ⟨p, .name s⟩) (a.declareClass name superclass) := by
  have hname := (walked_declare a name).trans (walked_define (declares_declare a name))
  cases superclass with
  | none => exact hname
  | some s =>
    have hfault := walked_faultIf ((a.declare name).define name) (s.lexeme == name.lexeme)
      .inheritsItself s
    exact hname.trans (hfault.trans (walked_read (hfault.at (hname.at hp))))

end Steps

/-! ### Entering and leaving -/

section Entering

variable {a b : Analysis} {p : Place} {occs : List Occurrence}

/-- A block, whose scope has no names at first. -/
theorem Analysis.At.openScope (hp : a.At p) (site : Site) (names : Table String Local) :
    (a.openScope site names).At (p.scope site) :=
  ⟨congrArg (site :: ·) hp.sites, hp.loops, hp.function⟩

theorem Analysis.At.enterLoop (hp : a.At p) : a.enterLoop.At p.loop :=
  ⟨hp.sites, congrArg (· + 1) hp.loops, hp.function⟩

theorem Walked.leaveLoop (h : Walked a.enterLoop occs b) : Walked a occs b.leaveLoop := by
  have hflags := h.elim fun _ h => h.flags_eq
  simp only [Analysis.flags, Analysis.enterLoop, Prod.mk.injEq] at hflags
  refine h.reflag rfl ?_
  rw [Analysis.leaveLoop, ← hflags.1, ← hflags.2.1, hflags.2.2, Nat.add_sub_cancel]

/-- The walk in a function, behind its parameters. -/
theorem Analysis.At.enterFunction (hp : a.At p) (site : Site) (params : List Token) :
    (a.enterFunction site params).At (p.enter site) :=
  (walked_declareParams params _).at ⟨congrArg (site :: ·) hp.sites, rfl, rfl⟩

theorem Walked.leaveFunction {site : Site} {params : List Token}
    (h : Walked (a.enterFunction site params) occs b) : Walked a occs (b.leaveFunction a) := by
  have hbody := ((walked_declareParams params _).trans h).closeScope
  have hflags := hbody.elim fun _ h => h.flags_eq
  simp only [Analysis.flags, Prod.mk.injEq] at hflags
  refine hbody.reflag rfl ?_
  rw [Analysis.leaveFunction, ← hflags.2.1]

theorem Analysis.At.enterStatics (hp : a.At p) : a.enterStatics.At p :=
  ⟨hp.sites, hp.loops, hp.function⟩

theorem Analysis.At.enterMethods (hp : a.At p) (name : Token) :
    (a.enterMethods name).At (p.scope (.receiver name.position)) :=
  ⟨congrArg (Site.receiver name.position :: ·) hp.sites, hp.loops, hp.function⟩

/-- The static methods and the methods of a class, from its declaration to its end. -/
theorem Walked.leaveClass {name : Token} {b c : Analysis} {occs' : List Occurrence}
    (hs : Walked a.enterStatics occs b) (hm : Walked (b.enterMethods name) occs' c) :
    Walked a (occs ++ occs') (c.leaveClass a) := by
  have hflags := hs.elim fun _ h => h.flags_eq
  simp only [Analysis.flags, Analysis.enterStatics, Prod.mk.injEq] at hflags
  have hmethods := hm.closeScope
  have hflags' := hmethods.elim fun _ h => h.flags_eq
  simp only [Analysis.flags, Prod.mk.injEq] at hflags'
  -- between the statics and the methods, the walk is back where the class is declared
  have hstatics : Walked a occs { b with classPlace := a.classPlace } := by
    refine hs.reflag rfl ?_
    rw [← hflags.1, ← hflags.2.2]
  refine hstatics.trans (hmethods.reflag rfl ?_)
  rw [Analysis.leaveClass, ← hflags'.1, ← hflags'.2.2]

end Entering

/-! ### The walk -/

mutual

/-- The walk over an expression. -/
theorem walked_expr : ∀ (e : Expr) {a : Analysis} {p : Place}, a.At p →
    Walked a (e.occurrences p) (analyzeExpr e a)
  | .literal _, a, _, _ => ⟨[], .refl a⟩
  | .grouping e, _, _, hp => walked_expr e hp
  | .unary _ e, _, _, hp => (walked_expr e hp).cons fun _ _ => trivial
  | .binary l _ r, _, _, hp => by
      have hl := walked_expr l hp
      exact (hl.trans (walked_expr r (hl.at hp))).cons fun _ _ => trivial
  | .logical l _ r, _, _, hp => by
      have hl := walked_expr l hp
      exact hl.trans (walked_expr r (hl.at hp))
  | .conditional c t e, _, _, hp => by
      have hc := walked_expr c hp
      have ht := walked_expr t (hc.at hp)
      exact hc.trans (ht.trans (walked_expr e (ht.at (hc.at hp))))
  | .assign name value, _, _, hp => by
      have hv := walked_expr value hp
      exact hv.trans (walked_refer _ (hv.at hp))
  | .variable _, _, _, hp => walked_read hp
  | .call callee _ arguments, _, _, hp => by
      have hc := walked_expr callee hp
      exact (hc.trans (walked_exprs arguments (hc.at hp))).cons fun _ _ => trivial
  | .get object _, _, _, hp => (walked_expr object hp).cons fun _ _ => trivial
  | .set object _ value, _, _, hp => by
      have hv := walked_expr value hp
      exact (hv.trans (walked_expr object (hv.at hp))).cons fun _ _ => trivial
  | .this _, _, _, hp => walked_this hp
  | .lambda keyword params body, _, _, hp =>
      (walked_stmts body (hp.enterFunction (.function keyword.position) params)).leaveFunction.cons
        fun _ _ => trivial

/-- The walk over expressions. -/
theorem walked_exprs : ∀ (es : List Expr) {a : Analysis} {p : Place}, a.At p →
    Walked a (exprsOccurrences es p) (analyzeExprs es a)
  | [], a, _, _ => ⟨[], .refl a⟩
  | e :: es, _, _, hp => by
      have he := walked_expr e hp
      exact he.trans (walked_exprs es (he.at hp))

/-- The walk over a statement. -/
theorem walked_stmt : ∀ (s : Stmt) {a : Analysis} {p : Place}, a.At p →
    Walked a (s.occurrences p) (analyzeStmt s a)
  | .expression e, _, _, hp => walked_expr e hp
  | .print e, _, _, hp => walked_expr e hp
  | .var name none, a, _, _ =>
      (walked_declare a name).trans (walked_define (declares_declare a name))
  | .var name (some e), a, _, hp => by
      have hname := walked_declare a name
      have he := walked_expr e (hname.at hp)
      -- the initializer is walked over while the name is declared but not defined
      have hdefine := walked_define (he.declares (declares_declare a name))
      have h := hname.trans (he.trans hdefine)
      rw [List.append_nil] at h
      exact h
  | .block position body, _, _, hp =>
      (walked_stmts body (hp.openScope (.block position) .empty)).closeScope.cons
        fun _ _ => trivial
  | .ifElse c t none, _, _, hp => by
      have hc := walked_expr c hp
      exact hc.trans (walked_stmt t (hc.at hp))
  | .ifElse c t (some e), _, _, hp => by
      have hc := walked_expr c hp
      have ht := walked_stmt t (hc.at hp)
      exact hc.trans (ht.trans (walked_stmt e (ht.at (hc.at hp))))
  | .while c body none, _, _, hp => by
      have hc := walked_expr c hp
      exact hc.trans (walked_stmt body (hc.at hp).enterLoop).leaveLoop
  | .while c body (some i), _, _, hp => by
      have hc := walked_expr c hp
      have hbody := walked_stmt body (hc.at hp).enterLoop
      have hi := walked_expr i (hbody.at (hc.at hp).enterLoop)
      exact hc.trans (hbody.trans hi).leaveLoop
  | .break _, a, _, hp => by
      refine (walked_faultIf a _ _ _).cons fun hclean _ => ?_
      have hloops := eq_false_of_clean_faultIf hclean
      rw [beq_eq_false_iff_ne, ← hp.loops] at hloops
      exact Nat.pos_of_ne_zero hloops
  | .continue _, a, _, hp => by
      refine (walked_faultIf a _ _ _).cons fun hclean _ => ?_
      have hloops := eq_false_of_clean_faultIf hclean
      rw [beq_eq_false_iff_ne, ← hp.loops] at hloops
      exact Nat.pos_of_ne_zero hloops
  | .function decl, a, _, hp => by
      have hname := (walked_declare a decl.name).trans
        (walked_define (declares_declare a decl.name))
      exact hname.trans (walked_function decl (hname.at hp))
  | .return keyword none, a, _, hp => by
      refine (walked_faultIf a _ _ _).cons fun hclean _ => ?_
      have hfunction := eq_false_of_clean_faultIf hclean
      rw [Bool.not_eq_false', ← hp.function] at hfunction
      exact hfunction
  | .return keyword (some e), a, _, hp => by
      have hfault := walked_faultIf a (!a.inFunction) .strayReturn keyword
      obtain ⟨vs, he⟩ := walked_expr e (hfault.at hp)
      refine (hfault.trans ⟨vs, he⟩).cons fun hclean _ => ?_
      have hfunction := eq_false_of_clean_faultIf (he.clean hclean)
      rw [Bool.not_eq_false', ← hp.function] at hfunction
      exact hfunction
  | .classDecl name superclass methods statics, a, p, hp => by
      have hname : Walked a (superclass.toList.map fun s => ⟨p, .name s⟩)
          (a.declareClass name superclass) := walked_declareClass hp
      have hplace : (a.declareClass name superclass).classPlace = a.classPlace :=
        congrArg (fun flags => flags.2.1) (hname.elim fun _ h => h.flags_eq)
      have hstatics := walked_functions statics (hname.at hp).enterStatics
      have hmethods := walked_functions methods
        ((hstatics.at (hname.at hp).enterStatics).enterMethods name)
      have h := hname.trans (hstatics.leaveClass hmethods)
      rw [Analysis.leaveClass, hplace] at h
      exact h.cons fun _ _ => trivial

/-- The walk over statements. -/
theorem walked_stmts : ∀ (ss : List Stmt) {a : Analysis} {p : Place}, a.At p →
    Walked a (stmtsOccurrences ss p) (analyzeStmts ss a)
  | [], a, _, _ => ⟨[], .refl a⟩
  | s :: ss, _, _, hp => by
      have hs := walked_stmt s hp
      exact hs.trans (walked_stmts ss (hs.at hp))

/-- The walk over a function. -/
theorem walked_function : ∀ (f : FunctionDecl) {a : Analysis} {p : Place}, a.At p →
    Walked a (f.occurrences p) (analyzeFunction f a)
  | .mk name params body, _, _, hp =>
      (walked_stmts body (hp.enterFunction (.function name.position) params)).leaveFunction.cons
        fun _ _ => trivial

/-- The walk over functions. -/
theorem walked_functions : ∀ (fs : List FunctionDecl) {a : Analysis} {p : Place}, a.At p →
    Walked a (functionsOccurrences fs p) (analyzeFunctions fs a)
  | [], a, _, _ => ⟨[], .refl a⟩
  | f :: fs, _, _, hp => by
      have hf := walked_function f hp
      exact hf.trans (walked_functions fs (hf.at hp))

end

/-- The walk over a program. -/
theorem Analysis.walked_ofProgram (program : Program) (known : Distances) :
    Walked { distances := known } program.occurrences (Analysis.ofProgram program known) :=
  walked_stmts program ⟨rfl, rfl, rfl⟩

end LoxLang
