import LoxLang.Proofs.Program.Renaming
import LoxLang.Proofs.Scope.Settled

/-!
# The analysis of a renamed program

The walk over a renamed program goes along with the walk over the program.  Scopes that
correspond to each other stand for the same construct, and one knows about a name what the
other knows about the new name.  If every use gets the new name of what it refers to, and no
scope on the way out has got this name, then each name is found at the same distance and
there is no new fault.

## Main definitions

* `Renaming.Finds` — a use finds under its new name what it found before.
* `Renaming.ScopeAlike` — corresponding scopes.
* `Analysis.Renamed` — corresponding states of the walk.
* `Renaming.Respects` — what is asked of a renaming of some declarations and visits.

## Main results

* `Program.renamed_analysis` — **a renamed program has no fault and the same distances.**
-/

namespace LoxLang

/-- What a scope knows about a name: whether its declaration is complete. -/
def Scope.state? (s : Scope) (x : String) : Option Bool := (s.names.find? x).map Local.defined

namespace Renaming

/-- A use finds under its new name what it found under the old one: the first scope that
declares the old name declares the new one in its place, and no scope before it does. -/
def Finds (ρ : Renaming) (t : Token) : List Scope → Prop
  | [] => ρ.key .globals t.lexeme = ρ.use t
  | s :: ss =>
      if s.names.contains t.lexeme then ρ.key s.site t.lexeme = ρ.use t
      else (∀ x, ρ.key s.site x = ρ.use t → s.names.contains x = false) ∧ ρ.Finds t ss

/-- Two scopes stand for one construct, and one knows about the new names what the other
knows about the old ones. -/
def ScopeAlike (ρ : Renaming) (s s' : Scope) : Prop :=
  s'.site = s.site ∧ ∀ x, s'.state? (ρ.key s.site x) = s.state? x

end Renaming

/-- Two walks are at the same place, with scopes that correspond to each other, and the second
has found no fault. -/
structure Analysis.Renamed (ρ : Renaming) (a a' : Analysis) : Prop where
  /-- The scopes. -/
  scopes : List.Forall₂ ρ.ScopeAlike a.scopes a'.scopes
  /-- The functions, classes and loops around. -/
  flags_eq : a'.flags = a.flags
  /-- The distances so far. -/
  distances_eq : a'.distances = a.distances
  /-- There is no fault. -/
  clean : a'.Clean

/-- The walk stands in the scope of a construct, or outside of all scopes. -/
def Analysis.StandsIn (site : Site) (a : Analysis) : Prop :=
  (a.scopes.map Scope.site ++ [Site.globals]).head? = some site

variable {ρ : Renaming} {a a' b : Analysis} {s s' : Scope} {site : Site} {name t : Token}
  {vs : List Visit} {occs : List Occurrence}

/-! ### Scopes -/

theorem Scope.isSome_state? (s : Scope) (x : String) :
    (s.state? x).isSome = s.names.contains x := Option.isSome_map

theorem Scope.state?_eq_none (s : Scope) {x : String} (h : s.names.contains x = false) :
    s.state? x = none := by
  rw [← Option.not_isSome_iff_eq_none, isSome_state?, h]
  exact Bool.false_ne_true

theorem Scope.state?_insert (s : Scope) (x y : String) (l : Local) :
    ({ s with names := s.names.insert x l } : Scope).state? y
      = if x = y then some l.defined else s.state? y := by
  simp only [Scope.state?, Table.find?_insert]
  split <;> rfl

namespace Renaming.ScopeAlike

variable (h : ρ.ScopeAlike s s')

include h

theorem contains_eq (x : String) : s'.names.contains (ρ.key s.site x) = s.names.contains x := by
  rw [← Scope.isSome_state?, ← Scope.isSome_state?, h.2]

/-- What is known about a name changes in both scopes. -/
theorem insert (x : String) {l l' : Local} (hl : l'.defined = l.defined) :
    ρ.ScopeAlike { s with names := s.names.insert x l }
      { s' with names := s'.names.insert (ρ.key s.site x) l' } := by
  refine ⟨h.1, fun y => ?_⟩
  rw [Scope.state?_insert, Scope.state?_insert, h.2, hl]
  by_cases hxy : x = y
  · rw [if_pos hxy, if_pos (congrArg _ hxy)]
  · rw [if_neg hxy, if_neg fun heq => hxy ((ρ.key s.site).injective heq)]

/-- Likewise for a name that is declared. -/
theorem modify (x : String) {f : Local → Local}
    (hf : ∀ l l' : Local, l'.defined = l.defined → (f l').defined = (f l).defined) :
    ρ.ScopeAlike { s with names := s.names.modify x f }
      { s' with names := s'.names.modify (ρ.key s.site x) f } := by
  have hstate := h.2 x
  unfold Scope.state? at hstate
  unfold Table.modify
  cases hfind : s.names.find? x with
  | none =>
    rw [hfind, Option.map_none, Option.map_eq_none_iff] at hstate
    rw [hstate]
    exact h
  | some l =>
    rw [hfind] at hstate
    obtain ⟨l', hfind', hl⟩ := Option.map_eq_some_iff.mp hstate
    rw [hfind']
    exact h.insert x (hf l l' hl)

/-- The innermost scope knows about the new name of a use what it knew about the name. -/
theorem state?_use {ss : List Scope} (hfinds : ρ.Finds t (s :: ss)) :
    s'.state? (ρ.use t) = s.state? t.lexeme := by
  unfold Renaming.Finds at hfinds
  split at hfinds
  · rw [← hfinds, h.2]
  · next hcontains =>
    obtain ⟨x, hx⟩ := (ρ.key s.site).surjective (ρ.use t)
    rw [← hx, h.2, s.state?_eq_none (hfinds.1 x hx),
      s.state?_eq_none (Bool.not_eq_true _ ▸ hcontains)]

end Renaming.ScopeAlike

/-- A name and its new name are found in corresponding scopes. -/
theorem touch_alike {ss ss' : List Scope} (h : List.Forall₂ ρ.ScopeAlike ss ss')
    (hfinds : ρ.Finds t ss) {f : Local → Local}
    (hf : ∀ l l' : Local, l'.defined = l.defined → (f l').defined = (f l).defined) :
    Option.Rel (fun p p' => p'.1 = p.1 ∧ List.Forall₂ ρ.ScopeAlike p.2 p'.2)
      (Analysis.touch t.lexeme f ss) (Analysis.touch (ρ.use t) f ss') := by
  induction h with
  | nil => exact .none
  | @cons s s' ss ss' hs hss ih =>
    have hstate := hs.state?_use hfinds
    unfold Renaming.Finds at hfinds
    unfold Scope.state? at hstate
    unfold Analysis.touch
    cases hfind : s.names.find? t.lexeme with
    | some l =>
      rw [hfind] at hstate
      obtain ⟨l', hfind', hdefined⟩ := Option.map_eq_some_iff.mp hstate
      rw [if_pos (by rw [Table.contains, hfind]; rfl)] at hfinds
      have hinsert := hs.insert t.lexeme (hf l l' hdefined)
      rw [hfinds] at hinsert
      rw [hfind']
      exact .some ⟨rfl, .cons hinsert hss⟩
    | none =>
      rw [hfind, Option.map_none, Option.map_eq_none_iff] at hstate
      rw [if_neg (by rw [Table.contains, hfind]; exact Bool.false_ne_true)] at hfinds
      rw [hstate]
      have hrel := ih hfinds.2
      generalize Analysis.touch t.lexeme f ss = o at hrel ⊢
      generalize Analysis.touch (ρ.use t) f ss' = o' at hrel ⊢
      cases hrel with
      | none => exact .none
      | some hrel => exact .some ⟨congrArg (· + 1) hrel.1, .cons hs hrel.2⟩

/-! ### The steps of the walk -/

theorem Analysis.Clean.closeScope (h : a.Clean) : a.closeScope.Clean := by
  unfold Analysis.closeScope
  split
  · exact h
  · intro f hf
    rw [Array.toList_append] at hf
    rcases List.mem_append.mp hf with hf | hf
    · exact h f hf
    · -- remarks on unused names are no faults
      obtain ⟨⟨x, l⟩, -, hx⟩ := List.mem_filterMap.mp hf
      dsimp only at hx
      split at hx <;> cases hx

/-- The walk over a piece comes back to the scope of the construct it stands in. -/
theorem Walked.standsIn (h : Walked a occs b) (ha : a.StandsIn site) : b.StandsIn site := by
  obtain ⟨_, h⟩ := h
  rw [Analysis.StandsIn, h.grown.map_site]
  exact ha

theorem Analysis.StandsIn.site_eq {ss : List Scope} (h : a.StandsIn site)
    (hscopes : a.scopes = s :: ss) : s.site = site := by
  rw [StandsIn, hscopes] at h
  exact Option.some.inj h

theorem Analysis.standsIn_openScope (a : Analysis) (site : Site) (names : Table String Local) :
    (a.openScope site names).StandsIn site := rfl

theorem Analysis.standsIn_enterFunction (a : Analysis) (site : Site) (params : List Token) :
    (a.enterFunction site params).StandsIn site :=
  (walked_declareParams params _).standsIn (standsIn_openScope _ _ _)

/-- A name is in the middle of being declared if the innermost scope knows it as incomplete. -/
theorem Analysis.isDeclaring_eq (a : Analysis) (x : String) :
    a.isDeclaring x = (a.scopes.head?.bind (Scope.state? · x) == some false) := by
  unfold isDeclaring
  cases a.scopes with
  | nil => rfl
  | cons s ss =>
    rw [List.head?_cons, Option.bind_some, Scope.state?]
    cases hfind : s.names.find? x with
    | none => simp [hfind]
    | some l => cases hl : l.defined <;> simp [hfind, hl]

/-- A use of another name does not get the name that the innermost scope has declared. -/
theorem Renaming.Finds.use_ne (h : ρ.Finds t a.scopes) (hsite : a.StandsIn site)
    (hdeclares : a.Declares name.lexeme) (hname : ρ.key site name.lexeme = name.lexeme)
    (hne : t.lexeme ≠ name.lexeme) : ρ.use t ≠ name.lexeme := by
  intro huse
  rw [← hname] at huse
  cases hscopes : a.scopes with
  | nil =>
    rw [hscopes] at h
    rw [Analysis.StandsIn, hscopes] at hsite
    obtain rfl : Site.globals = site := Option.some.inj hsite
    exact hne ((ρ.key .globals).injective (h.trans huse))
  | cons s ss =>
    rw [hscopes] at h
    obtain rfl := hsite.site_eq hscopes
    unfold Finds at h
    split at h
    · exact hne ((ρ.key s.site).injective (h.trans huse))
    · have hcontains := hdeclares s (by rw [hscopes]; rfl)
      rw [h.1 name.lexeme huse.symm] at hcontains
      cases hcontains

namespace Analysis.Renamed

variable (h : a.Renamed ρ a')

include h

/-- The scopes of both walks. -/
theorem scopes_cases : (a.scopes = [] ∧ a'.scopes = [])
    ∨ ∃ s ss s' ss', a.scopes = s :: ss ∧ a'.scopes = s' :: ss' ∧ ρ.ScopeAlike s s'
      ∧ List.Forall₂ ρ.ScopeAlike ss ss' := by
  have hscopes := h.scopes
  cases ha : a.scopes with
  | nil =>
    rw [ha] at hscopes
    exact .inl ⟨rfl, List.forall₂_nil_left_iff.mp hscopes⟩
  | cons s ss =>
    rw [ha] at hscopes
    obtain ⟨s', ss', hs, hss, ha'⟩ := List.forall₂_cons_left_iff.mp hscopes
    exact .inr ⟨s, ss, s', ss', rfl, ha', hs, hss⟩

theorem inFunction_eq : a'.inFunction = a.inFunction := congrArg Prod.fst h.flags_eq

theorem classPlace_eq : a'.classPlace = a.classPlace :=
  congrArg (fun flags => flags.2.1) h.flags_eq

theorem loopDepth_eq : a'.loopDepth = a.loopDepth :=
  congrArg (fun flags => flags.2.2) h.flags_eq

/-- Functions, classes and loops are entered and left in the same way. -/
theorem reflag {b b' : Analysis}
    (hb : b = { a with inFunction := b.inFunction, classPlace := b.classPlace,
                       loopDepth := b.loopDepth })
    (hb' : b' = { a' with inFunction := b'.inFunction, classPlace := b'.classPlace,
                          loopDepth := b'.loopDepth })
    (hflags : b'.flags = b.flags) : b.Renamed ρ b' := by
  refine ⟨?_, hflags, ?_, ?_⟩
  · rw [hb, hb']
    exact h.scopes
  · rw [hb, hb']
    exact h.distances_eq
  · rw [hb']
    exact h.clean

theorem openScope {names names' : Table String Local}
    (hnames : ρ.ScopeAlike ⟨site, names⟩ ⟨site, names'⟩) :
    (a.openScope site names).Renamed ρ (a'.openScope site names') :=
  ⟨.cons hnames h.scopes, h.flags_eq, h.distances_eq, h.clean⟩

theorem closeScope : a.closeScope.Renamed ρ a'.closeScope := by
  have hclean := h.clean.closeScope
  unfold Analysis.closeScope at hclean ⊢
  rcases h.scopes_cases with ⟨ha, ha'⟩ | ⟨s, ss, s', ss', ha, ha', -, hss⟩
  · rw [ha'] at hclean
    rw [ha, ha']
    exact ⟨.nil, h.flags_eq, h.distances_eq, hclean⟩
  · rw [ha'] at hclean
    rw [ha, ha']
    exact ⟨hss, h.flags_eq, h.distances_eq, hclean⟩

theorem leaveFunction {outer outer' : Analysis} (houter : outer.Renamed ρ outer') :
    (a.leaveFunction outer).Renamed ρ (a'.leaveFunction outer') := by
  refine h.closeScope.reflag rfl rfl ?_
  simp only [Analysis.flags, Analysis.leaveFunction, h.closeScope.classPlace_eq,
    houter.inFunction_eq, houter.loopDepth_eq]

theorem leaveClass {outer outer' : Analysis} (houter : outer.Renamed ρ outer') :
    (a.leaveClass outer).Renamed ρ (a'.leaveClass outer') := by
  refine h.closeScope.reflag rfl rfl ?_
  simp only [Analysis.flags, Analysis.leaveClass, h.closeScope.inFunction_eq,
    h.closeScope.loopDepth_eq, houter.classPlace_eq]

theorem enterLoop : a.enterLoop.Renamed ρ a'.enterLoop := by
  refine h.reflag rfl rfl ?_
  simp only [Analysis.flags, Analysis.enterLoop, h.inFunction_eq, h.classPlace_eq, h.loopDepth_eq]

theorem leaveLoop : a.leaveLoop.Renamed ρ a'.leaveLoop := by
  refine h.reflag rfl rfl ?_
  simp only [Analysis.flags, Analysis.leaveLoop, h.inFunction_eq, h.classPlace_eq, h.loopDepth_eq]

theorem enterStatics : a.enterStatics.Renamed ρ a'.enterStatics := by
  refine h.reflag rfl rfl ?_
  simp only [Analysis.flags, Analysis.enterStatics, h.inFunction_eq, h.loopDepth_eq]

/-- The receiver has the same name in both scopes around methods. -/
theorem enterMethods (name : Token) :
    (a.enterMethods name).Renamed ρ (a'.enterMethods name) := by
  have hmethod : ({ a with classPlace := .method } : Analysis).Renamed ρ
      { a' with classPlace := .method } :=
    h.reflag rfl rfl (by simp only [Analysis.flags, h.inFunction_eq, h.loopDepth_eq])
  refine hmethod.openScope ?_
  have hempty : ρ.ScopeAlike ⟨.receiver name.position, .empty⟩ ⟨.receiver name.position, .empty⟩ :=
    ⟨rfl, fun _ => rfl⟩
  have hinsert : ∀ l : Local, ρ.ScopeAlike
      ⟨.receiver name.position, Table.empty.insert (ρ.key (.receiver name.position) "this") l⟩
      ⟨.receiver name.position, Table.empty.insert (ρ.key (.receiver name.position) "this") l⟩ := by
    intro l
    have hthis := hempty.insert "this" (Eq.refl l.defined)
    rwa [ρ.key_this] at hthis ⊢
  rw [ρ.key_this] at hinsert
  exact hinsert _

/-- A fault that the first walk does not find is not found by the second. -/
theorem faultIf {c : Bool} {cause : ScopeCause} {token : Token}
    (haccepted : (a.faultIf c cause token).Accepted vs) (c' : Bool) (token' : Token)
    (hc : c = false → c' = false) :
    (a.faultIf c cause token).Renamed ρ (a'.faultIf c' cause token') := by
  have hfalse := eq_false_of_clean_faultIf haccepted.clean
  rw [hfalse, hc hfalse]
  exact h

/-- A name is declared under its new name. -/
theorem declare (hsite : a.StandsIn site) (haccepted : (a.declare name).Accepted vs) :
    (a.declare name).Renamed ρ (a'.declare (ρ.declare site name)) := by
  unfold Analysis.declare at haccepted ⊢
  rcases h.scopes_cases with ⟨ha, ha'⟩ | ⟨s, ss, s', ss', ha, ha', hs, hss⟩
  · rw [ha, ha']
    exact h
  · rw [ha] at haccepted
    rw [ha, ha']
    obtain rfl := hsite.site_eq ha
    -- the new name is declared again only if the name is
    have hfault := h.faultIf (haccepted.of_eq rfl rfl)
      (s'.names.contains (ρ.declare s.site name).lexeme) (ρ.declare s.site name)
      fun hfalse => (hs.contains_eq name.lexeme).trans hfalse
    exact ⟨.cons (hs.insert name.lexeme rfl) hss, hfault.flags_eq, hfault.distances_eq,
      hfault.clean⟩

theorem update (hsite : a.StandsIn site) {f : Local → Local}
    (hf : ∀ l l' : Local, l'.defined = l.defined → (f l').defined = (f l).defined) :
    (a.update name f).Renamed ρ (a'.update (ρ.declare site name) f) := by
  unfold Analysis.update
  rcases h.scopes_cases with ⟨ha, ha'⟩ | ⟨s, ss, s', ss', ha, ha', hs, hss⟩
  · rw [ha, ha']
    exact h
  · rw [ha, ha']
    obtain rfl := hsite.site_eq ha
    dsimp only
    rw [Renaming.lexeme_declare, hs.contains_eq]
    split
    · exact ⟨.cons (hs.modify name.lexeme hf) hss, h.flags_eq, h.distances_eq, h.clean⟩
    · exact ⟨.cons hs hss, h.flags_eq, h.distances_eq, h.clean⟩

theorem define (hsite : a.StandsIn site) :
    (a.define name).Renamed ρ (a'.define (ρ.declare site name)) := h.update hsite fun _ _ _ => rfl

/-- A name that is declared and completed at once. -/
theorem declare_define (hsite : a.StandsIn site)
    (haccepted : ((a.declare name).define name).Accepted vs) :
    ((a.declare name).define name).Renamed ρ
      ((a'.declare (ρ.declare site name)).define (ρ.declare site name)) :=
  (h.declare hsite haccepted.define).define ((walked_declare a name).standsIn hsite)

theorem declareParams {params : List Token} (hsite : a.StandsIn site)
    (haccepted : (params.foldl declareParam a).Accepted vs) :
    (params.foldl declareParam a).Renamed ρ
      ((params.map (ρ.declare site)).foldl declareParam a') := by
  induction params generalizing a a' with
  | nil => exact h
  | cons name params ih =>
    have hparam : (a.declareParam name).Accepted vs :=
      (walked_declareParams params (a.declareParam name)).accepted haccepted
    have hdeclare : (a.declare name).Accepted vs :=
      (walked_update _ (declares_declare a name)).accepted hparam
    refine ih ?_ ((walked_declareParam a name).standsIn hsite) haccepted
    exact (h.declare hsite hdeclare).update ((walked_declare a name).standsIn hsite)
      fun _ _ _ => rfl

theorem enterFunction {params : List Token}
    (haccepted : (a.enterFunction site params).Accepted vs) :
    (a.enterFunction site params).Renamed ρ
      (a'.enterFunction site (params.map (ρ.declare site))) := by
  have hinside : ({ a with inFunction := true, loopDepth := 0 } : Analysis).Renamed ρ
      { a' with inFunction := true, loopDepth := 0 } :=
    h.reflag rfl rfl (by simp only [Analysis.flags, h.classPlace_eq])
  exact (hinside.openScope ⟨rfl, fun _ => rfl⟩).declareParams (standsIn_openScope _ _ _) haccepted

/-- A name is found at the same distance as its new name. -/
theorem refer (hfinds : ρ.Finds t a.scopes) {f : Local → Local}
    (hf : ∀ l l' : Local, l'.defined = l.defined → (f l').defined = (f l).defined) :
    (a.refer t f).Renamed ρ (a'.refer (ρ.refer t) f) := by
  have hrel := touch_alike h.scopes hfinds hf
  unfold Analysis.refer
  dsimp only [Analysis.visit, Renaming.lexeme_refer, Renaming.position_refer]
  generalize Analysis.touch t.lexeme f a.scopes = o at hrel ⊢
  generalize Analysis.touch (ρ.use t) f a'.scopes = o' at hrel ⊢
  cases hrel with
  | none => exact ⟨h.scopes, h.flags_eq, h.distances_eq, h.clean⟩
  | @some p p' hrel =>
    obtain ⟨d, ss⟩ := p
    obtain ⟨d', ss'⟩ := p'
    obtain ⟨rfl, hss⟩ := hrel
    exact ⟨hss, h.flags_eq, congrArg (fun D => D.insert t.position d') h.distances_eq, h.clean⟩

/-- A name is in the middle of being declared if its new name is. -/
theorem isDeclaring (hfinds : ρ.Finds t a.scopes) :
    a'.isDeclaring (ρ.use t) = a.isDeclaring t.lexeme := by
  rw [isDeclaring_eq, isDeclaring_eq]
  rcases h.scopes_cases with ⟨ha, ha'⟩ | ⟨s, ss, s', ss', ha, ha', hs, -⟩
  · rw [ha, ha']
    rfl
  · rw [ha] at hfinds
    rw [ha, ha']
    exact congrArg (· == some false) (hs.state?_use hfinds)

/-- A name is read under its new name. -/
theorem read (hfinds : ρ.Finds t a.scopes) (haccepted : (a.read t).Accepted vs) :
    (a.read t).Renamed ρ (a'.read (ρ.refer t)) := by
  have hfault : (a.faultIf (a.isDeclaring t.lexeme) .ownInitializer t).Accepted vs :=
    (walked_refer _ (at_place _)).accepted haccepted
  have hscopes : (a.faultIf (a.isDeclaring t.lexeme) .ownInitializer t).scopes = a.scopes := by
    unfold Analysis.faultIf
    split <;> rfl
  refine (h.faultIf hfault (a'.isDeclaring (ρ.use t)) (ρ.refer t) fun hfalse => ?_).refer
    (by rw [hscopes]; exact hfinds) fun _ _ hl => hl
  rw [h.isDeclaring hfinds]
  exact hfalse

theorem this (hkind : t.kind = .kwThis) (hfinds : ∀ v ∈ vs, ρ.Finds v.name v.scopes)
    (haccepted : (a.this t).Accepted vs) : (a.this t).Renamed ρ (a'.this t) := by
  have hself : ρ.refer t = t := Renaming.refer_eq_self (ρ.use_this t hkind)
  unfold Analysis.this at haccepted ⊢
  rw [h.classPlace_eq]
  cases hplace : a.classPlace with
  | outside =>
    rw [hplace] at haccepted
    exact absurd haccepted.clean (not_clean_fault _ _ _)
  | staticMethod =>
    rw [hplace] at haccepted
    exact absurd haccepted.clean (not_clean_fault _ _ _)
  | method =>
    rw [hplace] at haccepted
    have huse := h.refer (hfinds _ (Analysis.Accepted.refer haccepted)) (f := fun l =>
      { l with used := true }) fun _ _ hl => hl
    rw [hself] at huse
    exact huse

/-- A class keeps its name, and it does not inherit from itself if it did not before. -/
theorem declareClass (hsite : a.StandsIn site) {superclass : Option Token}
    (hname : ρ.key site name.lexeme = name.lexeme)
    (hfinds : ∀ v ∈ vs, ρ.Finds v.name v.scopes)
    (haccepted : (a.declareClass name superclass).Accepted vs) :
    (a.declareClass name superclass).Renamed ρ
      (a'.declareClass name (superclass.map ρ.refer)) := by
  have hdeclare : ((a.declare name).define name).Accepted vs →
      ((a.declare name).define name).Renamed ρ ((a'.declare name).define name) := by
    intro haccepted
    have hdefine := h.declare_define hsite haccepted
    rwa [Renaming.declare_eq_self hname] at hdefine
  cases superclass with
  | none => exact hdeclare haccepted
  | some t =>
    let b := (a.declare name).define name
    have hread : ((b.faultIf (t.lexeme == name.lexeme) .inheritsItself t).read t).Accepted vs :=
      haccepted
    have hfault := (walked_read (at_place _)).accepted hread
    have hb := hdeclare ((walked_faultIf b _ _ t).accepted hfault)
    have hvisit := hfinds _ hread.read
    refine (hb.faultIf hfault (ρ.use t == name.lexeme) (ρ.refer t) fun hfalse => ?_).read hvisit
      hread
    have hwalked := walked_define (declares_declare a name)
    have hdeclares := hwalked.declares (declares_declare a name)
    have hsite' := hwalked.standsIn ((walked_declare a name).standsIn hsite)
    have hscopes : (b.faultIf (t.lexeme == name.lexeme) .inheritsItself t).scopes = b.scopes := by
      rw [hfalse]
      rfl
    dsimp only at hvisit
    rw [hscopes] at hvisit
    exact beq_eq_false_iff_ne.mpr
      (hvisit.use_ne hsite' hdeclares hname (beq_eq_false_iff_ne.mp hfalse))

end Analysis.Renamed

/-! ### The walk over a renamed program -/

section Walk

variable {ds : List Declaration}

/-- A renaming respects some declarations and visits of names. -/
structure Renaming.Respects (ρ : Renaming) (ds : List Declaration) (vs : List Visit) : Prop where
  /-- Functions and classes keep their names. -/
  spares : ∀ d ∈ ds, d.kind = .function ∨ d.kind = .class → ρ.Spares d
  /-- What is visited is found under its new name. -/
  finds : ∀ v ∈ vs, ρ.Finds v.name v.scopes

mutual

/-- The walks over an expression and the renamed one. -/
theorem Expr.renamed (hρ : ρ.Respects ds vs) : ∀ (e : Expr) {a a' : Analysis},
    e.wellFormed = true → e.declarations ⊆ ds →
    (analyzeExpr e a).Accepted vs → a.Renamed ρ a' →
    (analyzeExpr e a).Renamed ρ (analyzeExpr (e.rename ρ) a')
  | .literal _, _, _, _, _, _, h => h
  | .grouping e, _, _, hwf, hd, hv, h => e.renamed hρ hwf hd hv h
  | .unary _ e, _, _, hwf, hd, hv, h => by
      simp only [Expr.wellFormed, Bool.and_eq_true] at hwf
      exact e.renamed hρ hwf.1.2 hd hv h
  | .binary l _ r, a, _, hwf, hd, hv, h => by
      simp only [Expr.wellFormed, Bool.and_eq_true] at hwf
      rw [Expr.declarations, List.append_subset] at hd
      have hl := (walked_expr r (analyzeExpr l a).at_place).accepted hv
      exact r.renamed hρ hwf.1.2 hd.2 hv (l.renamed hρ hwf.1.1.1.2 hd.1 hl h)
  | .logical l _ r, a, _, hwf, hd, hv, h => by
      simp only [Expr.wellFormed, Bool.and_eq_true] at hwf
      rw [Expr.declarations, List.append_subset] at hd
      have hl := (walked_expr r (analyzeExpr l a).at_place).accepted hv
      exact r.renamed hρ hwf.1.2 hd.2 hv (l.renamed hρ hwf.1.1.1.2 hd.1 hl h)
  | .conditional c t e, a, _, hwf, hd, hv, h => by
      simp only [Expr.wellFormed, Bool.and_eq_true] at hwf
      simp only [Expr.declarations, List.append_subset] at hd
      have ht := (walked_expr e (analyzeExpr t (analyzeExpr c a)).at_place).accepted hv
      have hc := (walked_expr t (analyzeExpr c a).at_place).accepted ht
      exact e.renamed hρ hwf.1.2 hd.2.2 hv
        (t.renamed hρ hwf.1.1.1.2 hd.2.1 ht (c.renamed hρ hwf.1.1.1.1.1 hd.1 hc h))
  | .assign name e, a, _, hwf, hd, hv, h => by
      simp only [Expr.wellFormed, Bool.and_eq_true] at hwf
      have he := (walked_refer _ (analyzeExpr e a).at_place).accepted hv
      exact (e.renamed hρ hwf.1.2 hd he h).refer (hρ.finds _ hv.refer) fun _ _ _ => rfl
  | .variable name, _, _, _, _, hv, h => h.read (hρ.finds _ hv.read) hv
  | .call callee _ arguments, a, _, hwf, hd, hv, h => by
      simp only [Expr.wellFormed, Bool.and_eq_true] at hwf
      rw [Expr.declarations, List.append_subset] at hd
      have hcallee := (walked_exprs arguments (analyzeExpr callee a).at_place).accepted hv
      exact exprsRenamed hρ arguments hwf.2 hd.2 hv (callee.renamed hρ hwf.1.1.1.1 hd.1 hcallee h)
  | .get e _, _, _, hwf, hd, hv, h => by
      simp only [Expr.wellFormed, Bool.and_eq_true] at hwf
      exact e.renamed hρ hwf.1.1 hd hv h
  | .set e _ v, a, _, hwf, hd, hv, h => by
      simp only [Expr.wellFormed, Bool.and_eq_true] at hwf
      rw [Expr.declarations, List.append_subset] at hd
      have hvalue := (walked_expr e (analyzeExpr v a).at_place).accepted hv
      exact e.renamed hρ hwf.1.1.1.1 hd.1 hv (v.renamed hρ hwf.1.2 hd.2 hvalue h)
  | .this keyword, _, _, hwf, _, hv, h => h.this (beq_iff_eq.mp hwf) hρ.finds hv
  | .lambda keyword params body, a, _, hwf, hd, hv, h => by
      simp only [Expr.wellFormed, Bool.and_eq_true] at hwf
      rw [Expr.declarations, List.append_subset] at hd
      have hbody := hv.leaveFunction
      have henter := (walked_stmts body (Analysis.at_place _)).accepted hbody
      exact (stmtsRenamed hρ body hwf.2 hd.2 (a.standsIn_enterFunction _ params) hbody
        (h.enterFunction henter)).leaveFunction h

theorem exprsRenamed (hρ : ρ.Respects ds vs) : ∀ (es : List Expr) {a a' : Analysis},
    exprsWellFormed es = true → exprsDeclarations es ⊆ ds →
    (analyzeExprs es a).Accepted vs → a.Renamed ρ a' →
    (analyzeExprs es a).Renamed ρ (analyzeExprs (exprsRename ρ es) a')
  | [], _, _, _, _, _, h => h
  | e :: es, a, _, hwf, hd, hv, h => by
      simp only [exprsWellFormed, Bool.and_eq_true] at hwf
      rw [exprsDeclarations, List.append_subset] at hd
      have he := (walked_exprs es (analyzeExpr e a).at_place).accepted hv
      exact exprsRenamed hρ es hwf.2 hd.2 hv (e.renamed hρ hwf.1.1 hd.1 he h)

/-- The walks over a statement and the renamed one. -/
theorem Stmt.renamed (hρ : ρ.Respects ds vs) : ∀ (s : Stmt) {a a' : Analysis} {site : Site},
    s.wellFormed = true → s.declarations site ⊆ ds → a.StandsIn site →
    (analyzeStmt s a).Accepted vs → a.Renamed ρ a' →
    (analyzeStmt s a).Renamed ρ (analyzeStmt (s.rename ρ site) a')
  | .expression e, _, _, _, hwf, hd, _, hv, h => e.renamed hρ hwf hd hv h
  | .print e, _, _, _, hwf, hd, _, hv, h => e.renamed hρ hwf hd hv h
  | .var name none, _, _, _, _, _, hs, hv, h => h.declare_define hs hv
  | .var name (some e), a, _, _, hwf, hd, hs, hv, h => by
      simp only [Stmt.wellFormed, Bool.and_eq_true] at hwf
      rw [Stmt.declarations, List.cons_subset] at hd
      have he := hv.define
      have hdeclare := (walked_expr e (a.declare name).at_place).accepted he
      refine (e.renamed hρ hwf.2 hd.2 he (h.declare hs hdeclare)).define ?_
      exact (walked_expr e (Analysis.at_place _)).standsIn ((walked_declare a name).standsIn hs)
  | .block position body, a, _, _, hwf, hd, _, hv, h => by
      refine (stmtsRenamed hρ body hwf hd (a.standsIn_openScope _ _) hv.closeScope ?_).closeScope
      exact h.openScope ⟨rfl, fun _ => rfl⟩
  | .ifElse c t none, a, _, _, hwf, hd, hs, hv, h => by
      simp only [Stmt.wellFormed, Bool.and_eq_true] at hwf
      rw [Stmt.declarations, List.append_subset] at hd
      have hc := (walked_stmt t (analyzeExpr c a).at_place).accepted hv
      exact t.renamed hρ hwf.1.2 hd.2 ((walked_expr c a.at_place).standsIn hs) hv
        (c.renamed hρ hwf.1.1 hd.1 hc h)
  | .ifElse c t (some e), a, _, _, hwf, hd, hs, hv, h => by
      simp only [Stmt.wellFormed, Bool.and_eq_true] at hwf
      simp only [Stmt.declarations, List.append_subset] at hd
      have ht := (walked_stmt e (analyzeStmt t (analyzeExpr c a)).at_place).accepted hv
      have hc := (walked_stmt t (analyzeExpr c a).at_place).accepted ht
      have hs' := (walked_expr c a.at_place).standsIn hs
      exact e.renamed hρ hwf.1.2 hd.2.2 ((walked_stmt t (Analysis.at_place _)).standsIn hs') hv
        (t.renamed hρ hwf.1.1.1.1.2 hd.2.1 hs' ht (c.renamed hρ hwf.1.1.1.1.1 hd.1 hc h))
  | .while c body none, a, _, _, hwf, hd, hs, hv, h => by
      simp only [Stmt.wellFormed, Bool.and_eq_true] at hwf
      rw [Stmt.declarations, List.append_subset] at hd
      have hbody := hv.of_eq (a := analyzeStmt body (analyzeExpr c a).enterLoop) rfl rfl
      have hc := (walked_stmt body (analyzeExpr c a).enterLoop.at_place).accepted hbody
      have hs' : (analyzeExpr c a).enterLoop.StandsIn _ := (walked_expr c a.at_place).standsIn hs
      exact (body.renamed hρ hwf.1.2 hd.2 hs' hbody
        (c.renamed hρ hwf.1.1 hd.1 (hc.of_eq rfl rfl) h).enterLoop).leaveLoop
  | .while c body (some i), a, _, _, hwf, hd, hs, hv, h => by
      simp only [Stmt.wellFormed, Bool.and_eq_true] at hwf
      simp only [Stmt.declarations, List.append_subset] at hd
      have hi := hv.of_eq
        (a := analyzeExpr i (analyzeStmt body (analyzeExpr c a).enterLoop)) rfl rfl
      have hbody := (walked_expr i
        (analyzeStmt body (analyzeExpr c a).enterLoop).at_place).accepted hi
      have hc := (walked_stmt body (analyzeExpr c a).enterLoop.at_place).accepted hbody
      have hs' : (analyzeExpr c a).enterLoop.StandsIn _ := (walked_expr c a.at_place).standsIn hs
      exact (i.renamed hρ hwf.2 hd.2.2 hi (body.renamed hρ hwf.1.1.2 hd.2.1 hs' hbody
        (c.renamed hρ hwf.1.1.1 hd.1 (hc.of_eq rfl rfl) h).enterLoop)).leaveLoop
  | .break _, _, _, _, _, _, _, hv, h => by
      rw [analyzeStmt] at hv
      rw [Stmt.rename, analyzeStmt, analyzeStmt, h.loopDepth_eq]
      exact h.faultIf hv _ _ id
  | .continue _, _, _, _, _, _, _, hv, h => by
      rw [analyzeStmt] at hv
      rw [Stmt.rename, analyzeStmt, analyzeStmt, h.loopDepth_eq]
      exact h.faultIf hv _ _ id
  | .function f, a, _, site, hwf, hd, hs, hv, h => by
      rw [Stmt.declarations, List.cons_subset] at hd
      have hname : ρ.declare site f.name = f.name :=
        Renaming.declare_eq_self (hρ.spares _ hd.1 (.inl rfl))
      have hdefine := (walked_function f (Analysis.at_place _)).accepted hv
      have hdeclare := h.declare_define hs hdefine
      rw [hname] at hdeclare
      rw [Stmt.rename, analyzeStmt, analyzeStmt, FunctionDecl.name_rename]
      exact f.renamed hρ hwf hd.2 hv hdeclare
  | .return _ none, _, _, _, _, _, _, hv, h => by
      rw [analyzeStmt] at hv
      rw [Stmt.rename, analyzeStmt, analyzeStmt, h.inFunction_eq]
      exact h.faultIf hv _ _ id
  | .return _ (some e), a, _, _, hwf, hd, _, hv, h => by
      simp only [Stmt.wellFormed, Bool.and_eq_true] at hwf
      have hfault := (walked_expr e (Analysis.at_place _)).accepted hv
      rw [Stmt.rename, analyzeStmt, analyzeStmt, h.inFunction_eq]
      exact e.renamed hρ hwf.2 hd hv (h.faultIf hfault _ _ id)
  | .classDecl name superclass methods statics, a, _, site, hwf, hd, hs, hv, h => by
      simp only [Stmt.wellFormed, Bool.and_eq_true] at hwf
      simp only [Stmt.declarations, List.cons_subset, List.append_subset] at hd
      have hmethods : (analyzeFunctions methods ((analyzeFunctions statics
          (a.declareClass name superclass).enterStatics).enterMethods name)).Accepted vs :=
        hv.leaveClass
      have hstatics := ((walked_functions methods (Analysis.at_place _)).accepted hmethods).of_eq
        (a := analyzeFunctions statics (a.declareClass name superclass).enterStatics) rfl rfl
      have hclass := ((walked_functions statics (Analysis.at_place _)).accepted hstatics).of_eq
        (a := a.declareClass name superclass) rfl rfl
      have hdeclare := h.declareClass hs (hρ.spares _ hd.1 (.inr rfl)) hρ.finds hclass
      exact (functionsRenamed hρ methods hwf.1.2 hd.2.2 hmethods
        ((functionsRenamed hρ statics hwf.2 hd.2.1 hstatics
          hdeclare.enterStatics).enterMethods name)).leaveClass h

theorem stmtsRenamed (hρ : ρ.Respects ds vs) : ∀ (ss : List Stmt) {a a' : Analysis} {site : Site},
    stmtsWellFormed ss = true → stmtsDeclarations ss site ⊆ ds → a.StandsIn site →
    (analyzeStmts ss a).Accepted vs → a.Renamed ρ a' →
    (analyzeStmts ss a).Renamed ρ (analyzeStmts (stmtsRename ρ ss site) a')
  | [], _, _, _, _, _, _, _, h => h
  | s :: ss, a, _, _, hwf, hd, hs, hv, h => by
      simp only [stmtsWellFormed, Bool.and_eq_true] at hwf
      rw [stmtsDeclarations, List.append_subset] at hd
      have hfirst := (walked_stmts ss (analyzeStmt s a).at_place).accepted hv
      exact stmtsRenamed hρ ss hwf.2 hd.2 ((walked_stmt s a.at_place).standsIn hs) hv
        (s.renamed hρ hwf.1 hd.1 hs hfirst h)

theorem FunctionDecl.renamed (hρ : ρ.Respects ds vs) : ∀ (f : FunctionDecl) {a a' : Analysis},
    f.wellFormed = true → f.declarations ⊆ ds →
    (analyzeFunction f a).Accepted vs → a.Renamed ρ a' →
    (analyzeFunction f a).Renamed ρ (analyzeFunction (f.rename ρ) a')
  | .mk name params body, a, _, hwf, hd, hv, h => by
      simp only [FunctionDecl.wellFormed, Bool.and_eq_true] at hwf
      rw [FunctionDecl.declarations, List.append_subset] at hd
      have hbody := hv.leaveFunction
      have henter := (walked_stmts body (Analysis.at_place _)).accepted hbody
      exact (stmtsRenamed hρ body hwf.2 hd.2 (a.standsIn_enterFunction _ params) hbody
        (h.enterFunction henter)).leaveFunction h

theorem functionsRenamed (hρ : ρ.Respects ds vs) : ∀ (fs : List FunctionDecl) {a a' : Analysis},
    functionsWellFormed fs = true → functionsDeclarations fs ⊆ ds →
    (analyzeFunctions fs a).Accepted vs → a.Renamed ρ a' →
    (analyzeFunctions fs a).Renamed ρ (analyzeFunctions (functionsRename ρ fs) a')
  | [], _, _, _, _, _, h => h
  | f :: fs, a, _, hwf, hd, hv, h => by
      simp only [functionsWellFormed, Bool.and_eq_true] at hwf
      rw [functionsDeclarations, List.append_subset] at hd
      have hfirst := (walked_functions fs (analyzeFunction f a).at_place).accepted hv
      exact functionsRenamed hρ fs hwf.2 hd.2 hv (f.renamed hρ hwf.1 hd.1 hfirst h)

end

/-- **A renamed program has no fault and the same distances.** -/
theorem Program.renamed_analysis (hρ : ρ.Respects ds vs) {program : Program} {known : Distances}
    (hwf : program.wellFormed = true) (hd : program.declarations ⊆ ds)
    (hv : (Analysis.ofProgram program known).Accepted vs) :
    (Analysis.ofProgram program known).Renamed ρ
      (Analysis.ofProgram (program.rename ρ) known) :=
  stmtsRenamed hρ program hwf hd rfl hv ⟨.nil, rfl, rfl, fun _ => List.not_mem_nil⟩

end Walk

end LoxLang
