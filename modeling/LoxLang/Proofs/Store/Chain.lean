import LoxLang.Store.Object

/-!
# Chains of frames in a store that grows

Nothing is ever removed from the store, and what is in it changes in its names and values
only: a frame remains the activation of the same construct and stays within the same
frame, closures and native functions remain what they are, a class keeps its superclass
and its methods, and an object its class.

A frame is chained to the global frame if the way out from it leads there.  The chain is
described by the constructs of its frames, and the description does not change while the
store grows.

## Main definitions

* `Store.site?` — the construct whose activation a frame is.
* `Store.Extends` — how the store grows.
* `Store.Chained` — the frames from one frame out to another are activations of some
  constructs.

## Main results

* `Store.extends_define`, `Store.extends_bind` and the like — all that is done to a store
  lets it grow.
* `Store.Chained.map_site?_chain` — the chain of a frame has the constructs it should have.
* `Store.Chained.ancestor?_eq_some` — there are as many frames around as constructs.
-/

namespace LoxLang

namespace Store

/-- The construct whose activation a frame is. -/
def site? (s : Store) (f : FrameId) : Option Site := s.frames[f]?.map Frame.site

/-! ### Growing -/

/-- One store has grown out of another. -/
structure Extends (s s' : Store) : Prop where
  /-- A frame keeps its construct and the frame around it. -/
  frames : ∀ {f : FrameId} {fr : Frame}, s.frames[f]? = some fr →
    ∃ fr' : Frame, s'.frames[f]? = some fr' ∧ fr'.site = fr.site ∧ fr'.parent = fr.parent
  /-- Closures remain what they are. -/
  closures : ∀ {c : ClosureId} {closure : Closure}, s.closures[c]? = some closure →
    s'.closures[c]? = some closure
  /-- Native functions remain what they are. -/
  natives : ∀ {n : NativeId} {native : Native}, s.natives[n]? = some native →
    s'.natives[n]? = some native
  /-- A class keeps its superclass and its methods. -/
  classes : ∀ {k : ClassId} {c : ClassObject}, s.classes[k]? = some c →
    ∃ c' : ClassObject, s'.classes[k]? = some c' ∧ c'.superclass = c.superclass
      ∧ c'.methods = c.methods
  /-- An object keeps its class. -/
  objects : ∀ {o : ObjectId} {x : Instance}, s.objects[o]? = some x →
    ∃ x' : Instance, s'.objects[o]? = some x' ∧ x'.classId = x.classId

namespace Extends

theorem refl (s : Store) : s.Extends s where
  frames h := ⟨_, h, rfl, rfl⟩
  closures h := h
  natives h := h
  classes h := ⟨_, h, rfl, rfl⟩
  objects h := ⟨_, h, rfl⟩

theorem trans {s s' s'' : Store} (h : s.Extends s') (h' : s'.Extends s'') : s.Extends s'' where
  frames hf := by
    obtain ⟨fr', hf', hsite, hparent⟩ := h.frames hf
    obtain ⟨fr'', hf'', hsite', hparent'⟩ := h'.frames hf'
    exact ⟨fr'', hf'', hsite'.trans hsite, hparent'.trans hparent⟩
  closures hc := h'.closures (h.closures hc)
  natives hn := h'.natives (h.natives hn)
  classes hk := by
    obtain ⟨c', hk', hsuper, hmethods⟩ := h.classes hk
    obtain ⟨c'', hk'', hsuper', hmethods'⟩ := h'.classes hk'
    exact ⟨c'', hk'', hsuper'.trans hsuper, hmethods'.trans hmethods⟩
  objects ho := by
    obtain ⟨x', ho', hclass⟩ := h.objects ho
    obtain ⟨x'', ho'', hclass'⟩ := h'.objects ho'
    exact ⟨x'', ho'', hclass'.trans hclass⟩

end Extends

/-- What is in an array stays where it is when something is put at the end. -/
private theorem getElem?_push_of_eq_some {α : Type} {xs : Array α} {i : Nat} {x y : α}
    (h : xs[i]? = some x) : (xs.push y)[i]? = some x := by
  obtain ⟨hi, rfl⟩ := Array.getElem?_eq_some_iff.mp h
  rw [Array.getElem?_push_lt hi]

theorem extends_pushFrame (s : Store) (fr : Frame) :
    s.Extends { s with frames := s.frames.push fr } :=
  { Extends.refl s with frames := fun h => ⟨_, getElem?_push_of_eq_some h, rfl, rfl⟩ }

theorem extends_newFrame (s : Store) (site : Site) (parent : Option FrameId) :
    s.Extends (s.newFrame site parent).2 := extends_pushFrame s _

theorem extends_define (s : Store) (f : FrameId) (name : String) (slot : Slot) :
    s.Extends (s.define f name slot) :=
  { Extends.refl s with
    frames := fun {g fr} h => by
      by_cases hg : f = g
      · exact ⟨{ fr with slots := fr.slots.insert name slot },
          by simp [define, Array.getElem?_modify, hg, h], rfl, rfl⟩
      · exact ⟨fr, by simp [define, Array.getElem?_modify, hg, h], rfl, rfl⟩ }

theorem extends_newClosure (s : Store) (c : Closure) : s.Extends (s.newClosure c).2 :=
  { Extends.refl s with closures := getElem?_push_of_eq_some }

theorem extends_newNative (s : Store) (n : Native) : s.Extends (s.newNative n).2 :=
  { Extends.refl s with natives := getElem?_push_of_eq_some }

theorem extends_newClass (s : Store) (k : ClassObject) : s.Extends (s.newClass k).2 :=
  { Extends.refl s with classes := fun h => ⟨_, getElem?_push_of_eq_some h, rfl, rfl⟩ }

theorem extends_newObject (s : Store) (k : ClassId) : s.Extends (s.newObject k).2 :=
  { Extends.refl s with objects := fun h => ⟨_, getElem?_push_of_eq_some h, rfl⟩ }

theorem extends_bind (s : Store) (c : Closure) (receiver : Value) :
    s.Extends (s.bind c receiver).2 :=
  ((extends_newFrame s c.home (some c.frame)).trans (extends_define _ _ _ _)).trans
    (extends_newClosure _ _)

theorem extends_setStatic (s : Store) (k : ClassId) (name : String) (v : Value) :
    s.Extends (s.setStatic k name v) :=
  { Extends.refl s with
    classes := fun {k' c} h => by
      by_cases hk : k = k'
      · exact ⟨{ c with statics := c.statics.insert name v },
          by simp [setStatic, Array.getElem?_modify, hk, h], rfl, rfl⟩
      · exact ⟨c, by simp [setStatic, Array.getElem?_modify, hk, h], rfl, rfl⟩ }

theorem extends_setField (s : Store) (o : ObjectId) (name : String) (v : Value) :
    s.Extends (s.setField o name v) :=
  { Extends.refl s with
    objects := fun {o' x} h => by
      by_cases ho : o = o'
      · exact ⟨{ x with fields := x.fields.insert name v },
          by simp [setField, Array.getElem?_modify, ho, h], rfl⟩
      · exact ⟨x, by simp [setField, Array.getElem?_modify, ho, h], rfl⟩ }

/-! ### Chains -/

/-- The frames from a frame out to the frame `g`, which is in no other, are activations of
some constructs, innermost first. -/
inductive Chained (s : Store) (g : FrameId) : FrameId → List Site → Prop
  /-- The outermost frame. -/
  | root {fr : Frame} (h : s.frames[g]? = some fr) (hp : fr.parent = none) :
      Chained s g g [fr.site]
  /-- A frame within another, which was made before it. -/
  | link {f p : FrameId} {fr : Frame} {sites : List Site} (h : s.frames[f]? = some fr)
      (hp : fr.parent = some p) (hlt : p < f) (hrest : Chained s g p sites) :
      Chained s g f (fr.site :: sites)

namespace Chained

variable {s s' : Store} {g f : FrameId} {sites : List Site}

/-- A chain of one frame is that of the outermost. -/
theorem eq_root {site : Site} (h : s.Chained g f [site]) : f = g := by
  cases h with
  | root => rfl
  | link _ _ _ hrest => cases hrest

/-- A chain remains what it is while the store grows. -/
theorem mono (h : s.Chained g f sites) (he : s.Extends s') : s'.Chained g f sites := by
  induction h with
  | root h hp =>
    obtain ⟨fr', hf', hsite, hparent⟩ := he.frames h
    rw [← hsite]
    exact .root hf' (hparent.trans hp)
  | link h hp hlt _ ih =>
    obtain ⟨fr', hf', hsite, hparent⟩ := he.frames h
    rw [← hsite]
    exact .link hf' (hparent.trans hp) hlt ih

/-- A chain begins with a frame. -/
theorem lt_size (h : s.Chained g f sites) : f < s.frames.size := by
  cases h with
  | root h _ => exact (Array.getElem?_eq_some_iff.mp h).1
  | link h _ _ _ => exact (Array.getElem?_eq_some_iff.mp h).1

/-- A chain has at least one construct. -/
theorem exists_eq_cons (h : s.Chained g f sites) : ∃ site rest, sites = site :: rest := by
  cases h with
  | root _ _ => exact ⟨_, _, rfl⟩
  | link _ _ _ _ => exact ⟨_, _, rfl⟩

/-- A chain begins with an activation of its first construct. -/
theorem site?_eq {site : Site} (h : s.Chained g f (site :: sites)) : s.site? f = some site := by
  generalize hall : site :: sites = all at h
  cases h with
  | root h _ =>
    cases hall
    simp [site?, h]
  | link h _ _ _ =>
    cases hall
    simp [site?, h]

/-- A new frame within a frame lengthens its chain. -/
theorem newFrame (h : s.Chained g f sites) (site : Site) :
    (s.newFrame site (some f)).2.Chained g (s.newFrame site (some f)).1 (site :: sites) := by
  have hnew : (s.newFrame site (some f)).2.frames[s.frames.size]? = some ⟨site, some f, .empty⟩ :=
    Array.getElem?_push_size
  exact .link hnew rfl h.lt_size (h.mono (extends_newFrame s site (some f)))

theorem map_site?_chainFrom (h : s.Chained g f sites) {n : Nat} (hn : f ≤ n) :
    (s.chainFrom n f).map s.site? = sites.map some
      ∧ (s.chainFrom n f).getLast? = some g := by
  induction h generalizing n with
  | root h hp => cases n <;> simp [chainFrom, parent?, h, hp, site?]
  | @link f p fr sites h hp hlt hrest ih =>
    cases n with
    | zero => exact absurd (Nat.lt_of_lt_of_le hlt hn) (Nat.not_lt_zero p)
    | succ n =>
      obtain ⟨hsites, hlast⟩ := ih (Nat.le_of_lt_succ (Nat.lt_of_lt_of_le hlt hn))
      have hparent : s.parent? f = some p := by simp [parent?, h, hp]
      have hsite : s.site? f = some fr.site := by simp [site?, h]
      rw [chainFrom, hparent]
      rw [List.map_cons, hsites, hsite, List.getLast?_cons, hlast]
      exact ⟨rfl, rfl⟩

/-- The frames of a chain are activations of its constructs. -/
theorem map_site?_chain (h : s.Chained g f sites) :
    (s.chain f).map s.site? = sites.map some :=
  (h.map_site?_chainFrom (Nat.le_of_lt h.lt_size)).1

/-- A chain ends with the outermost frame. -/
theorem getLast?_chain (h : s.Chained g f sites) : (s.chain f).getLast? = some g :=
  (h.map_site?_chainFrom (Nat.le_of_lt h.lt_size)).2

/-- A frame of a chain is found by counting. -/
theorem ancestor?_eq_some (h : s.Chained g f sites) {d : Nat} (hd : d < sites.length) :
    ∃ f', s.ancestor? f d = some f' ∧ s.site? f' = sites[d]? := by
  induction h generalizing d with
  | @root fr h hp =>
    have hzero : d = 0 := by simpa using hd
    subst hzero
    exact ⟨g, rfl, by simp [site?, h]⟩
  | @link f p fr sites h hp hlt hrest ih =>
    cases d with
    | zero => exact ⟨f, rfl, by simp [site?, h]⟩
    | succ d =>
      obtain ⟨f', hf', hsite⟩ := ih (d := d) (by simpa using hd)
      refine ⟨f', ?_, by simpa using hsite⟩
      simp [ancestor?, parent?, h, hp, hf']

end Chained

end Store

end LoxLang
