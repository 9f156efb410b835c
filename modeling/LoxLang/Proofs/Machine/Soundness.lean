import LoxLang.Proofs.Program.Occurrence
import LoxLang.Proofs.Store.Chain

/-!
# Sound stores

A store is sound if what it refers to is there and code was put into it only at the places
the code was made for.  Every frame is chained to the global one, and a class inherits only
from classes that are older.  Each closure that is a value sits in a frame whose chain has
exactly the constructs around its body, and all that occurs in the body obeys the rules
that are asked for.  A method is kept by its class until it is bound; a method that
initializes objects is a value only once it is bound, in a frame that holds `this`.

Which rules are asked for is left open: `R` says of what occurs, and where, that it may.

## Main definitions

* `Closure.Fits` — a closure belongs into a chain of frames.
* `Store.Callable`, `Store.IsMethod` — a closure that is a value, and one that is a method.
* `Value.Sound`, `Store.SoundIn`, `Store.Sound` — soundness.

## Main results

* `Store.Sound.define`, `Store.Sound.bind` and the like — what is done to a sound store
  leaves it sound.
-/

namespace LoxLang

/-- A closure belongs into a chain of frames with some constructs. -/
structure Closure.Fits (R : Occurrence → Prop) (sites : List Site) (closure : Closure) :
    Prop where
  /-- It comes from a function. -/
  site : ∃ k, closure.site = .function k
  /-- What occurs in its body obeys the rules. -/
  body : ∀ o ∈ stmtsOccurrences closure.body ⟨closure.site :: sites, some closure.site, 0⟩, R o

/-- A closure that can be called. -/
def Store.Callable (R : Occurrence → Prop) (g : FrameId) (s : Store) (c : ClosureId) : Prop :=
  ∃ closure sites, s.closures[c]? = some closure ∧ s.Chained g closure.frame sites
    ∧ closure.Fits R sites
    ∧ (closure.isInitializer → ∃ k rest, sites = .receiver k :: rest)

/-- A closure that is the method of a class. -/
def Store.IsMethod (R : Occurrence → Prop) (g : FrameId) (s : Store) (c : ClosureId) : Prop :=
  ∃ closure sites k, s.closures[c]? = some closure ∧ s.Chained g closure.frame sites
    ∧ closure.home = .receiver k ∧ closure.Fits R (.receiver k :: sites)

/-- A value that refers to what is there and can be used. -/
def Value.Sound (R : Occurrence → Prop) (g : FrameId) (s : Store) : Value → Prop
  | .closure c => s.Callable R g c
  | .native n => ∃ native, s.natives[n]? = some native
  | .classRef k => ∃ c, s.classes[k]? = some c
  | .object o => ∃ x, s.objects[o]? = some x
  | _ => True

/-- All that one store holds is sound in another. -/
structure Store.SoundIn (R : Occurrence → Prop) (g : FrameId) (s t : Store) : Prop where
  /-- Frames are chained to the global one. -/
  frames : ∀ {f : FrameId} {fr : Frame}, s.frames[f]? = some fr → ∃ sites, t.Chained g f sites
  /-- The values of names. -/
  slots : ∀ {f : FrameId} {fr : Frame} {name : String} {v : Value}, s.frames[f]? = some fr →
    fr.slots.find? name = some (some v) → v.Sound R g t
  /-- Frames around methods hold `this`. -/
  receivers : ∀ {f : FrameId} {fr : Frame} {k : Nat}, s.frames[f]? = some fr →
    fr.site = .receiver k → ∃ v, fr.slots.find? "this" = some (some v)
  /-- The values that native functions give. -/
  natives : ∀ {n : NativeId} {native : Native} {v : Value}, s.natives[n]? = some native →
    native.action = .constant v → v.Sound R g t
  /-- Classes inherit from older ones. -/
  superclasses : ∀ {k k' : ClassId} {c : ClassObject}, s.classes[k]? = some c →
    c.superclass = some k' → k' < k
  /-- The methods of classes. -/
  methods : ∀ {k : ClassId} {c : ClassObject} {name : String} {method : ClosureId},
    s.classes[k]? = some c → c.methods.find? name = some method → t.IsMethod R g method
  /-- The values of classes. -/
  statics : ∀ {k : ClassId} {c : ClassObject} {name : String} {v : Value},
    s.classes[k]? = some c → c.statics.find? name = some v → v.Sound R g t
  /-- The classes of objects. -/
  instances : ∀ {o : ObjectId} {x : Instance}, s.objects[o]? = some x →
    ∃ c, t.classes[x.classId]? = some c
  /-- The values of objects. -/
  fields : ∀ {o : ObjectId} {x : Instance} {name : String} {v : Value},
    s.objects[o]? = some x → x.fields.find? name = some v → v.Sound R g t

/-- A store all of whose values are sound. -/
abbrev Store.Sound (R : Occurrence → Prop) (g : FrameId) (s : Store) : Prop := s.SoundIn R g s

variable {R R' : Occurrence → Prop} {g : FrameId} {s s' t : Store}

/-! ### Soundness in a store that grows, and under weaker rules -/

theorem Store.Callable.mono {c : ClosureId} (h : s.Callable R g c) (he : s.Extends s') :
    s'.Callable R g c := by
  obtain ⟨closure, sites, hc, hchain, hfits, hinit⟩ := h
  exact ⟨closure, sites, he.closures hc, hchain.mono he, hfits, hinit⟩

theorem Store.IsMethod.mono {c : ClosureId} (h : s.IsMethod R g c) (he : s.Extends s') :
    s'.IsMethod R g c := by
  obtain ⟨closure, sites, k, hc, hchain, hhome, hfits⟩ := h
  exact ⟨closure, sites, k, he.closures hc, hchain.mono he, hhome, hfits⟩

theorem Value.Sound.mono {v : Value} (h : v.Sound R g s) (he : s.Extends s') :
    v.Sound R g s' := by
  cases v with
  | closure c => exact Store.Callable.mono h he
  | native n =>
    obtain ⟨native, hn⟩ := h
    exact ⟨native, he.natives hn⟩
  | classRef k =>
    obtain ⟨c, hc⟩ := h
    obtain ⟨c', hc', -⟩ := he.classes hc
    exact ⟨c', hc'⟩
  | object o =>
    obtain ⟨x, hx⟩ := h
    obtain ⟨x', hx', -⟩ := he.objects hx
    exact ⟨x', hx'⟩
  | nil | bool | number | text => trivial

theorem Closure.Fits.imp {sites : List Site} {closure : Closure} (h : closure.Fits R sites)
    (himp : ∀ o, R o → R' o) : closure.Fits R' sites :=
  ⟨h.site, fun o ho => himp o (h.body o ho)⟩

theorem Value.Sound.imp {v : Value} (h : v.Sound R g s) (himp : ∀ o, R o → R' o) :
    v.Sound R' g s := by
  cases v with
  | closure c =>
    obtain ⟨closure, sites, hc, hchain, hfits, hinit⟩ := h
    exact ⟨closure, sites, hc, hchain, hfits.imp himp, hinit⟩
  | native | classRef | object => exact h
  | nil | bool | number | text => trivial

/-- What is sound in a store remains so while that store grows. -/
theorem Store.SoundIn.mono (h : s.SoundIn R g t) (he : t.Extends s') : s.SoundIn R g s' where
  frames hf := by
    obtain ⟨sites, hchain⟩ := h.frames hf
    exact ⟨sites, hchain.mono he⟩
  slots hf hv := (h.slots hf hv).mono he
  receivers := h.receivers
  natives hn hv := (h.natives hn hv).mono he
  superclasses := h.superclasses
  methods hk hm := (h.methods hk hm).mono he
  statics hk hv := (h.statics hk hv).mono he
  instances ho := by
    obtain ⟨c, hc⟩ := h.instances ho
    obtain ⟨c', hc', -⟩ := he.classes hc
    exact ⟨c', hc'⟩
  fields ho hv := (h.fields ho hv).mono he

/-- A store is sound under weaker rules, too. -/
theorem Store.Sound.imp (h : s.Sound R g) (himp : ∀ o, R o → R' o) : s.Sound R' g where
  frames := h.frames
  slots hf hv := (h.slots hf hv).imp himp
  receivers := h.receivers
  natives hn hv := (h.natives hn hv).imp himp
  superclasses := h.superclasses
  methods hk hm := by
    obtain ⟨closure, sites, k, hc, hchain, hhome, hfits⟩ := h.methods hk hm
    exact ⟨closure, sites, k, hc, hchain, hhome, hfits.imp himp⟩
  statics hk hv := (h.statics hk hv).imp himp
  instances := h.instances
  fields ho hv := (h.fields ho hv).imp himp

/-! ### What a sound store holds -/

namespace Store.Sound

/-- What a name is bound to is sound. -/
theorem slot? (h : s.Sound R g) {f : FrameId} {name : String} {v : Value}
    (hv : s.slot? f name = some (some v)) : v.Sound R g s := by
  unfold Store.slot? at hv
  cases hf : s.frames[f]? with
  | none => simp [hf] at hv
  | some fr => exact h.slots hf (by simpa [hf] using hv)

/-- The frame around a bound method holds `this`. -/
theorem this_of_chained (h : s.Sound R g) {f : FrameId} {k : Nat} {rest : List Site}
    (hf : s.Chained g f (.receiver k :: rest)) : ∃ v, s.slot? f "this" = some (some v) := by
  obtain ⟨fr, hfr, hsite⟩ := Option.map_eq_some_iff.mp hf.site?_eq
  obtain ⟨v, hv⟩ := h.receivers hfr hsite
  exact ⟨v, by simp [Store.slot?, hfr, hv]⟩

/-- A method that a class has, itself or by inheritance, is a method. -/
theorem method? (h : s.Sound R g) {k : ClassId} {name : String} {c : ClosureId}
    (hc : s.method? k name = some c) : s.IsMethod R g c := by
  obtain ⟨k', -, hk'⟩ := List.exists_of_findSome?_eq_some hc
  cases hclass : s.classes[k']? with
  | none => simp [hclass] at hk'
  | some object => exact h.methods hclass (by simpa [hclass] using hk')

/-- A value that a class has, itself or by inheritance, is sound. -/
theorem static? (h : s.Sound R g) {k : ClassId} {name : String} {v : Value}
    (hv : s.static? k name = some v) : v.Sound R g s := by
  obtain ⟨k', -, hk'⟩ := List.exists_of_findSome?_eq_some hv
  cases hclass : s.classes[k']? with
  | none => simp [hclass] at hk'
  | some object => exact h.statics hclass (by simpa [hclass] using hk')

/-- A value that an object has itself is sound. -/
theorem field? (h : s.Sound R g) {o : ObjectId} {name : String} {v : Value}
    (hv : s.field? o name = some v) : v.Sound R g s := by
  unfold Store.field? at hv
  cases ho : s.objects[o]? with
  | none => simp [ho] at hv
  | some x => exact h.fields ho (by simpa [ho] using hv)

/-! ### What is done to a store

An operation adds to or changes one part of the store.  The other parts are as sound as
they were, in the store that has grown. -/

/-- The store without anything in it. -/
theorem empty (R : Occurrence → Prop) (g : FrameId) : Store.Sound R g {} where
  frames hf := by simp at hf
  slots hf := by simp at hf
  receivers hf := by simp at hf
  natives hn := by simp at hn
  superclasses hk := by simp at hk
  methods hk := by simp at hk
  statics hk := by simp at hk
  instances ho := by simp at ho
  fields ho := by simp at ho

/-- A new frame in a chain, whose names have sound values. -/
theorem pushFrame (h : s.Sound R g) {fr : Frame} {sites : List Site}
    (hchain : Chained { s with frames := s.frames.push fr } g s.frames.size sites)
    (hslots : ∀ {name : String} {v : Value}, fr.slots.find? name = some (some v) →
      v.Sound R g s)
    (hthis : ∀ {k : Nat}, fr.site = .receiver k → ∃ v, fr.slots.find? "this" = some (some v)) :
    Store.Sound R g { s with frames := s.frames.push fr } := by
  have he := extends_pushFrame s fr
  refine { h.mono he with
    frames := fun {f fr'} hf => ?_
    slots := fun {f fr' name v} hf hv => ?_
    receivers := fun {f fr' k} hf hsite => ?_ }
  · rw [Array.getElem?_push] at hf
    split at hf
    · next heq => exact ⟨sites, heq ▸ hchain⟩
    · obtain ⟨sites', hchain'⟩ := h.frames hf
      exact ⟨sites', hchain'.mono he⟩
  · rw [Array.getElem?_push] at hf
    split at hf
    · cases hf
      exact (hslots hv).mono he
    · exact (h.slots hf hv).mono he
  · rw [Array.getElem?_push] at hf
    split at hf
    · cases hf
      exact hthis hsite
    · exact h.receivers hf hsite

/-- A new frame within another that is not around methods. -/
theorem newFrame (h : s.Sound R g) {site : Site} (hsite : ∀ k, site ≠ .receiver k)
    {p : FrameId} {sites : List Site} (hp : s.Chained g p sites) :
    (s.newFrame site (some p)).2.Sound R g :=
  h.pushFrame (hp.newFrame site) (fun hv => by simp at hv) fun hk => absurd hk (hsite _)

/-- A name may be bound to a sound value anywhere, and left without a value in a frame that
is not around methods. -/
theorem define (h : s.Sound R g) {f : FrameId} {name : String} {slot : Slot}
    (hslot : ∀ v, slot = some v → v.Sound R g s)
    (hsite : slot = none → ∀ k, s.site? f ≠ some (.receiver k)) :
    (s.define f name slot).Sound R g := by
  have he := extends_define s f name slot
  have hframe : ∀ {f' : FrameId} {fr' : Frame}, (s.define f name slot).frames[f']? = some fr' →
      s.frames[f']? = some fr'
        ∨ ∃ fr, f = f' ∧ s.frames[f]? = some fr
          ∧ fr' = { fr with slots := fr.slots.insert name slot } := by
    intro f' fr' hf'
    simp only [Store.define, Array.getElem?_modify] at hf'
    split at hf'
    · next heq =>
      subst heq
      obtain ⟨fr, hfr, rfl⟩ := Option.map_eq_some_iff.mp hf'
      exact .inr ⟨fr, rfl, hfr, rfl⟩
    · exact .inl hf'
  refine { h.mono he with
    frames := fun {f' fr'} hf => ?_
    slots := fun {f' fr' name' v} hf hv => ?_
    receivers := fun {f' fr' k} hf hk => ?_ }
  · rcases hframe hf with hf | ⟨fr, rfl, hfr, -⟩
    · obtain ⟨sites, hchain⟩ := h.frames hf
      exact ⟨sites, hchain.mono he⟩
    · obtain ⟨sites, hchain⟩ := h.frames hfr
      exact ⟨sites, hchain.mono he⟩
  · rcases hframe hf with hf | ⟨fr, -, hfr, rfl⟩
    · exact (h.slots hf hv).mono he
    · rw [Table.find?_insert] at hv
      split at hv
      · exact (hslot v (Option.some.inj hv)).mono he
      · exact (h.slots hfr hv).mono he
  · rcases hframe hf with hf | ⟨fr, -, hfr, rfl⟩
    · exact h.receivers hf hk
    · obtain ⟨v, hv⟩ := h.receivers hfr hk
      rw [Table.find?_insert]
      split
      · -- `this` itself is bound anew, so it must get a value
        cases slot with
        | none => exact absurd (by simp [Store.site?, hfr]; exact hk) (hsite rfl k)
        | some w => exact ⟨w, rfl⟩
      · exact ⟨v, hv⟩

/-- A new closure changes nothing until something refers to it. -/
theorem newClosure (h : s.Sound R g) (c : Closure) : (s.newClosure c).2.Sound R g :=
  { h.mono (extends_newClosure s c) with }

/-- A new native function that gives no value of its own. -/
theorem newNative (h : s.Sound R g) {native : Native}
    (haction : ∀ v, native.action ≠ .constant v) : (s.newNative native).2.Sound R g := by
  have he := extends_newNative s native
  refine { h.mono he with natives := fun {n native' v} hn hv => ?_ }
  simp only [Store.newNative, Array.getElem?_push] at hn
  split at hn
  · cases hn
    exact absurd hv (haction v)
  · exact (h.natives hn hv).mono he

/-- A new class that inherits from one that is there, with methods and sound values. -/
theorem newClass (h : s.Sound R g) {c : ClassObject}
    (hsuper : ∀ {k : ClassId}, c.superclass = some k → ∃ c', s.classes[k]? = some c')
    (hmethods : ∀ {name : String} {method : ClosureId}, c.methods.find? name = some method →
      s.IsMethod R g method)
    (hstatics : ∀ {name : String} {v : Value}, c.statics.find? name = some v → v.Sound R g s) :
    (s.newClass c).2.Sound R g := by
  have he := extends_newClass s c
  refine { h.mono he with
    superclasses := fun {k k' c'} hk hk' => ?_
    methods := fun {k c' name method} hk hm => ?_
    statics := fun {k c' name v} hk hv => ?_ }
  · simp only [Store.newClass, Array.getElem?_push] at hk
    split at hk
    · next heq =>
      cases hk
      obtain ⟨c', hc'⟩ := hsuper hk'
      exact heq ▸ (Array.getElem?_eq_some_iff.mp hc').1
    · exact h.superclasses hk hk'
  · simp only [Store.newClass, Array.getElem?_push] at hk
    split at hk
    · cases hk
      exact (hmethods hm).mono he
    · exact (h.methods hk hm).mono he
  · simp only [Store.newClass, Array.getElem?_push] at hk
    split at hk
    · cases hk
      exact (hstatics hv).mono he
    · exact (h.statics hk hv).mono he

/-- A new object of a class has no values. -/
theorem newObject (h : s.Sound R g) {k : ClassId} {c : ClassObject}
    (hk : s.classes[k]? = some c) : (s.newObject k).2.Sound R g := by
  have he := extends_newObject s k
  refine { h.mono he with
    instances := fun {o x} ho => ?_
    fields := fun {o x name v} ho hv => ?_ }
  · simp only [Store.newObject, Array.getElem?_push] at ho
    split at ho
    · cases ho
      exact ⟨c, hk⟩
    · exact h.instances ho
  · simp only [Store.newObject, Array.getElem?_push] at ho
    split at ho
    · cases ho
      simp at hv
    · exact (h.fields ho hv).mono he

/-- A class may be given a sound value. -/
theorem setStatic (h : s.Sound R g) {v : Value} (hv : v.Sound R g s) (k : ClassId)
    (name : String) : (s.setStatic k name v).Sound R g := by
  have he := extends_setStatic s k name v
  have hclass : ∀ {k' : ClassId} {c' : ClassObject},
      (s.setStatic k name v).classes[k']? = some c' →
      ∃ c, s.classes[k']? = some c ∧ c'.superclass = c.superclass ∧ c'.methods = c.methods
        ∧ (c'.statics = c.statics ∨ c'.statics = c.statics.insert name v) := by
    intro k' c' hk'
    simp only [Store.setStatic, Array.getElem?_modify] at hk'
    split at hk'
    · obtain ⟨c, hc, rfl⟩ := Option.map_eq_some_iff.mp hk'
      exact ⟨c, hc, rfl, rfl, .inr rfl⟩
    · exact ⟨c', hk', rfl, rfl, .inl rfl⟩
  refine { h.mono he with
    superclasses := fun {k' k'' c'} hk hk'' => ?_
    methods := fun {k' c' name' method} hk hm => ?_
    statics := fun {k' c' name' w} hk hw => ?_ }
  · obtain ⟨c, hc, hsuper, -⟩ := hclass hk
    exact h.superclasses hc (hsuper ▸ hk'')
  · obtain ⟨c, hc, -, hmethods, -⟩ := hclass hk
    exact (h.methods hc (hmethods ▸ hm)).mono he
  · obtain ⟨c, hc, -, -, hstatics | hstatics⟩ := hclass hk
    · exact (h.statics hc (hstatics ▸ hw)).mono he
    · rw [hstatics, Table.find?_insert] at hw
      split at hw
      · cases hw
        exact hv.mono he
      · exact (h.statics hc hw).mono he

/-- An object may be given a sound value. -/
theorem setField (h : s.Sound R g) {v : Value} (hv : v.Sound R g s) (o : ObjectId)
    (name : String) : (s.setField o name v).Sound R g := by
  have he := extends_setField s o name v
  refine { h.mono he with
    instances := fun {o' x'} ho => ?_
    fields := fun {o' x' name' w} ho hw => ?_ }
  · simp only [Store.setField, Array.getElem?_modify] at ho
    split at ho
    · obtain ⟨x, hx, rfl⟩ := Option.map_eq_some_iff.mp ho
      obtain ⟨c, hc⟩ := h.instances hx
      exact ⟨c, hc⟩
    · exact h.instances ho
  · simp only [Store.setField, Array.getElem?_modify] at ho
    split at ho
    · obtain ⟨x, hx, rfl⟩ := Option.map_eq_some_iff.mp ho
      rw [Table.find?_insert] at hw
      split at hw
      · cases hw
        exact hv.mono he
      · exact (h.fields hx hw).mono he
    · exact (h.fields ho hw).mono he

end Store.Sound

/-- Binding a method makes a frame that holds `this` and a closure in that frame. -/
theorem Store.bind_eq (s : Store) (c : Closure) (receiver : Value) :
    s.bind c receiver
      = Store.newClosure
          { s with
            frames := s.frames.push
              ⟨c.home, some c.frame, Table.empty.insert "this" (some receiver)⟩ }
          { c with frame := s.frames.size } := by
  have hframes : (s.frames.push ⟨c.home, some c.frame, .empty⟩).modify s.frames.size
      (fun fr => { fr with slots := fr.slots.insert "this" (some receiver) })
      = s.frames.push ⟨c.home, some c.frame, Table.empty.insert "this" (some receiver)⟩ := by
    refine Array.ext_getElem? fun i => ?_
    rw [Array.getElem?_modify, Array.getElem?_push, Array.getElem?_push]
    by_cases hi : s.frames.size = i
    · simp [hi]
    · simp [hi, Ne.symm hi]
  simp only [Store.bind, Store.newFrame, Store.define, hframes]

/-- A bound method can be called. -/
theorem Store.Sound.bind (h : s.Sound R g) {c : ClosureId} {closure : Closure}
    (hc : s.IsMethod R g c) (hclosure : s.closures[c]? = some closure) {receiver : Value}
    (hreceiver : receiver.Sound R g s) :
    (s.bind closure receiver).2.Sound R g
      ∧ (s.bind closure receiver).2.Callable R g (s.bind closure receiver).1 := by
  obtain ⟨closure', sites, k, hclosure', hchain, hhome, hfits⟩ := hc
  cases hclosure.symm.trans hclosure'
  rw [Store.bind_eq]
  -- the frame for the receiver, whose chain is that of the method within a class
  let frame : Frame := ⟨closure.home, some closure.frame, Table.empty.insert "this" (some receiver)⟩
  let s' : Store := { s with frames := s.frames.push frame }
  have hframe : s'.frames[s.frames.size]? = some frame := Array.getElem?_push_size
  have hframes : s'.Chained g s.frames.size (.receiver k :: sites) := by
    rw [← hhome]
    exact .link hframe rfl hchain.lt_size (hchain.mono (Store.extends_pushFrame s frame))
  refine ⟨(h.pushFrame hframes ?_ ?_).newClosure _, ?_⟩
  · intro name v hv
    rw [Table.find?_insert] at hv
    split at hv
    · cases hv
      exact hreceiver
    · simp at hv
  · intro k' _
    exact ⟨receiver, Table.find?_insert_self _ _ _⟩
  · exact ⟨{ closure with frame := s.frames.size }, .receiver k :: sites,
      Array.getElem?_push_size, hframes.mono (Store.extends_newClosure s' _),
      ⟨hfits.site, hfits.body⟩, fun _ => ⟨k, sites, rfl⟩⟩

end LoxLang
