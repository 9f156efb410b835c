import LoxLang.Proofs.Machine.Stepping
import LoxLang.Proofs.Store.Lineage

/-!
# Receivers

A method is bound to an object by a frame of its own that holds the object as `this`.  As no
text declares or assigns `this`, what such a frame holds never changes, wherever the bound
method goes.  A call of the method is run in a frame within the one that holds the object.

## Main definitions

* `Store.BoundTo` — a closure is a method that is bound to an object.
* `Store.Activates` — a frame is that of a call of a closure.
* `Store.Receptive` — frames around methods hold an object, and the frames of calls belong to
  closures.
* `Machine.Dispatches` — how methods are bound, called and given back.

## Main results

* `Store.Steps.slot?_this` — what a frame holds as `this` does not change.
* `Store.Receptive.dispatches` — what holds of calls in receptive stores.
-/

namespace LoxLang

/-- Code that neither declares nor uses a name that is written like `this`.  Nothing is asked of
the order in which names are used. -/
def sparesThis : Discipline where
  names x := x ≠ "this"
  distances := .empty
  loose _ := True

namespace Store

/-- A closure is a method that is bound to an object: it is in a frame around methods that holds
the object as `this`. -/
def BoundTo (s : Store) (c : ClosureId) (o : ObjectId) : Prop :=
  ∃ closure k, s.closures[c]? = some closure ∧ s.site? closure.frame = some (.receiver k)
    ∧ s.slot? closure.frame "this" = some (some (.object o))

/-- A frame is that of a call of a closure: it is an activation of the same function, within the
frame of the closure. -/
def Activates (s : Store) (g : FrameId) (c : ClosureId) : Prop :=
  ∃ closure, s.closures[c]? = some closure ∧ s.site? g = some closure.site
    ∧ s.parent? g = some closure.frame

/-- Frames around methods hold an object, and the frames of functions are those of calls.  The
code of closures leaves `this` alone. -/
structure Receptive (s : Store) : Prop where
  /-- The code leaves `this` alone. -/
  coded : s.Coded sparesThis
  /-- Frames around methods hold an object. -/
  receivers : ∀ {f : FrameId} {k : Nat}, s.site? f = some (.receiver k) →
    ∃ o, s.slot? f "this" = some (some (.object o))
  /-- The frames of functions are those of calls. -/
  activations : ∀ {f : FrameId} {j : Nat}, s.site? f = some (.function j) →
    ∃ c, s.Activates f c

variable {s s' : Store} {c : ClosureId} {o : ObjectId} {f g : FrameId}

theorem lt_size_of_site? {site : Site} (h : s.site? f = some site) : f < s.frames.size := by
  obtain ⟨fr, hfr, -⟩ := Option.map_eq_some_iff.mp h
  exact (Array.getElem?_eq_some_iff.mp hfr).1

/-- The frame of a call stays that. -/
theorem Activates.mono (h : s.Activates g c) (he : s.Extends s') : s'.Activates g c := by
  obtain ⟨closure, hc, hsite, hparent⟩ := h
  exact ⟨closure, he.closures hc, he.site?_eq hsite, he.parent?_eq hparent⟩

/-! ### One step -/

/-- A frame behind those that are there. -/
theorem site?_pushFrame (s : Store) (fr : Frame) :
    ({ s with frames := s.frames.push fr } : Store).site? s.frames.size = some fr.site := by
  rw [site?, Array.getElem?_push_size]
  rfl

theorem slot?_pushFrame (s : Store) (fr : Frame) (x : String) :
    ({ s with frames := s.frames.push fr } : Store).slot? s.frames.size x = fr.slots.find? x := by
  simp [slot?]

/-- A new frame for a call. -/
theorem activates_newFrame {closure : Closure} (hc : s.closures[c]? = some closure) :
    (s.newFrame closure.site (some closure.frame)).2.Activates s.frames.size c := by
  refine ⟨closure, hc, site?_pushFrame s _, ?_⟩
  simp [parent?, newFrame]

/-- Binding a method to an object. -/
theorem boundTo_bind (s : Store) {closure : Closure} (hhome : ∃ k, closure.home = .receiver k)
    (o : ObjectId) : (s.bind closure (.object o)).2.BoundTo s.closures.size o := by
  obtain ⟨k, hhome⟩ := hhome
  rw [bind_eq]
  refine ⟨_, k, Array.getElem?_push_size, ?_, ?_⟩
  · exact (site?_pushFrame s _).trans (congrArg some hhome)
  · exact (slot?_pushFrame s _ _).trans (Table.find?_insert_self _ _ _)

/-- A step changes no `this` that is there. -/
theorem Step.slot?_this (h : s.Step sparesThis s') (hf : f < s.frames.size) :
    s'.slot? f "this" = s.slot? f "this" := by
  cases h with
  | define g hx slot =>
    rw [slot?_define, if_neg fun heq => hx heq.2]
  | block | activation => exact slot?_newFrame s _ _ f "this"
  | bind hc o =>
    rw [bind_eq]
    show (do (← (s.frames.push _)[f]?).slots.find? "this") = _
    rw [Array.getElem?_push, if_neg (Nat.ne_of_lt hf)]
    rfl
  | closure | newClass | newObject | setStatic | setField => rfl

/-- What a frame that is new after a step is: that of a block, that of a call, or one that is
around methods and holds an object. -/
theorem Step.new_frame (hs : s.Coded sparesThis) (h : s.Step sparesThis s') {site : Site}
    (hsite : s'.site? f = some site) (hnew : s.frames.size ≤ f) :
    (∃ position, site = .block position) ∨ (∃ j, site = .function j ∧ ∃ c, s'.Activates f c)
      ∨ ∃ k o, site = .receiver k ∧ s'.slot? f "this" = some (some (.object o)) := by
  have hlt := lt_size_of_site? hsite
  -- where one frame was made, it is this one
  have hlast : s'.frames.size = s.frames.size + 1 → f = s.frames.size := by
    intro hsize
    rw [hsize] at hlt
    exact Nat.le_antisymm (Nat.lt_succ_iff.mp hlt) hnew
  cases h with
  | block position parent =>
    cases hlast (Array.size_push _)
    cases hsite.symm.trans (site?_pushFrame s _)
    exact .inl ⟨position, rfl⟩
  | @activation c closure hc =>
    cases hlast (Array.size_push _)
    cases hsite.symm.trans (site?_pushFrame s _)
    obtain ⟨j, hj⟩ := (hs c closure hc).site
    exact .inr (.inl ⟨j, hj, c, activates_newFrame hc⟩)
  | @bind c closure hc o =>
    rw [bind_eq] at hsite hlast ⊢
    cases hlast (Array.size_push _)
    cases hsite.symm.trans (site?_pushFrame s _)
    obtain ⟨k, hk⟩ := (hs c closure hc).home
    exact .inr (.inr ⟨k, o, hk, (slot?_pushFrame s _ _).trans (Table.find?_insert_self _ _ _)⟩)
  | define =>
    rw [Store.define, Array.size_modify] at hlt
    exact absurd hlt (Nat.not_lt.mpr hnew)
  | closure | newClass | newObject | setStatic | setField => exact absurd hlt (Nat.not_lt.mpr hnew)

/-- A step leaves the store receptive. -/
theorem Step.receptive (hs : s.Receptive) (h : s.Step sparesThis s') : s'.Receptive := by
  have he := h.keeps.toExtends
  -- a frame that was there has kept its construct
  have hold : ∀ {f : FrameId} {site : Site}, s'.site? f = some site → f < s.frames.size →
      s.site? f = some site := by
    intro f site hsite hlt
    have hthere : s.site? f = some (s.frames[f]).site := by
      rw [site?, Array.getElem?_eq_getElem hlt]
      rfl
    rw [hthere, ← he.site?_eq hthere, hsite]
  refine ⟨h.coded hs.coded, fun {f k} hsite => ?_, fun {f j} hsite => ?_⟩
  · rcases Nat.lt_or_ge f s.frames.size with hlt | hnew
    · rw [h.slot?_this hlt]
      exact hs.receivers (hold hsite hlt)
    · rcases h.new_frame hs.coded hsite hnew with ⟨_, hblock⟩ | ⟨_, hfunction, -⟩ | ⟨_, o, -, ho⟩
      · cases hblock
      · cases hfunction
      · exact ⟨o, ho⟩
  · rcases Nat.lt_or_ge f s.frames.size with hlt | hnew
    · obtain ⟨c, hc⟩ := hs.activations (hold hsite hlt)
      exact ⟨c, hc.mono he⟩
    · rcases h.new_frame hs.coded hsite hnew with ⟨_, hblock⟩ | ⟨_, -, hc⟩ | ⟨_, _, hreceiver, -⟩
      · cases hblock
      · exact hc
      · cases hreceiver

/-! ### Some steps -/

/-- Receptive stores stay so. -/
theorem Receptive.kept : Kept sparesThis Receptive :=
  ⟨fun h => h.coded, fun h hstep => Step.receptive h hstep⟩

/-- What a frame holds as `this` does not change. -/
theorem Steps.slot?_this (h : s.Steps sparesThis s') (hf : f < s.frames.size) :
    s'.slot? f "this" = s.slot? f "this" := by
  induction h with
  | refl => rfl
  | tail hsteps hstep ih =>
    rw [hstep.slot?_this (Nat.lt_of_lt_of_le hf (Steps.keeps hsteps).toExtends.size_le), ih]

/-- A bound method stays bound to its object. -/
theorem BoundTo.mono (h : s.BoundTo c o) (hsteps : s.Steps sparesThis s') : s'.BoundTo c o := by
  obtain ⟨closure, k, hc, hsite, hthis⟩ := h
  have he := (Steps.keeps hsteps).toExtends
  refine ⟨closure, k, he.closures hc, he.site?_eq hsite, ?_⟩
  rw [Steps.slot?_this hsteps (lt_size_of_site? hsite)]
  exact hthis

/-- A frame of a function right inside of a frame around methods is that of a call of a method
that is bound to an object. -/
theorem Receptive.exists_boundTo (h : s.Receptive) {j k : Nat}
    (hg : s.site? g = some (.function j)) (hparent : s.parent? g = some f)
    (hf : s.site? f = some (.receiver k)) :
    ∃ c o, s.Activates g c ∧ s.BoundTo c o ∧ s.slot? f "this" = some (some (.object o)) := by
  obtain ⟨o, ho⟩ := h.receivers hf
  obtain ⟨c, closure, hc, hsite, hup⟩ := h.activations hg
  cases hparent.symm.trans hup
  exact ⟨c, o, ⟨closure, hc, hsite, hup⟩, ⟨closure, k, hc, hf, ho⟩, ho⟩

end Store

/-! ### Calls -/

/-- How methods are bound, called and given back, by calls to some depth on one machine. -/
structure Machine.Dispatches (limits : Limits) (d : Nat) (m : Machine) : Prop where
  /-- Whatever is called, frames keep their `this`, and bound methods stay bound. -/
  keeps : ∀ {c : ClosureId} {vs : List Value} {m' : Machine}, EndsIn (invoke limits d c vs) m m' →
    m'.store.Receptive
      ∧ (∀ f < m.store.frames.size, m'.store.slot? f "this" = m.store.slot? f "this")
      ∧ ∀ {c' : ClosureId} {o : ObjectId}, m.store.BoundTo c' o → m'.store.BoundTo c' o
  /-- A property of an object is a value of its own, or a method of its class that is bound to
  this object; a getter is called at once. -/
  binds : ∀ {o : ObjectId} {name : Token} {v : Value} {m' : Machine},
    getProperty (invoke limits d) (.object o) name m = .ok v m' →
    m.store.field? o name.lexeme = some v ∧ m' = m
      ∨ ∃ x c method bound m₁, m.store.objects[o]? = some x
        ∧ m.store.method? x.classId name.lexeme = some c ∧ m.store.closures[c]? = some method
        ∧ m₁ = { m with store := (m.store.bind method (.object o)).2 }
        ∧ m₁.store.Receptive ∧ m₁.store.BoundTo bound o
        ∧ (v = .closure bound ∧ m' = m₁
          ∨ method.isGetter ∧ invoke limits d bound [] m₁ = .ok v m')
  /-- The body of a closure that is called is run in a new frame of the call. -/
  enters : ∀ {c : ClosureId} {closure : Closure}, m.store.closures[c]? = some closure →
    ∃ g m₁, m.store.site? g = none ∧ m₁.store.Activates g c ∧ m₁.store.Receptive
      ∧ ∀ vs, invoke limits (d + 1) c vs m = (do
        bindParams g closure.params vs
        callResult closure (← inFrame g (runAll (exec limits d) closure.body))) m₁
  /-- A call of a class that returns gives a new object of the class.  If there is a method that
  initializes objects, it was called, bound to this object. -/
  constructs : ∀ {k : ClassId} {vs : List Value} {v : Value} {m' : Machine},
    apply (invoke limits d) (.classRef k) vs m = .ok v m' →
    ∃ o, v = .object o ∧ m.store.objects[o]? = none
      ∧ m'.store.objects[o]?.map Instance.classId = some k
      ∧ ∀ c, m.store.method? k "init" = some c → (m.store.closures[c]?).isSome →
        ∃ bound m₁ w, m₁.store.Receptive ∧ m₁.store.BoundTo bound o
          ∧ invoke limits d bound vs m₁ = .ok w m'
  /-- A call of a method that initializes objects gives the object to which the method is bound,
  if it returns. -/
  initializes : ∀ {c : ClosureId} {closure : Closure} {o : ObjectId} {vs : List Value} {v : Value}
    {m' : Machine}, m.store.closures[c]? = some closure → closure.isInitializer →
    m.store.BoundTo c o → apply (invoke limits d) (.closure c) vs m = .ok v m' → v = .object o

section Calls

variable {m m' : Machine} {limits : Limits} {d : Nat}

/-- What an initializer gives is what the frame of its closure holds as `this`. -/
theorem this_of_callResult {closure : Closure} {completion : Completion} {v : Value}
    (hinit : closure.isInitializer) (h : callResult closure completion m = .ok v m') :
    m'.store.slot? closure.frame "this" = some (some v) := by
  have hend : ∀ w, callValue closure w m = .ok v m' →
      m'.store.slot? closure.frame "this" = some (some v) := by
    intro w h
    rw [callValue, if_pos hinit] at h
    obtain ⟨slot, m₁, hslot, h⟩ := exists_of_bind_eq_ok h
    obtain ⟨hslot, rfl⟩ := eq_of_askStore_eq_ok hslot
    match slot with
    | none | some none => cases h
    | some (some receiver) =>
      cases h
      exact hslot.symm
  cases completion with
  | normal => exact hend .nil h
  | returned keyword w => exact hend w h
  | broke | continued => cases h

/-- Code that spares `this` relies on nothing but the store. -/
theorem Naming.SameIn.of_receptive {n n' : Naming}
    (h : ∀ m t, m.store.Receptive → n'.value m t = n.value m t ∧ n'.target m t = n.target m t) :
    Naming.SameIn sparesThis Store.Receptive n n' where
  near _ hnear := nomatch hnear
  value hm _ := (h _ _ hm).1
  target hm _ := (h _ _ hm).2

/-- Calls change a receptive store in steps. -/
theorem Store.Receptive.invoke_steps (hm : m.store.Receptive) {c : ClosureId} {vs : List Value}
    (h : EndsIn (invoke limits d c vs) m m') : m.store.Steps sparesThis m'.store := by
  have hsame : Naming.SameIn sparesThis Store.Receptive limits.naming limits.naming :=
    .of_receptive fun _ _ _ => ⟨rfl, rfl⟩
  exact ((Store.Receptive.kept.evaluates hsame d).invoke c vs hm).2 m' h

/-- A method that initializes objects gives the object to which it is bound. -/
theorem Store.Receptive.invoke_initializer (hm : m.store.Receptive) {c : ClosureId}
    {closure : Closure} {o : ObjectId} {vs : List Value} {v : Value}
    (hc : m.store.closures[c]? = some closure) (hinit : closure.isInitializer)
    (hbound : m.store.BoundTo c o) (h : invoke limits d c vs m = .ok v m') : v = .object o := by
  obtain ⟨closure', k, hc', hsite, hthis⟩ := hbound
  cases hc.symm.trans hc'
  have hsteps := hm.invoke_steps (.inl ⟨v, h⟩)
  cases d with
  | zero => cases h
  | succ d =>
    rw [invoke] at h
    obtain ⟨found, m₀, hfound, henter⟩ := exists_of_bind_eq_ok h
    obtain ⟨rfl, rfl⟩ := eq_of_askStore_eq_ok hfound
    rw [hc] at henter
    obtain ⟨g, m₁, -, hrest⟩ := exists_of_bind_eq_ok henter
    obtain ⟨_, m₂, -, hrest⟩ := exists_of_bind_eq_ok hrest
    obtain ⟨completion, m₃, -, hend⟩ := exists_of_bind_eq_ok hrest
    -- the frame of the closure still holds what it held when the call began
    have hresult := this_of_callResult hinit hend
    rw [Store.Steps.slot?_this hsteps (Store.lt_size_of_site? hsite), hthis] at hresult
    cases hresult
    rfl

/-- A property of an object that is read. -/
theorem Store.Receptive.getProperty_cases (hm : m.store.Receptive) {call : Invoker} {o : ObjectId}
    {name : Token} {v : Value} (h : getProperty call (.object o) name m = .ok v m') :
    m.store.field? o name.lexeme = some v ∧ m' = m
      ∨ ∃ x c method bound m₁, m.store.objects[o]? = some x
        ∧ m.store.method? x.classId name.lexeme = some c ∧ m.store.closures[c]? = some method
        ∧ m₁ = { m with store := (m.store.bind method (.object o)).2 }
        ∧ m₁.store.Receptive ∧ m₁.store.BoundTo bound o
        ∧ (v = .closure bound ∧ m' = m₁ ∨ method.isGetter ∧ call bound [] m₁ = .ok v m') := by
  obtain ⟨field, m₁, hfield, h⟩ := exists_of_bind_eq_ok h
  obtain ⟨hfield, rfl⟩ := eq_of_askStore_eq_ok hfield
  cases field with
  | some w =>
    cases h
    exact .inl ⟨hfield.symm, rfl⟩
  | none =>
    obtain ⟨method, m₂, hmethod, h⟩ := exists_of_bind_eq_ok h
    obtain ⟨hmethod, rfl⟩ := eq_of_askStore_eq_ok hmethod
    cases method with
    | none => cases h
    | some method =>
      obtain ⟨x, hx, hmethod⟩ := Option.bind_eq_some_iff.mp hmethod.symm
      obtain ⟨c, hc, hclosure⟩ := Option.bind_eq_some_iff.mp hmethod
      refine .inr ⟨x, c, method, m₂.store.closures.size, _, hx, hc, hclosure, rfl,
        Store.Step.receptive hm (.bind hclosure o),
        m₂.store.boundTo_bind (hm.coded c method hclosure).home o, ?_⟩
      obtain ⟨bound, m₃, hbound, h⟩ := exists_of_bind_eq_ok h
      cases hbound
      split at h
      · next hgetter => exact .inr ⟨hgetter, h⟩
      · cases h
        exact .inl ⟨rfl, rfl⟩

/-- A class that is called. -/
theorem Store.Receptive.construct_cases (hm : m.store.Receptive) {k : ClassId} {vs : List Value}
    {v : Value} (h : construct (invoke limits d) k vs m = .ok v m') :
    ∃ o, v = .object o ∧ m.store.objects[o]? = none
      ∧ m'.store.objects[o]?.map Instance.classId = some k
      ∧ ∀ c, m.store.method? k "init" = some c → (m.store.closures[c]?).isSome →
        ∃ bound m₁ w, m₁.store.Receptive ∧ m₁.store.BoundTo bound o
          ∧ invoke limits d bound vs m₁ = .ok w m' := by
  let s : Store := (m.store.newObject k).2
  have hs : s.Receptive := Store.Step.receptive hm (.newObject k)
  have hfresh : m.store.objects[m.store.objects.size]? = none :=
    Array.getElem?_eq_none (Nat.le_refl _)
  have hobject : s.objects[m.store.objects.size]? = some { classId := k } :=
    Array.getElem?_push_size
  obtain ⟨o, m₁, ho, h⟩ := exists_of_bind_eq_ok h
  cases ho
  obtain ⟨initializer, m₂, hask, h⟩ := exists_of_bind_eq_ok h
  obtain ⟨hinit, rfl⟩ := eq_of_askStore_eq_ok hask
  cases initializer with
  | none =>
    cases h
    refine ⟨_, rfl, hfresh, ?_, fun c hc hclosure => ?_⟩
    · exact congrArg (Option.map Instance.classId) hobject
    · -- a new object changes neither classes nor closures
      have hclasses : s.classes = m.store.classes := rfl
      have hmethod := Store.method?_congr hclasses k "init"
      have hnone : (s.method? k "init").bind (fun c => m.store.closures[c]?) = none := hinit.symm
      rw [hmethod, hc, Option.bind_some] at hnone
      rw [hnone] at hclosure
      cases hclosure
  | some initializer =>
    obtain ⟨c, -, hc⟩ := Option.bind_eq_some_iff.mp hinit.symm
    obtain ⟨bound, m₃, hbound, h⟩ := exists_of_bind_eq_ok h
    cases hbound
    obtain ⟨w, m₄, hcall, h⟩ := exists_of_bind_eq_ok h
    cases h
    have hbind : s.Step sparesThis (s.bind initializer (.object m.store.objects.size)).2 :=
      .bind hc _
    have hreceptive := Store.Step.receptive hs hbind
    have hsteps := Store.Receptive.invoke_steps hreceptive (.inl ⟨w, hcall⟩)
    refine ⟨_, rfl, hfresh, ?_, fun _ _ _ => ⟨_, _, w, hreceptive,
      s.boundTo_bind (hs.coded c initializer hc).home _, hcall⟩⟩
    obtain ⟨x, hx, hclass⟩ := (hbind.keeps.trans (Store.Steps.keeps hsteps)).objects hobject
    rw [hx]
    exact congrArg some hclass

/-- What holds of calls on a machine with a receptive store. -/
theorem Store.Receptive.dispatches (hm : m.store.Receptive) (limits : Limits) (d : Nat) :
    m.Dispatches limits d where
  keeps {c vs m'} h := by
    have hsteps := hm.invoke_steps h
    exact ⟨Store.Receptive.kept.steps hm hsteps, fun f hf => Store.Steps.slot?_this hsteps hf,
      fun hbound => hbound.mono hsteps⟩
  binds h := hm.getProperty_cases h
  enters {c closure} hc := by
    refine ⟨m.store.frames.size,
      { m with store := (m.store.newFrame closure.site (some closure.frame)).2 }, ?_,
      Store.activates_newFrame hc, Store.Step.receptive hm (.activation hc), fun vs => ?_⟩
    · rw [Store.site?, Array.getElem?_eq_none (Nat.le_refl _)]
      rfl
    · have hask : askStore (fun s => s.closures[c]?) m = .ok (some closure) m :=
        congrArg (EStateM.Result.ok · m) hc
      rw [invoke]
      simp only [Bind.bind, EStateM.bind, hask]
      rfl
  constructs h := hm.construct_cases h
  initializes hc hinit hbound h := hm.invoke_initializer hc hinit hbound h

end Calls

end LoxLang
