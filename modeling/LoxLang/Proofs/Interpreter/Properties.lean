import LoxLang.Proofs.Interpreter.WellFounded
import LoxLang.Proofs.Machine.Sequence
import LoxLang.Proofs.Store.Members

/-!
# Properties of objects and classes

What a program reads as a property after any assignments to properties.  A class gives what
the nearest class up from it was last given under the name.  An object gives what it was last
given itself, or else the method of the nearest class up from its own, bound to the object;
nothing that is assigned to another object or to a class makes a difference to that.

All this is so of every hierarchy of classes in which classes, methods and objects refer to
what is there, and of the one in every session.

## Main definitions

* `Assignment.perform`, `performAll` — assigning to properties as a program does.
* `Property`, `Store.property?` — what is selected when a property of an object is read.
* `Machine.withBound` — a machine in which a method was bound to an object.
* `Machine.got?` — what reading a property gives.
* `Machine.PropertyLaws` — what properties are after some assignments.

## Main results

* `Reached.founded` — in every session, classes, methods and objects refer to what is there.
* `Machine.propertyLaws_performAll` — **properties are what was assigned last, own values of
  objects before methods, and nearer classes before those further up.**
-/

namespace LoxLang

/-! ### Assigning -/

/-- Assigns to a property as a program does. -/
def Assignment.perform (a : Assignment) : EvalM Value :=
  setProperty a.holder.value a.name (pure a.value)

/-- Assigns to properties, one after the other. -/
def performAll : List Assignment → EvalM Unit
  | [] => pure ()
  | a :: as => a.perform >>= fun _ => performAll as

/-- What reading a property gives, if it gives anything. -/
def Machine.got? (m : Machine) (call : Invoker) (v : Value) (name : Token) : Option Value :=
  (getProperty call v name).run' m

variable {m m' : Machine} {as : List Assignment} {call : Invoker} {k : ClassId} {o : ObjectId}
  {name : Token} {x : String} {v : Value}

theorem perform_eq (a : Assignment) (m : Machine) :
    a.perform m
      = .ok a.value { m with store := m.store.put a.holder a.name.lexeme a.value } := by
  obtain ⟨holder, name, v⟩ := a
  cases holder <;> rfl

theorem performAll_eq (as : List Assignment) (m : Machine) :
    performAll as m = .ok () { m with store := m.store.assigned as } := by
  induction as generalizing m with
  | nil => rfl
  | cons a as ih =>
    rw [performAll, bind_of_ok (perform_eq a m), ih]
    rfl

theorem store_of_performAll (h : performAll as m = .ok () m') :
    m'.store = m.store.assigned as := by
  rw [performAll_eq] at h
  cases h
  rfl

/-! ### Reading from classes -/

/-- A class gives what it has, itself or by inheritance; its absence is a fault. -/
theorem getProperty_classRef :
    getProperty call (.classRef k) name m
      = (m.store.static? k name.lexeme).elim
          (.error (.at (.undefinedStatic (m.store.className k)) name) m) (.ok · m) := by
  change getFromClass k name m = _
  rw [getFromClass, ask_bind]
  cases m.store.static? k name.lexeme <;> rfl

theorem got?_classRef : m.got? call (.classRef k) name = m.store.static? k name.lexeme := by
  unfold Machine.got? EStateM.run' EStateM.run
  rw [getProperty_classRef]
  cases m.store.static? k name.lexeme <;> rfl

theorem getProperty_classRef_eq_ok_iff :
    getProperty call (.classRef k) name m = .ok v m
      ↔ m.store.static? k name.lexeme = some v := by
  rw [getProperty_classRef]
  cases m.store.static? k name.lexeme <;> simp

theorem getProperty_classRef_eq_error_iff {f : Fault}
    (hf : f = .at (.undefinedStatic (m.store.className k)) name) :
    getProperty call (.classRef k) name m = .error f m
      ↔ m.store.static? k name.lexeme = none := by
  rw [getProperty_classRef, hf]
  cases m.store.static? k name.lexeme <;> simp

/-! ### Reading from objects -/

/-- What is selected when a property of an object is read. -/
inductive Property where
  /-- A value that the object has itself. -/
  | value (v : Value)
  /-- A method of a class. -/
  | method (c : ClosureId)
  deriving DecidableEq

namespace Store

variable {s s' : Store}

/-- What is selected under a name of an object: the value that it has itself, or else the
method that its class has, itself or by inheritance. -/
def property? (s : Store) (o : ObjectId) (x : String) : Option Property :=
  ((s.own? (.object o) x).map .value).or
    ((s.objects[o]?.bind fun i => s.method? i.classId x).map .method)

theorem property?_eq_value_iff :
    s.property? o x = some (.value v) ↔ s.own? (.object o) x = some v := by
  unfold property?
  cases s.own? (.object o) x with
  | some w => simp
  | none => cases s.objects[o]?.bind fun i => s.method? i.classId x <;> simp

theorem property?_eq_method_iff {i : Instance} (hi : s.objects[o]? = some i) {c : ClosureId} :
    s.property? o x = some (.method c)
      ↔ s.own? (.object o) x = none ∧ s.method? i.classId x = some c := by
  unfold property?
  cases s.own? (.object o) x <;> simp [hi]

theorem property?_eq_none_iff {i : Instance} (hi : s.objects[o]? = some i) :
    s.property? o x = none ↔ s.own? (.object o) x = none ∧ s.method? i.classId x = none := by
  unfold property?
  cases s.own? (.object o) x <;> simp [hi]

/-- A method that is selected is there. -/
theorem Founded.exists_of_property? (h : s.Founded) {i : Instance}
    (hi : s.objects[o]? = some i) {c : ClosureId} (hc : s.property? o x = some (.method c)) :
    ∃ method, s.closures[c]? = some method :=
  h.exists_of_method? ((property?_eq_method_iff hi).mp hc).2

/-- What is selected depends on what the object has itself and on nothing else that can be
assigned to. -/
theorem SameShape.property?_eq (h : s.SameShape s')
    (hown : s'.own? (.object o) x = s.own? (.object o) x) :
    s'.property? o x = s.property? o x := by
  have hmethod : (s'.objects[o]?.bind fun i => s'.method? i.classId x)
      = s.objects[o]?.bind fun i => s.method? i.classId x := by
    have ho := congrArg (Option.bind · fun k => s.method? k x) (h.objects o)
    simpa [Option.bind_map, Function.comp_def, h.method?_eq] using ho
  rw [property?, property?, hown, hmethod]

end Store

/-- The machine after a method was bound to an object: there is one more frame, which holds the
object as `this` within the frame of the method, and one more closure, which is the method in
that frame. -/
def Machine.withBound (m : Machine) (method : Closure) (o : ObjectId) : Machine :=
  let frame : Frame :=
    ⟨method.home, some method.frame, Table.empty.insert "this" (some (.object o))⟩
  { m with
    store :=
      { m.store with
        frames := m.store.frames.push frame
        closures := m.store.closures.push { method with frame := m.store.frames.size } } }

theorem getProperty_of_value (h : m.store.property? o name.lexeme = some (.value v)) :
    getProperty call (.object o) name m = .ok v m := by
  have hfield : m.store.field? o name.lexeme = some v := Store.property?_eq_value_iff.mp h
  change getFromObject call o name m = _
  rw [getFromObject, ask_bind, hfield]
  rfl

theorem readMethod_some (method : Closure) :
    readMethod call o name (some method) m
      = if method.isGetter then call m.store.closures.size [] (m.withBound method o)
        else .ok (.closure m.store.closures.size) (m.withBound method o) := by
  have hbound : allocate (fun s => s.bind method (.object o)) m
      = .ok m.store.closures.size (m.withBound method o) := by
    change (match m.store.bind method (.object o) with
      | (n, s) => EStateM.Result.ok n { m with store := s }) = _
    rw [Store.bind_eq]
    rfl
  rw [readMethod, bind_of_ok hbound]
  cases method.isGetter <;> rfl

theorem getProperty_of_method {i : Instance} (hi : m.store.objects[o]? = some i) {c : ClosureId}
    {method : Closure} (hc : m.store.closures[c]? = some method)
    (h : m.store.property? o name.lexeme = some (.method c)) :
    getProperty call (.object o) name m
      = if method.isGetter then call m.store.closures.size [] (m.withBound method o)
        else .ok (.closure m.store.closures.size) (m.withBound method o) := by
  obtain ⟨hown, hmethod⟩ := (Store.property?_eq_method_iff hi).mp h
  have hfound : m.store.methodOf? o name.lexeme = some method := by
    simp [Store.methodOf?, hi, hmethod, hc]
  change getFromObject call o name m = _
  rw [getFromObject_of_method hown, hfound, readMethod_some]

theorem getProperty_of_none {i : Instance} (hi : m.store.objects[o]? = some i)
    (h : m.store.property? o name.lexeme = none) :
    getProperty call (.object o) name m = .error (.at .undefinedProperty name) m := by
  obtain ⟨hown, hmethod⟩ := (Store.property?_eq_none_iff hi).mp h
  have hnone : m.store.methodOf? o name.lexeme = none := by
    simp [Store.methodOf?, hi, hmethod]
  change getFromObject call o name m = _
  rw [getFromObject_of_method hown, hnone]
  rfl

/-- If a method is selected, then the machine is not as before, whatever a call of a getter
does. -/
theorem getProperty_of_method_ne {limits : Limits} {d : Nat} {i : Instance}
    (hi : m.store.objects[o]? = some i) {c : ClosureId} {method : Closure}
    (hc : m.store.closures[c]? = some method)
    (h : m.store.property? o name.lexeme = some (.method c)) {f : Fault} :
    getProperty (invoke limits d) (.object o) name m ≠ .error f m := by
  intro hfails
  rw [getProperty_of_method hi hc h] at hfails
  split at hfails
  · -- the frame of the bound method is never lost
    have hends : EndsIn (invoke limits d m.store.closures.size []) (m.withBound method o) m :=
      .inr ⟨f, hfails⟩
    have hgrown := (((Traced.any limits.naming).evaluates d).invoke _ _).changes hends |>.grown
    have hsize := hgrown.size_le
    simp only [Machine.withBound, Array.size_push] at hsize
    omega
  · cases hfails

/-! ### Properties after assignments -/

/-- What properties are on a machine after some assignments to properties. -/
structure Machine.PropertyLaws (m : Machine) (as : List Assignment) (m' : Machine) : Prop where
  /-- Nothing has changed but what objects and classes have themselves. -/
  shape : m' = { m with store := m'.store } ∧ m.store.SameShape m'.store
  /-- The way up from a class is as before, and ends at a class that inherits from none. -/
  ways : ∀ {k : ClassId}, m.store.Has (.classRef k) → m'.store.lineage k = m.store.lineage k
    ∧ IsWholeWay m.store.superclass? k (m.store.lineage k)
  /-- A class gives what the nearest class up from it that was given anything under the name
  was given last. -/
  static_get : ∀ {k : ClassId}, m.store.Has (.classRef k) →
    ∀ (call : Invoker) (name : Token) (v : Value),
      getProperty call (.classRef k) name m' = .ok v m'
        ↔ ∃ c, m.store.NearestClass k (fun c => m.store.lastOf? as (.classRef c) name.lexeme) c v
  /-- Reading from a class fails if no class up from it was given anything under the name, and
  only then. -/
  static_fails : ∀ {k : ClassId}, m.store.Has (.classRef k) → ∀ (call : Invoker) (name : Token),
    getProperty call (.classRef k) name m'
        = .error (.at (.undefinedStatic (m.store.className k)) name) m'
      ↔ ∀ c ∈ m.store.lineage k, m.store.lastOf? as (.classRef c) name.lexeme = none
  /-- One more assignment to a class is seen from those classes that come to it before any
  other class that has the name, and from no others.  Other names are as before. -/
  static_set : ∀ {k : ClassId}, m.store.Has (.classRef k) → ∀ (name : Token) (v : Value), ∃ m₁,
    Assignment.perform ⟨.classRef k, name, v⟩ m' = .ok v m₁
    ∧ (∀ call d, m'.store.Reaches d k name.lexeme ∧ m₁.got? call (.classRef d) name = some v
      ∨ ¬m'.store.Reaches d k name.lexeme
        ∧ m₁.got? call (.classRef d) name = m'.got? call (.classRef d) name)
    ∧ (∀ call d, m'.got? call (.classRef d) name ≠ some v →
      (m₁.got? call (.classRef d) name ≠ m'.got? call (.classRef d) name
        ↔ m'.store.Reaches d k name.lexeme))
    ∧ ∀ call d (other : Token), other.lexeme ≠ name.lexeme →
      m₁.got? call (.classRef d) other = m'.got? call (.classRef d) other
  /-- A value is selected if it is what the object was given last. -/
  selects_value : ∀ {o : ObjectId}, m.store.Has (.object o) → ∀ (x : String) (v : Value),
    m'.store.property? o x = some (.value v) ↔ m.store.lastOf? as (.object o) x = some v
  /-- A method is selected if the object was given nothing and the method is that of the nearest
  class up from its own which declares one. -/
  selects_method : ∀ {o : ObjectId} {i : Instance}, m.store.objects[o]? = some i →
    ∀ (x : String) (c : ClosureId), m'.store.property? o x = some (.method c)
      ↔ m.store.lastOf? as (.object o) x = none
        ∧ ∃ k, m.store.NearestClass i.classId (fun k => m.store.ownMethod? k x) k c
  /-- Nothing is selected if there is neither. -/
  selects_none : ∀ {o : ObjectId} {i : Instance}, m.store.objects[o]? = some i → ∀ x : String,
    m'.store.property? o x = none
      ↔ m.store.lastOf? as (.object o) x = none
        ∧ ∀ k ∈ m.store.lineage i.classId, m.store.ownMethod? k x = none
  /-- A value that is selected is what the object gives. -/
  value_get : ∀ (call : Invoker) (o : ObjectId) (name : Token) (v : Value),
    m'.store.property? o name.lexeme = some (.value v) →
      getProperty call (.object o) name m' = .ok v m'
  /-- A method that is selected is there.  It is bound to the object, and a getter is called at
  once. -/
  method_get : ∀ {o : ObjectId}, m.store.Has (.object o) →
    ∀ (call : Invoker) (name : Token) (c : ClosureId),
      m'.store.property? o name.lexeme = some (.method c) →
        ∃ method, m.store.closures[c]? = some method
          ∧ getProperty call (.object o) name m'
            = if method.isGetter then call m'.store.closures.size [] (m'.withBound method o)
              else .ok (.closure m'.store.closures.size) (m'.withBound method o)
  /-- Reading from an object fails at once if nothing is selected, and only then. -/
  object_fails : ∀ {o : ObjectId}, m.store.Has (.object o) →
    ∀ (limits : Limits) (d : Nat) (name : Token),
      getProperty (invoke limits d) (.object o) name m' = .error (.at .undefinedProperty name) m'
        ↔ m'.store.property? o name.lexeme = none
  /-- What is selected would be the same after any other assignments among which those to the
  object are the same. -/
  alone : ∀ {o : ObjectId}, m.store.Has (.object o) → ∀ (bs : List Assignment) (m₁ : Machine),
    bs.filter (·.holder = .object o) = as.filter (·.holder = .object o) →
      performAll bs m = .ok () m₁ → ∀ x, m₁.store.property? o x = m'.store.property? o x

/-- What an object was last given depends on the assignments to it alone. -/
theorem Store.lastOf?_congr {s : Store} {as bs : List Assignment} {h : Holder}
    (hsame : bs.filter (·.holder = h) = as.filter (·.holder = h)) (x : String) :
    s.lastOf? bs h x = s.lastOf? as h x := by
  rw [Store.lastOf?, Store.lastOf?, ← lastAssigned?_filter bs, hsame, lastAssigned?_filter]

/-- **Properties are what was assigned last, own values of objects before methods, and nearer
classes before those further up.**  This holds in every hierarchy of classes, with any objects
and after any assignments to properties of classes and objects. -/
theorem Machine.propertyLaws_performAll (hm : m.store.Founded) (as : List Assignment) :
    ∃ m', performAll as m = .ok () m' ∧ m.PropertyLaws as m' := by
  refine ⟨_, performAll_eq as m, ?_⟩
  -- all but own tables is as before, so that only these need a look at the assignments
  have hshape := m.store.sameShape_assigned as
  have hfounded := hm.sameShape hshape
  have hobject : ∀ {o : ObjectId}, m.store.Has (.object o) →
      ∃ i, (m.store.assigned as).objects[o]? = some i :=
    fun ho => ⟨_, Array.getElem?_eq_getElem (hshape.has_iff.mpr ho)⟩
  constructor
  case shape => exact ⟨rfl, hshape⟩
  case ways =>
    intro k hk
    exact ⟨hshape.lineage_eq k, hm.older.isWholeWay_lineage hk⟩
  case static_get =>
    intro k hk call name v
    rw [getProperty_classRef_eq_ok_iff, hm.static?_assigned hk,
      Store.findSome?_lineage_eq_some_iff]
  case static_fails =>
    intro k hk call name
    rw [getProperty_classRef_eq_error_iff (by rw [hshape.className_eq]),
      hm.static?_assigned hk, List.findSome?_eq_none_iff]
  case static_set =>
    intro k hk name v
    refine ⟨_, perform_eq _ _, ?_⟩
    have hsees := Store.static?_put (hshape.has_iff.mpr hk) name.lexeme v
    simp only [got?_classRef]
    refine ⟨fun _ => hsees, fun _ d hother => ?_, fun _ d other hne => ?_⟩
    · rcases hsees d with ⟨hreach, hgot⟩ | ⟨hnot, hgot⟩
      · exact iff_of_true (by rw [hgot]; exact hother.symm) hreach
      · exact iff_of_false (not_not.mpr hgot) hnot
    · exact Store.static?_put_of_ne (hshape.has_iff.mpr hk) hne.symm v d
  case selects_value =>
    intro o ho x v
    rw [Store.property?_eq_value_iff, Store.own?_assigned ho]
  case selects_method =>
    intro o i hi x c
    have ho : m.store.Has (.object o) := (Array.getElem?_eq_some_iff.mp hi).1
    obtain ⟨i', hi', hclass⟩ := hshape.exists_object hi
    rw [Store.property?_eq_method_iff hi', Store.own?_assigned ho, hclass, hshape.method?_eq,
      Store.method?_eq, Store.findSome?_lineage_eq_some_iff]
  case selects_none =>
    intro o i hi x
    have ho : m.store.Has (.object o) := (Array.getElem?_eq_some_iff.mp hi).1
    obtain ⟨i', hi', hclass⟩ := hshape.exists_object hi
    rw [Store.property?_eq_none_iff hi', Store.own?_assigned ho, hclass, hshape.method?_eq,
      Store.method?_eq, List.findSome?_eq_none_iff]
  case value_get =>
    intro call o name v hselected
    exact getProperty_of_value hselected
  case method_get =>
    intro o ho call name c hselected
    obtain ⟨i, hi⟩ := hobject ho
    obtain ⟨method, hc⟩ := hfounded.exists_of_property? hi hselected
    exact ⟨method, by rwa [← hshape.closures_eq], getProperty_of_method hi hc hselected⟩
  case object_fails =>
    intro o ho limits d name
    obtain ⟨i, hi⟩ := hobject ho
    refine ⟨fun hfails => ?_, getProperty_of_none hi⟩
    cases hselected : (m.store.assigned as).property? o name.lexeme with
    | none => rfl
    | some property =>
      cases property with
      | value v => cases (getProperty_of_value hselected).symm.trans hfails
      | method c =>
        obtain ⟨method, hc⟩ := hfounded.exists_of_property? hi hselected
        exact absurd hfails (getProperty_of_method_ne hi hc hselected)
  case alone =>
    intro o ho bs m₁ hsame hbs x
    rw [store_of_performAll hbs]
    have hown : (m.store.assigned bs).own? (.object o) x
        = (m.store.assigned as).own? (.object o) x := by
      rw [Store.own?_assigned ho, Store.own?_assigned ho, Store.lastOf?_congr hsame]
    exact (hshape.symm.trans (m.store.sameShape_assigned bs)).property?_eq hown

/-! ### Sessions -/

theorem Store.Sound.founded {R : Occurrence → Prop} {g : FrameId} {s : Store} (h : s.Sound R g) :
    s.Founded where
  older := h.older
  methods hc := by
    obtain ⟨object, hk, hc⟩ := Option.bind_eq_some_iff.mp hc
    obtain ⟨closure, -, -, hclosure, -⟩ := h.methods hk hc
    exact ⟨closure, hclosure⟩
  instances hi := by
    obtain ⟨c, hc⟩ := h.instances hi
    exact (Array.getElem?_eq_some_iff.mp hc).1

/-- In every session, classes, methods and objects refer to what is there. -/
theorem Reached.founded {depth rounds : Nat} {runs : List Run} {i : Interpreter}
    (h : Reached depth rounds runs i) : i.machine.store.Founded :=
  h.session.1.at_top.sound.founded

/-- A value of a class is hidden by one that a class between is given, and a getter of an object
by a value that the object is given; another object of the class keeps the getter. -/
theorem Machine.propertyLaws_hidden :
    let r := (Interpreter.terminal 30 1).entry
      ("class A \x7b class s() \x7b\x7d g() \x7b\x7d \x7d class B < A \x7b\x7d class C < B \x7b\x7d"
        ++ " var o = C(); var p = C();") 1
    let i := r.result.1
    let s : Token := { kind := .identifier, lexeme := "s", line := 1 }
    let g : Token := { kind := .identifier, lexeme := "g", line := 1 }
    let as : List Assignment :=
      [⟨.classRef 1, s, .text "b"⟩, ⟨.object 0, g, .nil⟩, ⟨.classRef 0, s, .text "a"⟩]
    i.machine.store.Founded
      ∧ ∃ m', performAll as i.machine = .ok () m' ∧ i.machine.PropertyLaws as m'
        ∧ [0, 1, 2].map (m'.store.static? · "s")
          = [some (.text "a"), some (.text "b"), some (.text "b")]
        ∧ [0, 1].map (m'.store.property? · "g") = [some (.value .nil), some (.method 0)] := by
  intro r i s g as
  have hreached : Reached 30 1 [r] i := (Reached.terminal 30 1).take (.entry r.source 1)
  have hfounded := hreached.founded
  obtain ⟨m', hm', hlaws⟩ := Machine.propertyLaws_performAll hfounded as
  refine ⟨hfounded, m', hm', hlaws, ?_⟩
  rw [store_of_performAll hm']
  decide +kernel

end LoxLang
