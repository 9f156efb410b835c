import LoxLang.Machine.Eval
import LoxLang.Proofs.Machine.Soundness

/-!
# Actions that keep a machine sound

What can be said about an action on a sound machine, however it ends: the machine is sound
afterwards, its store has grown, its frame and its distances are the same, and the result
is as required or the fault is one of those that are allowed.  The actions are taken in
pairs, and the two of a pair do the same.  They differ in how names are looked up, so that
it does not matter how a name is looked up where none is.

## Main definitions

* `Machine.Ok`, `Machine.At` — a sound machine, and one that is at a place of a program.
* `Machine.Knows` — a value is sound in a machine.
* `Leads` — how a machine changes.
* `Runs` — what an action, and its counterpart, do to a machine.
* `callValue` — what a call gives whose body has come to an end.

## Main results

* `Runs.bind` — actions that follow each other.
* `Runs.inFrame` — actions in another frame.
-/

namespace LoxLang

/-- A machine whose store is sound and that goes by some distances. -/
structure Machine.Ok (R : Occurrence → Prop) (D : Distances) (m : Machine) : Prop where
  /-- The store is sound. -/
  sound : m.store.Sound R m.globals
  /-- The distances. -/
  distances_eq : m.distances = D

/-- A machine that is at a place of a program. -/
structure Machine.At (R : Occurrence → Prop) (D : Distances) (p : Place) (m : Machine) : Prop
    extends m.Ok R D where
  /-- The chain of the current frame has the constructs around the place. -/
  chained : m.store.Chained m.globals m.current p.sites

/-- A value is sound in a machine. -/
def Machine.Knows (R : Occurrence → Prop) (m : Machine) (v : Value) : Prop :=
  v.Sound R m.globals m.store

/-- How a machine changes. -/
structure Leads (R : Occurrence → Prop) (m m' : Machine) : Prop where
  /-- The store grows. -/
  grown : m.store.Extends m'.store
  /-- The store is sound. -/
  sound : m'.store.Sound R m'.globals
  /-- The current frame is the same. -/
  current_eq : m'.current = m.current
  /-- The global frame is the same. -/
  globals_eq : m'.globals = m.globals
  /-- The distances are the same. -/
  distances_eq : m'.distances = m.distances

/-- What an action does to a machine, whose counterpart does the same: either `Q` holds of
the result, or the fault is one of `A`. -/
def Runs {α : Type} (R : Occurrence → Prop) (A : Fault → Prop) (x y : EvalM α) (m : Machine)
    (Q : α → Machine → Prop) : Prop :=
  y m = x m
    ∧ match x m with
      | .ok a m' => Leads R m m' ∧ Q a m'
      | .error f m' => Leads R m m' ∧ A f

variable {R : Occurrence → Prop} {A : Fault → Prop} {D : Distances} {p : Place}
  {m m' m'' : Machine} {α β : Type}

namespace Leads

theorem refl (h : m.store.Sound R m.globals) : Leads R m m := ⟨.refl _, h, rfl, rfl, rfl⟩

theorem trans (h : Leads R m m') (h' : Leads R m' m'') : Leads R m m'' :=
  ⟨h.grown.trans h'.grown, h'.sound, h'.current_eq.trans h.current_eq,
    h'.globals_eq.trans h.globals_eq, h'.distances_eq.trans h.distances_eq⟩

/-- A change of the store alone. -/
theorem store {s : Store} (he : m.store.Extends s) (hs : s.Sound R m.globals) :
    Leads R m { m with store := s } := ⟨he, hs, rfl, rfl, rfl⟩

theorem ok (h : Leads R m m') (hm : m.Ok R D) : m'.Ok R D :=
  ⟨h.sound, h.distances_eq.trans hm.distances_eq⟩

theorem knows (h : Leads R m m') {v : Value} (hv : m.Knows R v) : m'.Knows R v := by
  unfold Machine.Knows
  rw [h.globals_eq]
  exact Value.Sound.mono hv h.grown

end Leads

theorem Leads.at (h : Leads R m m') (hm : m.At R D p) : m'.At R D p :=
  ⟨h.ok hm.toOk, by rw [h.globals_eq, h.current_eq]; exact hm.chained.mono h.grown⟩

/-- However an action in another frame ends, the frame is left again. -/
theorem inFrame_eq (f : FrameId) (x : EvalM α) (m : Machine) :
    inFrame f x m
      = match x { m with current := f } with
        | .ok a m' => .ok a { m' with current := m.current }
        | .error e m' => .error e { m' with current := m.current } := by
  unfold inFrame setCurrent modify
  simp only [Bind.bind, EStateM.bind, tryCatch, tryCatchThe, MonadExceptOf.tryCatch,
    MonadState.get, getThe, MonadStateOf.get, modifyGet, MonadStateOf.modifyGet]
  unfold EStateM.tryCatch EStateM.get EStateM.modifyGet
  simp only [EStateM.bind]
  cases x { m with current := f } <;> rfl

/-- What a call gives whose body has come to an end with a value: an initializer gives its
receiver. -/
def callValue (closure : Closure) (v : Value) : EvalM Value := do
  if closure.isInitializer then
    match ← askStore fun s => s.slot? closure.frame "this" with
    | some (some receiver) => return receiver
    | _ => throw .noReceiver
  else return v

theorem callResult_normal (closure : Closure) :
    callResult closure .normal = callValue closure .nil := rfl

theorem callResult_returned (closure : Closure) (keyword : Token) (v : Value) :
    callResult closure (.returned keyword v) = callValue closure v := rfl

namespace Runs

variable {x y : EvalM α} {Q Q' : α → Machine → Prop} {P : β → Machine → Prop}

/-- An action that ends with a result. -/
theorem of_ok {a : α} (hx : x m = .ok a m') (hy : y m = .ok a m') (hlead : Leads R m m')
    (hQ : Q a m') : Runs R A x y m Q := by
  unfold Runs
  rw [hx, hy]
  exact ⟨rfl, hlead, hQ⟩

theorem pure {a : α} (hm : m.store.Sound R m.globals) (hQ : Q a m) :
    Runs R A (Pure.pure a) (Pure.pure a) m Q := of_ok rfl rfl (.refl hm) hQ

theorem throw {f : Fault} (hm : m.store.Sound R m.globals) (hA : A f) :
    Runs R A (MonadExcept.throw f : EvalM α) (MonadExcept.throw f) m Q :=
  ⟨rfl, .refl hm, hA⟩

theorem mono (h : Runs R A x y m Q) (hQ : ∀ a m', Leads R m m' → Q a m' → Q' a m') :
    Runs R A x y m Q' := by
  refine ⟨h.1, ?_⟩
  have h₂ := h.2
  cases hx : x m with
  | ok a m' =>
    rw [hx] at h₂
    exact ⟨h₂.1, hQ a m' h₂.1 h₂.2⟩
  | error f m' =>
    rw [hx] at h₂
    exact h₂

/-- Actions that follow each other. -/
theorem bind {k l : α → EvalM β} (h : Runs R A x y m Q)
    (hk : ∀ a m', Leads R m m' → Q a m' → Runs R A (k a) (l a) m' P) :
    Runs R A (x >>= k) (y >>= l) m P := by
  obtain ⟨heq, h₂⟩ := h
  unfold Runs
  cases hx : x m with
  | ok a m' =>
    rw [hx] at h₂
    have hbind : (x >>= k) m = k a m' := by simp only [Bind.bind, EStateM.bind, hx]
    have hbind' : (y >>= l) m = l a m' := by simp only [Bind.bind, EStateM.bind, heq, hx]
    obtain ⟨heq', h₃⟩ := hk a m' h₂.1 h₂.2
    rw [hbind, hbind']
    refine ⟨heq', ?_⟩
    cases hr : k a m' with
    | ok b m'' =>
      rw [hr] at h₃
      exact ⟨h₂.1.trans h₃.1, h₃.2⟩
    | error f m'' =>
      rw [hr] at h₃
      exact ⟨h₂.1.trans h₃.1, h₃.2⟩
  | error f m' =>
    rw [hx] at h₂
    have hbind : (x >>= k) m = .error f m' := by simp only [Bind.bind, EStateM.bind, hx]
    have hbind' : (y >>= l) m = .error f m' := by simp only [Bind.bind, EStateM.bind, heq, hx]
    rw [hbind, hbind']
    exact ⟨rfl, h₂⟩

/-- The result of a computation that needs no machine. -/
theorem ofExcept {r : Except Fault α} (hm : m.store.Sound R m.globals)
    (hok : ∀ a, r = .ok a → Q a m) (herror : ∀ f, r = .error f → A f) :
    Runs R A (ofExcept r) (LoxLang.ofExcept r) m Q := by
  cases r with
  | ok a => exact pure hm (hok a rfl)
  | error f => exact throw hm (herror f rfl)

/-- A look at the machine. -/
theorem get {k l : Machine → EvalM β} (h : Runs R A (k m) (l m) m P) :
    Runs R A (MonadState.get >>= k) (MonadState.get >>= l) m P := h

/-- A question to the store. -/
theorem ask {f : Store → α} {k l : α → EvalM β}
    (h : Runs R A (k (f m.store)) (l (f m.store)) m P) :
    Runs R A (askStore f >>= k) (askStore f >>= l) m P := h

/-- Something new in the store. -/
theorem allocate {f : Store → Nat × Store} {P : Nat → Machine → Prop}
    (he : m.store.Extends (f m.store).2) (hs : (f m.store).2.Sound R m.globals)
    (hP : P (f m.store).1 { m with store := (f m.store).2 }) :
    Runs R A (allocate f) (LoxLang.allocate f) m P := of_ok rfl rfl (.store he hs) hP

/-- A change of the store. -/
theorem changeStore {f : Store → Store} {P : Unit → Machine → Prop}
    (he : m.store.Extends (f m.store)) (hs : (f m.store).Sound R m.globals)
    (hP : P () { m with store := f m.store }) :
    Runs R A (changeStore f) (LoxLang.changeStore f) m P := of_ok rfl rfl (.store he hs) hP

/-- An action in another frame. -/
theorem inFrame {f : FrameId}
    (h : Runs R A x y { m with current := f } fun a m' => Q a { m' with current := m.current }) :
    Runs R A (inFrame f x) (LoxLang.inFrame f y) m Q := by
  obtain ⟨heq, h₂⟩ := h
  -- the action did not change the frame it ran in, so nothing but that frame is put back
  have hback : ∀ m', Leads R { m with current := f } m' →
      Leads R m { m' with current := m.current } := fun m' hl =>
    ⟨hl.grown, hl.sound, rfl, hl.globals_eq, hl.distances_eq⟩
  refine ⟨by rw [inFrame_eq, inFrame_eq, heq], ?_⟩
  rw [inFrame_eq]
  cases hx : x { m with current := f } with
  | ok a m' =>
    rw [hx] at h₂
    exact ⟨hback m' h₂.1, h₂.2⟩
  | error e m' =>
    rw [hx] at h₂
    exact ⟨hback m' h₂.1, h₂.2⟩

/-- Actions for the elements of a list, one after the other. -/
theorem mapM {γ : Type} {k l : γ → EvalM α} {S : Machine → α → Prop} (xs : List γ)
    (hkeep : ∀ {m m' a}, Leads R m m' → S m a → S m' a) (hm : m.store.Sound R m.globals)
    (h : ∀ c ∈ xs, ∀ m', Leads R m m' → Runs R A (k c) (l c) m' fun a m'' => S m'' a) :
    Runs R A (xs.mapM k) (xs.mapM l) m fun as m' => ∀ a ∈ as, S m' a := by
  induction xs generalizing m with
  | nil =>
    rw [List.mapM_nil, List.mapM_nil]
    exact pure hm fun a ha => absurd ha List.not_mem_nil
  | cons c xs ih =>
    rw [List.mapM_cons, List.mapM_cons]
    refine (h c List.mem_cons_self m (.refl hm)).bind fun a m₁ h₁ ha => ?_
    refine (ih h₁.sound fun c' hc' m' h' =>
      h c' (List.mem_cons_of_mem c hc') m' (h₁.trans h')).bind fun as m₂ h₂ has => ?_
    refine pure h₂.sound fun b hb => ?_
    rcases List.mem_cons.mp hb with rfl | hb
    · exact hkeep h₂ ha
    · exact has b hb

end Runs

end LoxLang
