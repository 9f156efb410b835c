import LoxLang.Proofs.Machine.Running

/-!
# What running does to any machine

Some things hold of every action of a running program, whatever the machine is and however
the action ends.  The store grows, and the current frame, the global frame and the distances
are those from before.  A frame that was there has a name without a value only if it had one
before, or if the action is a statement in that very frame which declares the name without a
value.  And a name that is not there is missed by a look-up, not by anything else.

## Main definitions

* `Changes` — how an action changes a machine.
* `Does` — what an action does to every machine.
* `EndsIn` — the machine that an action ends with.
* `Stmt.bare` — the names that a statement declares without a value in its own frame.
* `Traced` — the faults that are allowed to arise from a way of looking up names.

## Main results

* `Traced.evaluates` — evaluation does nothing else, to any depth.
* `Traced.runProgram_does` — neither does running a program.
-/

namespace LoxLang

/-- How an action changes a machine.  The names that it `may` leave without a value are
given by the frame in which it runs, their own frame and themselves. -/
structure Changes (may : FrameId → FrameId → String → Prop) (m m' : Machine) : Prop where
  /-- The store grows. -/
  grown : m.store.Extends m'.store
  /-- The current frame is the same. -/
  current_eq : m'.current = m.current
  /-- The global frame is the same. -/
  globals_eq : m'.globals = m.globals
  /-- The distances are the same. -/
  distances_eq : m'.distances = m.distances
  /-- Names without a value had none before, or may have none, or are in a new frame. -/
  slots : ∀ {f : FrameId} {x : String}, m'.store.slot? f x = some none →
    m.store.slot? f x = some none ∨ may m.current f x ∨ m.store.frames.size ≤ f

/-- What an action does to every machine; a fault is one of `A`. -/
def Does {α : Type} (A : Fault → Prop) (may : FrameId → FrameId → String → Prop)
    (x : EvalM α) : Prop :=
  ∀ m, match x m with
    | .ok _ m' => Changes may m m'
    | .error f m' => Changes may m m' ∧ A f

/-- An action on one machine ends with another one, with a result or with a fault. -/
def EndsIn {α : Type} (x : EvalM α) (m m' : Machine) : Prop :=
  (∃ a, x m = .ok a m') ∨ ∃ f, x m = .error f m'

/-- No name is left without a value. -/
def nowhere (_ _ : FrameId) (_ : String) : Prop := False

/-- Some names are left without a value in the frame in which an action runs. -/
def here (names : List String) (current f : FrameId) (x : String) : Prop :=
  f = current ∧ x ∈ names

/-- Names are left without a value in one frame only. -/
def within (g : FrameId) (_ f : FrameId) (_ : String) : Prop := f = g

variable {A : Fault → Prop} {may may' : FrameId → FrameId → String → Prop}
  {m m' m'' : Machine} {α β : Type}

/-! ### Changes -/

/-- No frame is lost. -/
theorem Store.Extends.size_le {s s' : Store} (h : s.Extends s') :
    s.frames.size ≤ s'.frames.size := by
  refine Nat.le_of_not_lt fun hlt => ?_
  have hlast : s.frames[s'.frames.size]? = some (s.frames[s'.frames.size]) :=
    Array.getElem?_eq_getElem hlt
  obtain ⟨fr', hfr', -⟩ := h.frames hlast
  exact Nat.lt_irrefl _ (Array.getElem?_eq_some_iff.mp hfr').1

namespace Changes

theorem refl (m : Machine) : Changes may m m := ⟨.refl _, rfl, rfl, rfl, fun h => .inl h⟩

theorem trans (h : Changes may m m') (h' : Changes may m' m'') : Changes may m m'' where
  grown := h.grown.trans h'.grown
  current_eq := h'.current_eq.trans h.current_eq
  globals_eq := h'.globals_eq.trans h.globals_eq
  distances_eq := h'.distances_eq.trans h.distances_eq
  slots {f x} hnone := by
    rcases h'.slots hnone with hnone | hmay | hnew
    · exact h.slots hnone
    · rw [h.current_eq] at hmay
      exact .inr (.inl hmay)
    · -- what is new to the second change is new to both
      exact .inr (.inr (Nat.le_trans h.grown.size_le hnew))

theorem mono (h : Changes may m m') (himp : ∀ c f x, may c f x → may' c f x) :
    Changes may' m m' :=
  { h with
    slots := fun hnone => (h.slots hnone).imp_right (Or.imp_left (himp _ _ _)) }

/-- A change of the store alone that leaves no name without a value. -/
theorem store {s : Store} (he : m.store.Extends s)
    (hs : ∀ f x, s.slot? f x = some none → m.store.slot? f x = some none) :
    Changes may m { m with store := s } :=
  ⟨he, rfl, rfl, rfl, fun h => .inl (hs _ _ h)⟩

end Changes

/-- What a frame holds after a name was bound. -/
theorem Store.slot?_define (s : Store) (f g : FrameId) (x y : String) (slot : Slot) :
    (s.define f x slot).slot? g y
      = if f = g ∧ x = y then s.frames[g]?.map fun _ => slot else s.slot? g y := by
  simp only [Store.slot?, Store.define, Array.getElem?_modify]
  by_cases hf : f = g
  · cases hfr : s.frames[g]? with
    | none => simp [hf]
    | some fr =>
      simp only [hf, if_pos, Option.map_some, Option.bind_eq_bind, Option.bind_some,
        Table.find?_insert, true_and]
  · simp [hf]

/-- A new frame has no names. -/
theorem Store.slot?_newFrame (s : Store) (site : Site) (parent : Option FrameId) (f : FrameId)
    (x : String) : (s.newFrame site parent).2.slot? f x = s.slot? f x := by
  simp only [Store.slot?, Store.newFrame, Array.getElem?_push]
  split
  · next h =>
    rw [h, Array.getElem?_eq_none (Nat.le_refl _)]
    rfl
  · rfl

/-- Binding a name to a value leaves no name without one. -/
theorem Store.slot?_of_define {s : Store} {f g : FrameId} {x y : String} {v : Value}
    (h : (s.define f x (some v)).slot? g y = some none) : s.slot? g y = some none := by
  rw [Store.slot?_define] at h
  split at h
  · obtain ⟨fr, -, hv⟩ := Option.map_eq_some_iff.mp h
    cases hv
  · exact h

/-- Neither does binding a method. -/
theorem Store.slot?_of_bind {s : Store} {c : Closure} {receiver : Value} {f : FrameId} {x : String}
    (h : (s.bind c receiver).2.slot? f x = some none) : s.slot? f x = some none := by
  have hdefine := Store.slot?_of_define
    (s := (s.newFrame c.home (some c.frame)).2) (f := s.frames.size) (x := "this") (v := receiver) h
  rwa [Store.slot?_newFrame] at hdefine

/-! ### Actions -/

namespace Does

variable {x : EvalM α}

theorem changes (h : Does A may x) (he : EndsIn x m m') : Changes may m m' := by
  have hm := h m
  rcases he with ⟨a, ha⟩ | ⟨f, hf⟩
  · rw [ha] at hm
    exact hm
  · rw [hf] at hm
    exact hm.1

theorem mono (h : Does A may x) (himp : ∀ c f y, may c f y → may' c f y) : Does A may' x := by
  intro m
  have hm := h m
  cases hx : x m with
  | ok a m' =>
    rw [hx] at hm
    exact hm.mono himp
  | error f m' =>
    rw [hx] at hm
    exact ⟨hm.1.mono himp, hm.2⟩

/-- What leaves no name without a value anywhere. -/
theorem anywhere (h : Does A nowhere x) : Does A may x := h.mono fun _ _ _ h => h.elim

theorem pure (a : α) : Does A may (Pure.pure a : EvalM α) := fun m => .refl m

theorem throw {f : Fault} (hf : A f) : Does A may (MonadExcept.throw f : EvalM α) :=
  fun m => ⟨.refl m, hf⟩

theorem ofExcept {r : Except Fault α} (h : ∀ f, r = .error f → A f) :
    Does A may (ofExcept r) := by
  cases r with
  | ok a => exact pure a
  | error f => exact throw (h f rfl)

/-- Actions that follow each other. -/
theorem bind {k : α → EvalM β} (hx : Does A may x) (hk : ∀ a, Does A may (k a)) :
    Does A may (x >>= k) := by
  intro m
  have h := hx m
  cases hm : x m with
  | error f m' =>
    rw [hm] at h
    have hbind : (x >>= k) m = .error f m' := by simp only [Bind.bind, EStateM.bind, hm]
    rw [hbind]
    exact h
  | ok a m' =>
    rw [hm] at h
    have hbind : (x >>= k) m = k a m' := by simp only [Bind.bind, EStateM.bind, hm]
    have h' := hk a m'
    rw [hbind]
    cases hr : k a m' with
    | ok b m'' =>
      rw [hr] at h'
      exact h.trans h'
    | error f m'' =>
      rw [hr] at h'
      exact ⟨h.trans h'.1, h'.2⟩

theorem get {k : Machine → EvalM β} (hk : ∀ m, Does A may (k m)) :
    Does A may (MonadState.get >>= k) := fun m => hk m m

theorem ask (f : Store → α) : Does A may (askStore f) := fun m => .refl m

theorem changeStore {f : Store → Store} (he : ∀ s : Store, s.Extends (f s))
    (hs : ∀ (s : Store) g y, (f s).slot? g y = some none → s.slot? g y = some none) :
    Does A may (changeStore f) := fun m => .store (he m.store) (hs m.store)

theorem allocate {f : Store → Nat × Store} (he : ∀ s : Store, s.Extends (f s).2)
    (hs : ∀ (s : Store) g y, (f s).2.slot? g y = some none → s.slot? g y = some none) :
    Does A may (allocate f) := fun m => .store (he m.store) (hs m.store)

theorem printLine (text : String) : Does A may (printLine text) :=
  fun _ => ⟨.refl _, rfl, rfl, rfl, fun h => .inl h⟩

theorem readClock : Does A may readClock :=
  fun _ => ⟨.refl _, rfl, rfl, rfl, fun h => .inl h⟩

theorem define (f : FrameId) (y : String) (v : Value) :
    Does A may (LoxLang.changeStore fun s => s.define f y (some v)) :=
  changeStore (fun s => s.extends_define f y (some v)) fun _ _ _ h => Store.slot?_of_define h

theorem newClosure (c : Closure) : Does A may (LoxLang.allocate fun s => s.newClosure c) :=
  allocate (fun s => s.extends_newClosure c) fun _ _ _ h => h

theorem bindMethod (c : Closure) (receiver : Value) :
    Does A may (LoxLang.allocate fun s => s.bind c receiver) :=
  allocate (fun s => s.extends_bind c receiver) fun _ _ _ h => Store.slot?_of_bind h

/-- A name that is bound to a value in the current frame. -/
theorem defineHere (y : String) (v : Value) : Does A may (defineHere y (some v)) :=
  fun m => .store (m.store.extends_define _ _ _) fun _ _ h => Store.slot?_of_define h

/-- A name that is left without a value in the current frame. -/
theorem defineHere_none (y : String) : Does A (here [y]) (LoxLang.defineHere y none) := by
  intro m
  refine ⟨m.store.extends_define _ _ _, rfl, rfl, rfl, fun {f z} h => ?_⟩
  rw [Store.slot?_define] at h
  split at h
  · next heq => exact .inr (.inl ⟨heq.1.symm, by rw [heq.2]; exact List.mem_singleton_self z⟩)
  · exact .inl h

/-- An action in another frame. -/
theorem inFrame (f : FrameId) (h : Does A may x) :
    Does A (fun _ => may f) (LoxLang.inFrame f x) := by
  intro m
  -- what may be left without a value is told by the frame in which the action runs
  have hback : ∀ m', Changes may { m with current := f } m' →
      Changes (fun _ => may f) m { m' with current := m.current } := fun m' hc =>
    ⟨hc.grown, rfl, hc.globals_eq, hc.distances_eq, hc.slots⟩
  have hm := h { m with current := f }
  rw [inFrame_eq]
  cases hx : x { m with current := f } with
  | ok a m' =>
    rw [hx] at hm
    exact hback m' hm
  | error e m' =>
    rw [hx] at hm
    exact ⟨hback m' hm.1, hm.2⟩

/-- What is left without a value in a new frame was not there before. -/
theorem newFrame {site : Site} {parent : Option FrameId} {k : FrameId → EvalM β}
    (hk : ∀ f, Does A (LoxLang.within f) (k f)) :
    Does A nowhere ((LoxLang.allocate fun s => s.newFrame site parent) >>= k) := by
  intro m
  let m₁ : Machine := { m with store := (m.store.newFrame site parent).2 }
  have hnew : Changes nowhere m m₁ := .store (m.store.extends_newFrame site parent) fun f x h =>
    by rwa [Store.slot?_newFrame] at h
  have hall : ∀ m', Changes (LoxLang.within m.store.frames.size) m₁ m' → Changes nowhere m m' := by
    intro m' hc
    refine ⟨hnew.grown.trans hc.grown, hc.current_eq, hc.globals_eq, hc.distances_eq, ?_⟩
    intro f x hnone
    -- the new frame has the first index that was free, and all later ones are greater
    rcases hc.slots hnone with hnone | hmay | hlater
    · exact hnew.slots hnone
    · exact .inr (.inr (Nat.le_of_eq hmay.symm))
    · exact .inr (.inr (Nat.le_trans hnew.grown.size_le hlater))
  have hm := hk m.store.frames.size m₁
  show match k m.store.frames.size m₁ with
    | .ok _ m' => Changes nowhere m m'
    | .error f m' => Changes nowhere m m' ∧ A f
  cases hr : k m.store.frames.size m₁ with
  | ok a m' =>
    rw [hr] at hm
    exact hall m' hm
  | error f m' =>
    rw [hr] at hm
    exact ⟨hall m' hm.1, hm.2⟩

theorem mapM {γ : Type} {k : γ → EvalM α} (hk : ∀ c, Does A may (k c)) (cs : List γ) :
    Does A may (cs.mapM k) := by
  induction cs with
  | nil =>
    rw [List.mapM_nil]
    exact pure []
  | cons c cs ih =>
    rw [List.mapM_cons]
    exact (hk c).bind fun a => ih.bind fun as => pure (a :: as)

end Does

/-! ### The parts of a running program -/

/-- The names that a statement declares without a value in the frame in which it runs. -/
def Stmt.bare : Stmt → List String
  | .var name none => [name.lexeme]
  | .ifElse _ t none => t.bare
  | .ifElse _ t (some e) => t.bare ++ e.bare
  | .while _ body _ => body.bare
  | _ => []

/-- Every fault is allowed but those that are due to a missing name, which arise from looking
it up. -/
structure Traced (A : Fault → Prop) (n : Naming) : Prop where
  value : ∀ {m : Machine} {t : Token} {f : Fault}, n.value m t = .error f → A f
  target : ∀ {m : Machine} {t : Token} {f : Fault}, n.target m t = .error f → A f
  other : ∀ {f : Fault}, (∀ t, f ≠ .at .undefinedVariable t) → A f

/-- Operators miss no names. -/
theorem ne_of_applyUnary {operator : Token} {v : Value} {f : Fault}
    (h : applyUnary operator v = .error f) (t : Token) : f ≠ .at .undefinedVariable t := by
  rintro rfl
  unfold applyUnary at h
  split at h
  · cases h
  · split at h <;> cases h

theorem ne_of_applyBinary {operator : Token} {v w : Value} {f : Fault}
    (h : applyBinary operator v w = .error f) (t : Token) : f ≠ .at .undefinedVariable t := by
  rintro rfl
  unfold applyBinary addValues applyNumeric at h
  split at h
  · cases h
  · cases h
  · cases h
  · split at h <;> cases h
  · split at h
    · split at h <;> cases h
    · cases h

/-- If faults do not matter, then neither does how names are looked up. -/
theorem Traced.any (n : Naming) : Traced (fun _ => True) n :=
  ⟨fun _ => trivial, fun _ => trivial, fun _ => trivial⟩

section Parts

variable {n : Naming} {call : Invoker} {run : Stmt → EvalM Completion}

theorem Traced.throws (h : Traced A n) {f : Fault} (hf : ∀ t, f ≠ .at .undefinedVariable t) :
    Does A may (MonadExcept.throw f : EvalM α) := .throw (h.other hf)

theorem Traced.fails (h : Traced A n) {cause : RuntimeCause} (hc : cause ≠ .undefinedVariable)
    (t : Token) : Does A may (failAt cause t : EvalM α) :=
  h.throws fun t' heq => by
    cases heq
    exact hc rfl

theorem Traced.readName_does (h : Traced A n) (t : Token) : Does A may (readName n t) :=
  .get fun _ => .ofExcept fun _ hf => h.value hf

theorem Traced.assignName_does (h : Traced A n) (t : Token) (v : Value) :
    Does A may (assignName n t v) :=
  .get fun _ => (Does.ofExcept fun _ hf => h.target hf).bind fun _ => .define _ _ _

theorem construct_does (hcall : ∀ c vs, Does A may (call c vs)) (k : ClassId) (vs : List Value) :
    Does A may (construct call k vs) := by
  refine (Does.allocate (fun s => s.extends_newObject k) fun _ _ _ h => h).bind fun o =>
    (Does.ask _).bind fun initializer => ?_
  cases initializer with
  | none => exact .pure _
  | some initializer =>
    exact (Does.bindMethod _ _).bind fun bound => (hcall bound vs).bind fun _ => .pure _

theorem Traced.callNative_does (h : Traced A n) (i : NativeId) : Does A may (callNative i) := by
  refine (Does.ask _).bind fun native => ?_
  cases native with
  | none => exact h.throws fun t heq => by cases heq
  | some native =>
    cases haction : native.action with
    | clock => simpa only [haction] using Does.readClock
    | constant v => simpa only [haction] using Does.pure v

theorem Traced.apply_does (h : Traced A n) (hcall : ∀ c vs, Does A may (call c vs))
    (callee : Value) (vs : List Value) : Does A may (apply call callee vs) := by
  cases callee with
  | closure c => exact hcall c vs
  | native i => exact h.callNative_does i
  | classRef k => exact construct_does hcall k vs
  | nil | bool | number | text | object => exact h.throws fun t heq => by cases heq

theorem Traced.getProperty_does (h : Traced A n) (hcall : ∀ c vs, Does A may (call c vs))
    (v : Value) (name : Token) : Does A may (getProperty call v name) := by
  cases v with
  | object o =>
    refine (Does.ask _).bind fun field => ?_
    cases field with
    | some v => exact .pure v
    | none =>
      refine (Does.ask _).bind fun method => ?_
      cases method with
      | none => exact h.fails (by simp) name
      | some method =>
        refine (Does.bindMethod _ _).bind fun bound => ?_
        split
        · exact hcall bound []
        · exact .pure _
  | classRef k =>
    refine (Does.ask _).bind fun static => ?_
    cases static with
    | some v => exact .pure v
    | none => exact (Does.ask _).bind fun _ => h.fails (by simp) name
  | nil | bool | number | text | closure | native => exact h.fails (by simp) name

theorem Traced.setProperty_does (h : Traced A n) {value : EvalM Value}
    (hvalue : Does A may value) (v : Value) (name : Token) :
    Does A may (setProperty v name value) := by
  cases v with
  | object o =>
    refine hvalue.bind fun w => Does.bind ?_ fun _ => .pure w
    exact .changeStore (fun s => s.extends_setField o name.lexeme w) fun _ _ _ h => h
  | classRef k =>
    refine hvalue.bind fun w => Does.bind ?_ fun _ => .pure w
    exact .changeStore (fun s => s.extends_setStatic k name.lexeme w) fun _ _ _ h => h
  | nil | bool | number | text | closure | native => exact h.fails (by simp) name

theorem allocateAll_does (closure : FunctionDecl → Closure) (fs : List FunctionDecl)
    (made : Table String ClosureId) : Does A may (allocateAll closure fs made) := by
  induction fs generalizing made with
  | nil => exact .pure made
  | cons f fs ih => exact (Does.newClosure _).bind fun c => ih _

theorem declareClass_does (name : Token) (superclass : Option ClassId)
    (methods statics : List FunctionDecl) :
    Does A may (declareClass name superclass methods statics) := by
  refine .get fun m => (allocateAll_does _ methods _).bind fun own =>
    (allocateAll_does _ statics _).bind fun values => ?_
  refine (Does.allocate (fun s => s.extends_newClass _) fun _ _ _ h => h).bind fun k => ?_
  exact .defineHere _ _

theorem Traced.readSuperclass_does (h : Traced A n) (superclass : Option Token) :
    Does A may (readSuperclass n superclass) := by
  cases superclass with
  | none => exact .pure _
  | some t =>
    refine (h.readName_does t).bind fun v => ?_
    cases v with
    | classRef k => exact .pure _
    | nil | bool | number | text | closure | native | object => exact h.fails (by simp) t

/-- Statements in order leave those names without a value that one of them does. -/
theorem runAll_does (hrun : ∀ s, Does A (here s.bare) (run s)) (ss : List Stmt) :
    Does A (here (ss.flatMap Stmt.bare)) (runAll run ss) := by
  induction ss with
  | nil => exact .pure _
  | cons s ss ih =>
    have hs : Does A (here ((s :: ss).flatMap Stmt.bare)) (run s) :=
      (hrun s).mono fun c f x hx => ⟨hx.1, List.mem_append_left _ hx.2⟩
    refine hs.bind fun c => ?_
    cases c with
    | normal => exact ih.mono fun c f x hx => ⟨hx.1, List.mem_append_right _ hx.2⟩
    | returned | broke | continued => exact .pure _

theorem Traced.repeatWhile_does (h : Traced A n) {condition : EvalM Bool}
    {round : EvalM Completion} {increment : EvalM Unit} (hcondition : Does A may condition)
    (hround : Does A may round) (hincrement : Does A may increment) (rounds : Nat) :
    Does A may (repeatWhile condition round increment rounds) := by
  induction rounds with
  | zero => exact h.throws fun t heq => by cases heq
  | succ rounds ih =>
    refine hcondition.bind fun b => ?_
    cases b with
    | false => exact .pure _
    | true =>
      refine hround.bind fun c => ?_
      cases c with
      | broke | returned => exact .pure _
      | normal | continued => exact hincrement.bind fun _ => ih

theorem bindParams_does (f : FrameId) (params : List Token) (vs : List Value) :
    Does A may (bindParams f params vs) := by
  induction params generalizing vs with
  | nil => exact .pure ()
  | cons t params ih =>
    cases vs with
    | nil => exact .pure ()
    | cons v vs => exact (Does.define _ _ _).bind fun _ => ih vs

theorem Traced.callResult_does (h : Traced A n) (closure : Closure) (c : Completion) :
    Does A may (callResult closure c) := by
  have hend : ∀ v : Value, Does A may (callValue closure v) := by
    intro v
    unfold callValue
    split
    · refine (Does.ask _).bind fun this => ?_
      split
      · exact .pure _
      · exact h.throws fun t heq => by cases heq
    · exact .pure v
  cases c with
  | normal =>
    rw [callResult_normal]
    exact hend .nil
  | returned keyword v =>
    rw [callResult_returned]
    exact hend v
  | broke | continued => exact h.fails (by simp) _

/-- A body runs in a frame of its own. -/
theorem runAll_within (hrun : ∀ s, Does A (here s.bare) (run s)) (ss : List Stmt) (f : FrameId) :
    Does A (within f) (inFrame f (runAll run ss)) :=
  ((runAll_does hrun ss).inFrame f).mono fun _ _ _ hx => hx.1

theorem Traced.enter_does (h : Traced A n) (hrun : ∀ s, Does A (here s.bare) (run s))
    (closure : Closure) (vs : List Value) : Does A nowhere (enter run closure vs) :=
  .newFrame fun f => (bindParams_does f closure.params vs).bind fun _ =>
    (runAll_within hrun closure.body f).bind fun c => h.callResult_does closure c

end Parts

/-! ### Programs -/

variable {limits : Limits} {d : Nat}

/-- What evaluation to some depth does. -/
structure EvaluatesWithin (A : Fault → Prop) (limits : Limits) (d : Nat) : Prop where
  eval : ∀ e, Does A nowhere (eval limits d e)
  exec : ∀ s, Does A (here s.bare) (exec limits d s)
  invoke : ∀ c vs, Does A nowhere (invoke limits d c vs)

theorem EvaluatesWithin.eval_succ (h : Traced A limits.naming)
    (ih : EvaluatesWithin A limits d) (e : Expr) :
    Does A nowhere (LoxLang.eval limits (d + 1) e) := by
  cases e with
  | literal value => exact .pure _
  | grouping e => exact ih.eval e
  | unary operator e =>
    exact (ih.eval e).bind fun v => .ofExcept fun f hf => h.other (ne_of_applyUnary hf)
  | binary l operator r =>
    exact (ih.eval l).bind fun v => (ih.eval r).bind fun w => .ofExcept fun f hf =>
      h.other (ne_of_applyBinary hf)
  | logical l operator r =>
    refine (ih.eval l).bind fun v => ?_
    split
    · exact .pure v
    · exact ih.eval r
  | conditional c t e =>
    refine (ih.eval c).bind fun v => ?_
    split
    · exact ih.eval t
    · exact ih.eval e
  | assign name e =>
    exact (ih.eval e).bind fun v => (h.assignName_does name v).bind fun _ => .pure v
  | «variable» name => exact h.readName_does name
  | call callee paren arguments =>
    refine (ih.eval callee).bind fun f => (Does.mapM ih.eval arguments).bind fun vs =>
      (Does.ask _).bind fun arity => ?_
    cases arity with
    | none => exact h.fails (by simp) paren
    | some k =>
      dsimp only
      split
      · exact h.apply_does ih.invoke f vs
      · exact h.fails (by simp) paren
  | get object name => exact (ih.eval object).bind fun v => h.getProperty_does ih.invoke v name
  | set object name e => exact (ih.eval object).bind fun v => h.setProperty_does (ih.eval e) v name
  | this keyword => exact h.readName_does keyword
  | lambda keyword params body =>
    exact .get fun _ => (Does.newClosure _).bind fun _ => .pure _

theorem EvaluatesWithin.exec_succ (h : Traced A limits.naming)
    (ih : EvaluatesWithin A limits d) (s : Stmt) :
    Does A (here s.bare) (LoxLang.exec limits (d + 1) s) := by
  have heval : ∀ e, Does A (here s.bare) (LoxLang.eval limits d e) := fun e => (ih.eval e).anywhere
  cases s with
  | expression e => exact (heval e).bind fun _ => .pure _
  | print e =>
    exact (heval e).bind fun _ => (Does.ask _).bind fun _ => (Does.printLine _).bind
      fun _ => .pure _
  | var name value =>
    cases value with
    | none => exact (Does.defineHere_none name.lexeme).bind fun _ => .pure _
    | some e => exact (heval e).bind fun _ => (Does.defineHere _ _).bind fun _ => .pure _
  | block position body =>
    refine .get fun m => Does.anywhere (.newFrame fun f => ?_)
    exact runAll_within ih.exec body f
  | ifElse c t e =>
    refine (heval c).bind fun v => ?_
    cases e with
    | none =>
      split
      · exact ih.exec t
      · exact .pure _
    | some e =>
      split
      · exact (ih.exec t).mono fun c f x hx => ⟨hx.1, List.mem_append_left _ hx.2⟩
      · exact (ih.exec e).mono fun c f x hx => ⟨hx.1, List.mem_append_right _ hx.2⟩
  | «while» c body increment =>
    refine h.repeatWhile_does ((heval c).bind fun _ => .pure _) (ih.exec body) ?_ limits.rounds
    cases increment with
    | none => exact .pure ()
    | some e => exact (heval e).bind fun _ => .pure _
  | «break» | «continue» => exact .pure _
  | function f =>
    exact .get fun _ => (Does.newClosure _).bind fun _ => (Does.defineHere _ _).bind fun _ =>
      .pure _
  | «return» keyword value =>
    cases value with
    | none => exact .pure _
    | some e => exact (heval e).bind fun _ => .pure _
  | classDecl name superclass methods statics =>
    exact (h.readSuperclass_does superclass).bind fun parent =>
      (declareClass_does name parent methods statics).bind fun _ => .pure _

theorem EvaluatesWithin.invoke_succ (h : Traced A limits.naming)
    (ih : EvaluatesWithin A limits d) (c : ClosureId) (vs : List Value) :
    Does A nowhere (LoxLang.invoke limits (d + 1) c vs) := by
  refine (Does.ask _).bind fun closure => ?_
  cases closure with
  | none => exact h.throws fun t heq => by cases heq
  | some closure => exact h.enter_does ih.exec closure vs

/-- Evaluation to any depth does nothing else. -/
theorem Traced.evaluates (h : Traced A limits.naming) (d : Nat) : EvaluatesWithin A limits d := by
  induction d with
  | zero =>
    have hoverflow : A .overflow := h.other fun t heq => by cases heq
    exact ⟨fun _ => .throw hoverflow, fun _ => .throw hoverflow, fun _ _ => .throw hoverflow⟩
  | succ d ih => exact ⟨ih.eval_succ h, ih.exec_succ h, ih.invoke_succ h⟩

/-- Neither does running a program. -/
theorem Traced.runProgram_does (h : Traced A limits.naming) (program : Program) :
    Does A (here (program.flatMap Stmt.bare)) (runProgram limits program) := by
  induction program with
  | nil => exact .pure ()
  | cons s ss ih =>
    have hs : Does A (here (List.flatMap Stmt.bare (s :: ss))) (exec limits limits.depth s) :=
      ((h.evaluates limits.depth).exec s).mono fun c f x hx =>
        ⟨hx.1, List.mem_append_left _ hx.2⟩
    refine hs.bind fun c => ?_
    cases c with
    | normal => exact ih.mono fun c f x hx => ⟨hx.1, List.mem_append_right _ hx.2⟩
    | returned | broke | continued => exact h.fails (by simp) _

end LoxLang
