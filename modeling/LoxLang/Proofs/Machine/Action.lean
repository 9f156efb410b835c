import LoxLang.Proofs.Machine.Running

/-!
# What the parts of a running program do to the machine

Looking up names, calling values, binding methods, declaring classes, looping and entering
functions all keep a sound machine sound, provided that the statements and the closures they
are given do.  How deeply anything is nested plays no part here.

The statements are about pairs of actions, which look up names in two ways that agree
wherever a name occurs.

## Main definitions

* `Laws` — what rules for occurrences have to give.
* `Completion.Sound` — a statement ends in a way that fits its place.
* `Invokes`, `Executes` — closures may be called, and statements may be run.

## Main results

* `apply_runs`, `getProperty_runs`, `setProperty_runs` — what is done with values.
* `declareClass_runs` — declaring a class.
* `runAll_runs`, `repeatWhile_runs` — statements in order, and loops.
* `enter_runs` — calling a closure.
-/

namespace LoxLang

/-- The token that is blamed when something goes wrong where an item occurs. -/
def Item.token? : Item → Option Token
  | .name t => some t
  | .unary operator => some operator
  | .binary operator => some operator
  | .call paren => some paren
  | .property t => some t
  | _ => none

/-- A cause that is not a jump. -/
def RuntimeCause.IsPlain (cause : RuntimeCause) : Prop := cause ≠ .strayJump ∧ cause ≠ .strayReturn

/-- What rules for occurrences have to give: look-ups of names that agree and give sound
values, faults that are allowed, and jumps at their places. -/
structure Laws (R : Occurrence → Prop) (A : Fault → Prop) (D : Distances) (n n' : Naming) :
    Prop where
  /-- The value of a name. -/
  value : ∀ {m : Machine} {p : Place} {t : Token}, m.At R D p → R ⟨p, .name t⟩ →
    n'.value m t = n.value m t
      ∧ (∀ v, n.value m t = .ok v → m.Knows R v) ∧ ∀ f, n.value m t = .error f → A f
  /-- The frame of a name that is assigned to. -/
  target : ∀ {m : Machine} {p : Place} {t : Token}, m.At R D p → R ⟨p, .name t⟩ →
    n'.target m t = n.target m t ∧ ∀ f, n.target m t = .error f → A f
  /-- What goes wrong where something occurs may be blamed on it. -/
  blame : ∀ {o : Occurrence} {t : Token} {cause : RuntimeCause}, R o → o.item.token? = some t →
    cause.IsPlain → A (.at cause t)
  /-- An operator between operands gives an allowed fault, if any. -/
  binary : ∀ {p : Place} {operator : Token} {v w : Value} {f : Fault}, R ⟨p, .binary operator⟩ →
    applyBinary operator v w = .error f → A f
  /-- Nesting too deeply is allowed to fail. -/
  overflow : A .overflow
  /-- Looping for too long is allowed to fail. -/
  endless : A .endless
  /-- A `break` has a loop to leave. -/
  breaks : ∀ {p : Place} {keyword : Token}, R ⟨p, .break keyword⟩ → 0 < p.loops
  /-- A `continue` has a loop to go on with. -/
  continues : ∀ {p : Place} {keyword : Token}, R ⟨p, .continue keyword⟩ → 0 < p.loops
  /-- A `return` has a function to leave. -/
  returns : ∀ {p : Place} {keyword : Token}, R ⟨p, .return keyword⟩ → p.function.isSome

/-- A statement at a place ends in a way that fits the place. -/
def Completion.Sound (R : Occurrence → Prop) (p : Place) (m : Machine) : Completion → Prop
  | .normal => True
  | .returned _ v => p.function.isSome ∧ m.Knows R v
  | .broke _ => 0 < p.loops
  | .continued _ => 0 < p.loops

/-- A place where statements stand: not directly around the methods of a class. -/
def Place.Inside (p : Place) : Prop := ∀ k rest, p.sites ≠ .receiver k :: rest

/-- A closure may be called. -/
def Invokes (R : Occurrence → Prop) (A : Fault → Prop) (D : Distances) (call call' : Invoker) :
    Prop :=
  ∀ {m : Machine} {c : ClosureId} {vs : List Value}, m.Ok R D →
    m.store.Callable R m.globals c → (∀ v ∈ vs, m.Knows R v) →
    Runs R A (call c vs) (call' c vs) m fun v m' => m'.Knows R v

/-- A statement may be run. -/
def Executes (R : Occurrence → Prop) (A : Fault → Prop) (D : Distances)
    (run run' : Stmt → EvalM Completion) : Prop :=
  ∀ {m : Machine} {p : Place} {s : Stmt}, m.At R D p → p.Inside →
    (∀ o ∈ s.occurrences p, R o) → Runs R A (run s) (run' s) m fun c m' => c.Sound R p m'

variable {R : Occurrence → Prop} {A : Fault → Prop} {D : Distances} {n n' : Naming}
  {m m' : Machine} {p : Place} {call call' : Invoker} {run run' : Stmt → EvalM Completion}

/-- The frame of a place where statements stand is not around methods. -/
theorem Machine.At.site?_ne (h : m.At R D p) (hp : p.Inside) (k : Nat) :
    m.store.site? m.current ≠ some (.receiver k) := by
  intro hsite
  obtain ⟨site, rest, hsites⟩ := h.chained.exists_eq_cons
  have hchain := h.chained
  rw [hsites] at hchain
  rw [hchain.site?_eq] at hsite
  cases hsite
  exact hp k rest hsites

/-- A fault that is blamed on what occurs. -/
theorem Laws.failAt_runs {α : Type} {Q : α → Machine → Prop} (laws : Laws R A D n n')
    {o : Occurrence} {t : Token} {cause : RuntimeCause} (hm : m.Ok R D) (ho : R o)
    (ht : o.item.token? = some t) (hcause : cause.IsPlain) :
    Runs R A (failAt cause t) (failAt cause t) m Q :=
  Runs.throw hm.sound (laws.blame ho ht hcause)

/-! ### Operators -/

theorem knows_of_applyUnary {operator : Token} {v w : Value}
    (h : applyUnary operator v = .ok w) : m.Knows R w := by
  unfold applyUnary at h
  split at h
  · cases h
    trivial
  · split at h
    · cases h
      trivial
    · cases h

theorem error_of_applyUnary {operator : Token} {v : Value} {f : Fault}
    (h : applyUnary operator v = .error f) : f = .at .operandNotNumber operator := by
  unfold applyUnary at h
  split at h
  · cases h
  · split at h
    · cases h
    · cases h
      rfl

/-- The result of an operator is new, or it is the right operand. -/
theorem knows_of_applyBinary {operator : Token} {u v w : Value} (hv : m.Knows R v)
    (h : applyBinary operator u v = .ok w) : m.Knows R w := by
  unfold applyBinary addValues at h
  split at h
  · cases h
    exact hv
  · cases h
    trivial
  · cases h
    trivial
  · split at h <;> cases h <;> trivial
  · split at h
    · unfold applyNumeric at h
      split at h <;> cases h <;> trivial
    · cases h

/-! ### Names -/

theorem Laws.readName_runs (laws : Laws R A D n n') {t : Token} (hm : m.At R D p)
    (ht : R ⟨p, .name t⟩) :
    Runs R A (readName n t) (readName n' t) m fun v m' => m'.Knows R v := by
  obtain ⟨heq, hok, herror⟩ := laws.value hm ht
  unfold readName
  refine Runs.get ?_
  rw [heq]
  exact Runs.ofExcept hm.sound hok herror

theorem Laws.assignName_runs (laws : Laws R A D n n') {t : Token} {v : Value} (hm : m.At R D p)
    (ht : R ⟨p, .name t⟩) (hv : m.Knows R v) :
    Runs R A (assignName n t v) (assignName n' t v) m fun _ m' => m'.Knows R v := by
  obtain ⟨heq, herror⟩ := laws.target hm ht
  unfold assignName
  refine Runs.get ?_
  rw [heq]
  -- finding the frame does not change the machine
  refine (Runs.ofExcept (Q := fun _ m' => m' = m) hm.sound (fun _ _ => rfl) herror).bind ?_
  rintro f m₁ hl rfl
  have he := m₁.store.extends_define f t.lexeme (some v)
  refine Runs.changeStore he (hm.sound.define ?_ fun h => by cases h) (hv.mono he)
  intro w hw
  cases hw
  exact hv

/-- A name is bound in the current frame, to a sound value or to none. -/
theorem defineHere_runs {name : String} {slot : Slot} (hm : m.At R D p) (hp : p.Inside)
    (hslot : ∀ v, slot = some v → m.Knows R v) :
    Runs R A (defineHere name slot) (defineHere name slot) m fun _ _ => True :=
  Runs.of_ok rfl rfl
    (.store (m.store.extends_define _ _ _) (hm.sound.define hslot fun _ => hm.site?_ne hp)) trivial

theorem printLine_runs {text : String} (hm : m.Ok R D) :
    Runs R A (printLine text) (printLine text) m fun _ _ => True :=
  Runs.of_ok rfl rfl ⟨.refl _, hm.sound, rfl, rfl, rfl⟩ trivial

/-! ### Objects and classes -/

/-- Binding a method to a value makes a closure that can be called. -/
theorem bind_runs {c : ClosureId} {closure : Closure} {receiver : Value} (hm : m.Ok R D)
    (hc : m.store.IsMethod R m.globals c) (hclosure : m.store.closures[c]? = some closure)
    (hreceiver : m.Knows R receiver) :
    Runs R A (allocate fun s => s.bind closure receiver) (allocate fun s => s.bind closure receiver)
      m fun b m' => m'.store.Callable R m'.globals b := by
  obtain ⟨hsound, hcallable⟩ := hm.sound.bind hc hclosure hreceiver
  exact Runs.allocate (m.store.extends_bind closure receiver) hsound hcallable

theorem construct_runs (hcall : Invokes R A D call call') {k : ClassId} {vs : List Value}
    (hm : m.Ok R D) (hk : m.Knows R (.classRef k)) (hvs : ∀ v ∈ vs, m.Knows R v) :
    Runs R A (construct call k vs) (construct call' k vs) m fun v m' => m'.Knows R v := by
  obtain ⟨object, hk⟩ := hk
  unfold construct
  refine (Runs.allocate (P := fun o m' => m'.Knows R (.object o)) (m.store.extends_newObject k)
    (hm.sound.newObject hk) ⟨_, Array.getElem?_push_size⟩).bind fun o m₁ h₁ hobject => ?_
  refine Runs.ask ?_
  cases hinit : m₁.store.method? k "init" with
  | none => exact Runs.pure h₁.sound hobject
  | some c =>
    cases hclosure : m₁.store.closures[c]? with
    | none => simpa [hclosure] using Runs.pure h₁.sound hobject
    | some closure =>
      simp only [Option.bind_some, hclosure]
      refine (bind_runs (h₁.ok hm) (h₁.sound.method? hinit) hclosure hobject).bind
        fun b m₂ h₂ hb => ?_
      refine (hcall ((h₁.trans h₂).ok hm) hb fun v hv => (h₁.trans h₂).knows (hvs v hv)).bind
        fun _ m₃ h₃ _ => ?_
      exact Runs.pure h₃.sound ((h₂.trans h₃).knows hobject)

theorem callNative_runs {i : NativeId} (hm : m.Ok R D) (hi : m.Knows R (.native i)) :
    Runs R A (callNative i) (callNative i) m fun v m' => m'.Knows R v := by
  obtain ⟨native, hnative⟩ := hi
  unfold callNative
  refine Runs.ask ?_
  rw [hnative]
  cases haction : native.action with
  | clock =>
    simp only [haction]
    exact Runs.of_ok rfl rfl ⟨.refl _, hm.sound, rfl, rfl, rfl⟩ trivial
  | constant v =>
    simp only [haction]
    exact Runs.pure hm.sound (hm.sound.natives hnative haction)

/-- What has an arity can be called. -/
theorem apply_runs (hcall : Invokes R A D call call') {callee : Value} {vs : List Value}
    {arity : Int} (hm : m.Ok R D) (harity : m.store.arity? callee = some arity)
    (hcallee : m.Knows R callee) (hvs : ∀ v ∈ vs, m.Knows R v) :
    Runs R A (apply call callee vs) (apply call' callee vs) m fun v m' => m'.Knows R v := by
  cases callee with
  | closure c => exact hcall hm hcallee hvs
  | native i => exact callNative_runs hm hcallee
  | classRef k => exact construct_runs hcall hm hcallee hvs
  | nil | bool | number | text | object => simp [Store.arity?] at harity

theorem getFromObject_runs (laws : Laws R A D n n') (hcall : Invokes R A D call call')
    {o : ObjectId} {name : Token} (hm : m.Ok R D) (ho : m.Knows R (.object o))
    (hname : R ⟨p, .property name⟩) :
    Runs R A (getFromObject call o name) (getFromObject call' o name) m
      fun v m' => m'.Knows R v := by
  unfold getFromObject
  refine Runs.ask ?_
  cases hfield : m.store.field? o name.lexeme with
  | some v => exact Runs.pure hm.sound (hm.sound.field? hfield)
  | none =>
    refine Runs.ask ?_
    -- the method, if the object and its class are there and have one
    generalize hlookup : (do
      let x ← m.store.objects[o]?
      let c ← m.store.method? x.classId name.lexeme
      m.store.closures[c]?) = found
    cases found with
    | none => exact laws.failAt_runs hm hname rfl ⟨by simp, by simp⟩
    | some closure =>
      simp only [Option.bind_eq_bind, Option.bind_eq_some_iff] at hlookup
      obtain ⟨x, -, c, hmethod, hclosure⟩ := hlookup
      refine (bind_runs hm (hm.sound.method? hmethod) hclosure ho).bind fun b m₁ h₁ hb => ?_
      cases closure.isGetter with
      | true => exact hcall (h₁.ok hm) hb fun v hv => absurd hv List.not_mem_nil
      | false => exact Runs.pure h₁.sound hb

theorem getProperty_runs (laws : Laws R A D n n') (hcall : Invokes R A D call call')
    {v : Value} {name : Token} (hm : m.Ok R D) (hv : m.Knows R v)
    (hname : R ⟨p, .property name⟩) :
    Runs R A (getProperty call v name) (getProperty call' v name) m
      fun v m' => m'.Knows R v := by
  cases v with
  | object o => exact getFromObject_runs laws hcall hm hv hname
  | classRef k =>
    unfold getProperty getFromClass
    refine Runs.ask ?_
    cases hstatic : m.store.static? k name.lexeme with
    | some v => exact Runs.pure hm.sound (hm.sound.static? hstatic)
    | none => exact Runs.ask (laws.failAt_runs hm hname rfl ⟨by simp, by simp⟩)
  | nil | bool | number | text | closure | native =>
    exact laws.failAt_runs hm hname rfl ⟨by simp, by simp⟩

theorem setProperty_runs (laws : Laws R A D n n') {v : Value} {name : Token}
    {value value' : EvalM Value} (hm : m.Ok R D) (hname : R ⟨p, .property name⟩)
    (hvalue : Runs R A value value' m fun v m' => m'.Knows R v) :
    Runs R A (setProperty v name value) (setProperty v name value') m
      fun v m' => m'.Knows R v := by
  cases v with
  | object o =>
    refine hvalue.bind fun w m₁ h₁ hw => ?_
    have he := m₁.store.extends_setField o name.lexeme w
    refine (Runs.changeStore (P := fun _ m' => m'.Knows R w) he
      (h₁.sound.setField hw o name.lexeme) (hw.mono he)).bind fun _ m₂ h₂ hw₂ => ?_
    exact Runs.pure h₂.sound hw₂
  | classRef k =>
    refine hvalue.bind fun w m₁ h₁ hw => ?_
    have he := m₁.store.extends_setStatic k name.lexeme w
    refine (Runs.changeStore (P := fun _ m' => m'.Knows R w) he
      (h₁.sound.setStatic hw k name.lexeme) (hw.mono he)).bind fun _ m₂ h₂ hw₂ => ?_
    exact Runs.pure h₂.sound hw₂
  | nil | bool | number | text | closure | native =>
    exact laws.failAt_runs hm hname rfl ⟨by simp, by simp⟩

/-! ### Declarations -/

/-- A function that occurs at a place belongs into the chain of the place. -/
theorem FunctionDecl.closure_fits {f : FunctionDecl} (frame : FrameId)
    (hf : ∀ o ∈ f.occurrences p, R o) : (f.closure frame).Fits R p.sites := by
  cases f with
  | mk name params body =>
    exact ⟨⟨name.position, rfl⟩, fun o ho => hf o (List.mem_cons_of_mem _ ho)⟩

/-- New closures, listed by name; `S` is what is known of each. -/
theorem allocateAll_runs {closure : FunctionDecl → Closure} {S : Store → ClosureId → Prop}
    (hkeep : ∀ {s s' : Store} {c : ClosureId}, s.Extends s' → S s c → S s' c)
    (fs : List FunctionDecl) {made : Table String ClosureId} (hm : m.Ok R D)
    (hnew : ∀ f ∈ fs, ∀ m', Leads R m m' →
      S (m'.store.newClosure (closure f)).2 (m'.store.newClosure (closure f)).1)
    (hmade : ∀ name c, made.find? name = some c → S m.store c) :
    Runs R A (allocateAll closure fs made) (allocateAll closure fs made) m
      fun made' m' => ∀ name c, made'.find? name = some c → S m'.store c := by
  induction fs generalizing m made with
  | nil => exact Runs.pure hm.sound hmade
  | cons f fs ih =>
    rw [allocateAll]
    have he := m.store.extends_newClosure (closure f)
    refine (Runs.allocate (P := fun c m' => S m'.store c ∧ m.store.Extends m'.store) he
      (hm.sound.newClosure _) ⟨hnew f List.mem_cons_self m (.refl hm.sound), he⟩).bind
      fun c m₁ h₁ hc => ?_
    refine ih (h₁.ok hm) (fun f' hf' m' h' =>
      hnew f' (List.mem_cons_of_mem f hf') m' (h₁.trans h')) ?_
    intro name c' hc'
    rw [Table.find?_insert] at hc'
    split at hc'
    · cases hc'
      exact hc.1
    · exact hkeep hc.2 (hmade name c' hc')

/-- A new closure of a function that occurs at the current place can be called. -/
theorem callable_newClosure {closure : Closure} (hm : m.At R D p)
    (hframe : closure.frame = m.current) (hfits : closure.Fits R p.sites)
    (hinit : closure.isInitializer = false) :
    (m.store.newClosure closure).2.Callable R m.globals (m.store.newClosure closure).1 := by
  refine ⟨closure, p.sites, Array.getElem?_push_size, ?_, hfits, fun h => ?_⟩
  · rw [hframe]
    exact hm.chained.mono (m.store.extends_newClosure closure)
  · rw [hinit] at h
    cases h

/-- Making a closure of a function that occurs at the current place. -/
theorem newClosure_runs {closure : Closure} (hm : m.At R D p)
    (hframe : closure.frame = m.current) (hfits : closure.Fits R p.sites)
    (hinit : closure.isInitializer = false) :
    Runs R A (allocate fun s => s.newClosure closure) (allocate fun s => s.newClosure closure) m
      fun c m' => m'.store.Callable R m'.globals c :=
  Runs.allocate (m.store.extends_newClosure closure) (hm.sound.newClosure closure)
    (callable_newClosure hm hframe hfits hinit)

theorem declareClass_runs {name : Token} {superclass : Option ClassId}
    {methods statics : List FunctionDecl} (hm : m.At R D p) (hp : p.Inside)
    (hsuper : ∀ k, superclass = some k → m.Knows R (.classRef k))
    (hmethods : ∀ o ∈ functionsOccurrences methods (p.scope (.receiver name.position)), R o)
    (hstatics : ∀ o ∈ functionsOccurrences statics p, R o) :
    Runs R A (declareClass name superclass methods statics)
      (declareClass name superclass methods statics) m fun _ _ => True := by
  unfold declareClass
  refine Runs.get ?_
  refine (allocateAll_runs (S := fun s c => s.IsMethod R m.globals c)
    (fun he h => Store.IsMethod.mono h he) methods hm.toOk ?_ (fun name c h => by simp at h)).bind
    fun made m₁ h₁ hmade => ?_
  · -- methods get a frame for their receiver around them when they are bound
    intro f hf m' h'
    have hfits := f.closure_fits m.current fun o ho =>
      hmethods o (mem_functionsOccurrences.mpr ⟨f, hf, ho⟩)
    refine ⟨f.method m.current name, p.sites, name.position, Array.getElem?_push_size, ?_, rfl,
      ⟨hfits.site, hfits.body⟩⟩
    exact hm.chained.mono (h'.grown.trans (m'.store.extends_newClosure _))
  refine (allocateAll_runs (S := fun s c => s.Callable R m.globals c)
    (fun he h => Store.Callable.mono h he) statics (h₁.ok hm.toOk) ?_
    (fun name c h => by simp at h)).bind fun own m₂ h₂ hown => ?_
  · -- statics can be called as they are
    intro f hf m' h'
    have hat := (h₁.trans h').at hm
    rw [← (h₁.trans h').globals_eq]
    have hfits := f.closure_fits m.current fun o ho =>
      hstatics o (mem_functionsOccurrences.mpr ⟨f, hf, ho⟩)
    exact callable_newClosure hat (h₁.trans h').current_eq.symm hfits rfl
  have h₁₂ := h₁.trans h₂
  refine (Runs.allocate (P := fun k m' => m'.Knows R (.classRef k))
    (m₂.store.extends_newClass _) (h₂.sound.newClass ?_ ?_ ?_)
    ⟨_, Array.getElem?_push_size⟩).bind fun k m₃ h₃ hk => ?_
  · intro k hk
    exact h₁₂.knows (hsuper k hk)
  · intro name' c hc
    rw [h₁₂.globals_eq]
    exact (hmade name' c hc).mono h₂.grown
  · intro name' v hv
    rw [Table.find?, Table.search_map] at hv
    obtain ⟨c, hc, rfl⟩ := Option.map_eq_some_iff.mp hv
    show m₂.store.Callable R m₂.globals c
    rw [h₁₂.globals_eq]
    exact hown name' c hc
  · refine defineHere_runs ((h₁₂.trans h₃).at hm) hp fun v hv => ?_
    cases hv
    exact hk

theorem Laws.readSuperclass_runs (laws : Laws R A D n n') {superclass : Option Token}
    (hm : m.At R D p) (hname : ∀ t, superclass = some t → R ⟨p, .name t⟩) :
    Runs R A (readSuperclass n superclass) (readSuperclass n' superclass) m
      fun parent m' => ∀ k, parent = some k → m'.Knows R (.classRef k) := by
  cases superclass with
  | none => exact Runs.pure hm.sound fun k hk => by cases hk
  | some t =>
    refine (laws.readName_runs hm (hname t rfl)).bind fun v m₁ h₁ hv => ?_
    cases v with
    | classRef k =>
      refine Runs.pure h₁.sound fun k' hk' => ?_
      cases hk'
      exact hv
    | nil | bool | number | text | closure | native | object =>
      exact laws.failAt_runs (h₁.ok hm.toOk) (hname t rfl) rfl ⟨by simp, by simp⟩

/-! ### Statements in order, and loops -/

theorem runAll_runs (hrun : Executes R A D run run') (ss : List Stmt) (hm : m.At R D p)
    (hp : p.Inside) (hss : ∀ o ∈ stmtsOccurrences ss p, R o) :
    Runs R A (runAll run ss) (runAll run' ss) m fun c m' => c.Sound R p m' := by
  induction ss generalizing m with
  | nil => exact Runs.pure hm.sound trivial
  | cons s ss ih =>
    rw [runAll, runAll]
    refine (hrun hm hp fun o ho => hss o (List.mem_append_left _ ho)).bind fun c m₁ h₁ hc => ?_
    cases c with
    | normal => exact ih (h₁.at hm) fun o ho => hss o (List.mem_append_right _ ho)
    | returned | broke | continued => exact Runs.pure h₁.sound hc

/-- A loop at a place ends normally or by a return, if each of its rounds fits the place
in the loop. -/
theorem repeatWhile_runs {condition condition' : EvalM Bool} {round round' : EvalM Completion}
    {increment increment' : EvalM Unit}
    (hcondition : ∀ {m : Machine}, m.At R D p →
      Runs R A condition condition' m fun _ _ => True)
    (hround : ∀ {m : Machine}, m.At R D p →
      Runs R A round round' m fun c m' => c.Sound R p.loop m')
    (hincrement : ∀ {m : Machine}, m.At R D p →
      Runs R A increment increment' m fun _ _ => True)
    (hendless : A .endless) (rounds : Nat) (hm : m.At R D p) :
    Runs R A (repeatWhile condition round increment rounds)
      (repeatWhile condition' round' increment' rounds) m fun c m' => c.Sound R p m' := by
  induction rounds generalizing m with
  | zero => exact Runs.throw hm.sound hendless
  | succ rounds ih =>
    rw [repeatWhile, repeatWhile]
    refine (hcondition hm).bind fun b m₁ h₁ _ => ?_
    cases b with
    | false => exact Runs.pure h₁.sound trivial
    | true =>
      refine (hround (h₁.at hm)).bind fun c m₂ h₂ hc => ?_
      have h₁₂ := h₁.trans h₂
      cases c with
      | broke => exact Runs.pure h₂.sound trivial
      | returned keyword v => exact Runs.pure h₂.sound hc
      | normal | continued =>
        refine (hincrement (h₁₂.at hm)).bind fun _ m₃ h₃ _ => ?_
        exact ih ((h₁₂.trans h₃).at hm)

/-! ### Calls -/

theorem bindParams_runs {f : FrameId} (params : List Token) {vs : List Value} (hm : m.Ok R D)
    (hvs : ∀ v ∈ vs, m.Knows R v) :
    Runs R A (bindParams f params vs) (bindParams f params vs) m fun _ _ => True := by
  induction params generalizing m vs with
  | nil => exact Runs.pure hm.sound trivial
  | cons t params ih =>
    cases vs with
    | nil => exact Runs.pure hm.sound trivial
    | cons v vs =>
      rw [bindParams]
      refine (Runs.changeStore (P := fun _ _ => True) (m.store.extends_define _ _ _)
        (hm.sound.define ?_ fun h => by cases h) trivial).bind fun _ m₁ h₁ _ => ?_
      · intro w hw
        cases hw
        exact hvs v List.mem_cons_self
      · exact ih (h₁.ok hm) fun w hw => h₁.knows (hvs w (List.mem_cons_of_mem v hw))

/-- A call turns the end of its body into a value; no jump leaves the body. -/
theorem callResult_runs {closure : Closure} {c : Completion} {sites : List Site} (hm : m.Ok R D)
    (hchain : m.store.Chained m.globals closure.frame sites)
    (hinit : closure.isInitializer → ∃ k rest, sites = .receiver k :: rest)
    (hc : c.Sound R ⟨closure.site :: sites, some closure.site, 0⟩ m) :
    Runs R A (callResult closure c) (callResult closure c) m fun v m' => m'.Knows R v := by
  have hreturn : ∀ {v : Value}, m.Knows R v →
      Runs R A (callValue closure v) (callValue closure v) m fun v m' => m'.Knows R v := by
    intro v hv
    unfold callValue
    split
    · next hisInit =>
      -- an initializer is called in a frame that binds its receiver
      obtain ⟨k, rest, rfl⟩ := hinit hisInit
      obtain ⟨receiver, hthis⟩ := hm.sound.this_of_chained hchain
      refine Runs.ask ?_
      rw [hthis]
      exact Runs.pure hm.sound (hm.sound.slot? hthis)
    · exact Runs.pure hm.sound hv
  cases c with
  | normal =>
    rw [callResult_normal]
    exact hreturn (v := .nil) trivial
  | returned keyword v =>
    rw [callResult_returned]
    exact hreturn hc.2
  | broke keyword => exact absurd hc (Nat.lt_irrefl 0)
  | continued keyword => exact absurd hc (Nat.lt_irrefl 0)

/-- The body of a closure that can be called runs in a new frame. -/
theorem enter_runs (hrun : Executes R A D run run') {closure : Closure} {sites : List Site}
    {vs : List Value} (hm : m.Ok R D) (hchain : m.store.Chained m.globals closure.frame sites)
    (hfits : closure.Fits R sites)
    (hinit : closure.isInitializer → ∃ k rest, sites = .receiver k :: rest)
    (hvs : ∀ v ∈ vs, m.Knows R v) :
    Runs R A (enter run closure vs) (enter run' closure vs) m fun v m' => m'.Knows R v := by
  obtain ⟨k, hsite⟩ := hfits.site
  have hnot : ∀ k', closure.site ≠ .receiver k' := by
    intro k' h
    rw [hsite] at h
    cases h
  unfold enter
  refine (Runs.allocate
    (P := fun f m' => m'.store.Chained m'.globals f (closure.site :: sites))
    (m.store.extends_newFrame _ _) (hm.sound.newFrame hnot hchain)
    (hchain.newFrame closure.site)).bind fun f m₁ h₁ hf => ?_
  refine (bindParams_runs closure.params (h₁.ok hm) fun v hv => h₁.knows (hvs v hv)).bind
    fun _ m₂ h₂ _ => ?_
  have h₁₂ := h₁.trans h₂
  -- the body stands in the function and in no loop, whatever is around the call
  have hat : Machine.At R D ⟨closure.site :: sites, some closure.site, 0⟩
      { m₂ with current := f } := by
    refine ⟨⟨h₂.sound, h₁₂.distances_eq.trans hm.distances_eq⟩, ?_⟩
    show m₂.store.Chained m₂.globals f (closure.site :: sites)
    rw [h₂.globals_eq]
    exact hf.mono h₂.grown
  have hinside : Place.Inside ⟨closure.site :: sites, some closure.site, 0⟩ := by
    intro k' rest h
    exact hnot k' (List.cons.inj h).1
  refine (Runs.inFrame (Q := fun c m' =>
    c.Sound R ⟨closure.site :: sites, some closure.site, 0⟩ m') ?_).bind fun c m₃ h₃ hc => ?_
  · refine (runAll_runs hrun closure.body hat hinside hfits.body).mono fun c m' _ hc => ?_
    cases c <;> exact hc
  · have h₁₃ := h₁₂.trans h₃
    refine callResult_runs (h₁₃.ok hm) ?_ hinit hc
    rw [h₁₃.globals_eq]
    exact hchain.mono h₁₃.grown

end LoxLang
