import LoxLang.Proofs.Machine.Steps

/-!
# Programs that change the store in steps

Evaluation changes the store in steps, to any depth and however it ends.  So what steps
preserve is preserved by every run, and what may be relied upon in every store that is reached
by steps may be relied upon when names are looked up.

On the way, the names that an expression surely assigns to are held by the current frame.  A
name whose use is not exposed is therefore held when it is looked up.

## Main definitions

* `Naming.SameIn` — ways of looking names up that are the same where it matters.
* `Machine.Prepared` — what an expression may rely upon.
* `EvaluatesInSteps` — evaluation changes the store in steps.

## Main results

* `Kept.evaluates` — evaluation to any depth changes the store in steps.
* `Kept.runProgram_stays` — so does running a program.
-/

namespace LoxLang

/-- Two ways of looking names up are the same in the stores that can be relied upon, for uses
that may be exposed and for names that are held.  The first one assigns to names of the innermost
scope in the current frame. -/
structure Naming.SameIn (C : Discipline) (I : Store → Prop) (n n' : Naming) : Prop where
  /-- Names of the innermost scope. -/
  near : ∀ {m : Machine} {t : Token} {f : FrameId}, I m.store →
    C.distances.find? t.position = some 0 → n.target m t = .ok f →
    f = m.current ∧ (m.store.site? f).isSome
  /-- The values of names. -/
  value : ∀ {m : Machine} {t : Token}, I m.store →
    C.loose t ∨ (m.store.slot? m.current t.lexeme).isSome → n'.value m t = n.value m t
  /-- The frames in which names are assigned to. -/
  target : ∀ {m : Machine} {t : Token}, I m.store → C.loose t → n'.target m t = n.target m t

/-- A machine whose store can be relied upon, and whose current frame holds some names. -/
structure Machine.Prepared (I : Store → Prop) (m : Machine) (known : List String) : Prop where
  /-- The store can be relied upon. -/
  store : I m.store
  /-- The current frame holds the names. -/
  holds : ∀ x ∈ known, (m.store.slot? m.current x).isSome

/-- Closures are called alike. -/
def CallsStay (C : Discipline) (I : Store → Prop) (call call' : Invoker) : Prop :=
  ∀ {m : Machine} (c : ClosureId) (vs : List Value), I m.store →
    Stays C (call c vs) (call' c vs) m

/-- Statements are run alike. -/
def RunsStay (C : Discipline) (I : Store → Prop) (run run' : Stmt → EvalM Completion) : Prop :=
  ∀ {m : Machine} {s : Stmt}, I m.store → s.Obeys C → Stays C (run s) (run' s) m

variable {C : Discipline} {I : Store → Prop} {m m' : Machine} {α β : Type}

/-! ### The parts of a running program -/

section Parts

variable {n n' : Naming} {call call' : Invoker} {run run' : Stmt → EvalM Completion}

theorem Naming.SameIn.readName_stays (h : Naming.SameIn C I n n') (hm : I m.store) {t : Token}
    (ht : C.loose t ∨ (m.store.slot? m.current t.lexeme).isSome) :
    Stays C (readName n t) (readName n' t) m := by
  refine Stays.get ?_
  rw [h.value hm ht]
  exact .ofExcept _

theorem Naming.SameIn.assignName_stays (h : Naming.SameIn C I n n') (hm : I m.store) {t : Token}
    (hname : C.names t.lexeme) (ht : C.loose t) (v : Value) :
    Stays C (assignName n t v) (assignName n' t v) m := by
  refine Stays.get ?_
  rw [h.target hm ht]
  exact (Stays.ofExcept _).bind fun f m₁ _ => .changeStore (.define f hname _)

theorem Kept.construct_stays (hI : Kept C I) (hcall : CallsStay C I call call') (hm : I m.store)
    (k : ClassId) (vs : List Value) : Stays C (construct call k vs) (construct call' k vs) m := by
  refine (Stays.allocate (.newObject k)).bind fun o m₁ h₁ => Stays.ask ?_
  cases hinit : (m₁.store.method? k "init").bind fun c => m₁.store.closures[c]? with
  | none => exact .pure _
  | some initializer =>
    obtain ⟨c, -, hc⟩ := Option.bind_eq_some_iff.mp hinit
    refine (Stays.allocate (.bind hc o)).bind fun bound m₂ h₂ => ?_
    exact (hcall bound vs (hI.steps hm (h₁.trans h₂))).bind fun _ _ _ => .pure _

theorem callNative_stays (i : NativeId) : Stays C (callNative i) (callNative i) m := by
  refine Stays.ask ?_
  cases m.store.natives[i]? with
  | none => exact .throw _
  | some native =>
    cases haction : native.action with
    | clock => simpa only [haction] using Stays.readClock
    | constant v => simpa only [haction] using Stays.pure v

theorem Kept.apply_stays (hI : Kept C I) (hcall : CallsStay C I call call') (hm : I m.store)
    (callee : Value) (vs : List Value) :
    Stays C (apply call callee vs) (apply call' callee vs) m := by
  cases callee with
  | closure c => exact hcall c vs hm
  | native i => exact callNative_stays i
  | classRef k => exact hI.construct_stays hcall hm k vs
  | nil | bool | number | text | object => exact .throw _

theorem Kept.getProperty_stays (hI : Kept C I) (hcall : CallsStay C I call call')
    (hm : I m.store) (v : Value) (name : Token) :
    Stays C (getProperty call v name) (getProperty call' v name) m := by
  cases v with
  | object o =>
    refine Stays.ask ?_
    cases m.store.field? o name.lexeme with
    | some v => exact .pure v
    | none =>
      refine Stays.ask ?_
      cases hmethod : (do
          let x ← m.store.objects[o]?
          let c ← m.store.method? x.classId name.lexeme
          m.store.closures[c]?) with
      | none => exact .throw _
      | some method =>
        obtain ⟨x, -, hx⟩ := Option.bind_eq_some_iff.mp hmethod
        obtain ⟨c, -, hc⟩ := Option.bind_eq_some_iff.mp hx
        refine (Stays.allocate (.bind hc o)).bind fun bound m₁ h₁ => ?_
        split
        · exact hcall bound [] (hI.steps hm h₁)
        · exact .pure _
  | classRef k =>
    refine Stays.ask ?_
    cases m.store.static? k name.lexeme with
    | some v => exact .pure v
    | none => exact Stays.ask (.throw _)
  | nil | bool | number | text | closure | native => exact .throw _

theorem setProperty_stays {value value' : EvalM Value} (hvalue : Stays C value value' m)
    (v : Value) (name : Token) :
    Stays C (setProperty v name value) (setProperty v name value') m := by
  cases v with
  | object o =>
    exact hvalue.bind fun w _ _ => (Stays.changeStore (.setField o name.lexeme w)).bind
      fun _ _ _ => .pure w
  | classRef k =>
    exact hvalue.bind fun w _ _ => (Stays.changeStore (.setStatic k name.lexeme w)).bind
      fun _ _ _ => .pure w
  | nil | bool | number | text | closure | native => exact .throw _

theorem allocateAll_stays {closure : FunctionDecl → Closure} {fs : List FunctionDecl}
    (h : ∀ f ∈ fs, (closure f).Made C) (made : Table String ClosureId) :
    Stays C (allocateAll closure fs made) (allocateAll closure fs made) m := by
  induction fs generalizing made m with
  | nil => exact .pure made
  | cons f fs ih =>
    obtain ⟨hf, hfs⟩ := List.forall_mem_cons.mp h
    exact (Stays.allocate (.closure hf)).bind fun c _ _ => ih hfs _

theorem declareClass_stays {name : Token} (hname : C.names name.lexeme)
    (superclass : Option ClassId) {methods statics : List FunctionDecl}
    (hmethods : ∀ f ∈ methods, f.Obeys C) (hstatics : ∀ f ∈ statics, f.Obeys C) :
    Stays C (declareClass name superclass methods statics)
      (declareClass name superclass methods statics) m := by
  refine Stays.get ?_
  refine (allocateAll_stays (fun f hf => (hmethods f hf).made_method _ name) _).bind
    fun own _ _ => ?_
  refine (allocateAll_stays (fun f hf => (hstatics f hf).made _) _).bind fun values _ _ => ?_
  exact (Stays.allocate (.newClass _)).bind fun k _ _ => .defineHere hname _

theorem Naming.SameIn.readSuperclass_stays (h : Naming.SameIn C I n n') (hm : I m.store)
    {superclass : Option Token} (hsuper : ∀ t ∈ superclass, C.loose t) :
    Stays C (readSuperclass n superclass) (readSuperclass n' superclass) m := by
  cases superclass with
  | none => exact .pure _
  | some t =>
    refine (h.readName_stays hm (.inl (hsuper t rfl))).bind fun v _ _ => ?_
    cases v with
    | classRef k => exact .pure _
    | nil | bool | number | text | closure | native | object => exact .throw _

theorem Kept.runAll_stays (hI : Kept C I) (hrun : RunsStay C I run run') {ss : List Stmt}
    (hss : ∀ s ∈ ss, s.Obeys C) (hm : I m.store) : Stays C (runAll run ss) (runAll run' ss) m := by
  induction ss generalizing m with
  | nil => exact .pure _
  | cons s ss ih =>
    obtain ⟨hs, hss⟩ := List.forall_mem_cons.mp hss
    refine (hrun hm hs).bind fun c m₁ h₁ => ?_
    cases c with
    | normal => exact ih hss (hI.steps hm h₁)
    | returned | broke | continued => exact .pure _

theorem Kept.repeatWhile_stays (hI : Kept C I) {condition condition' : EvalM Bool}
    {round round' : EvalM Completion} {increment increment' : EvalM Unit}
    (hcondition : ∀ {m : Machine}, I m.store → Stays C condition condition' m)
    (hround : ∀ {m : Machine}, I m.store → Stays C round round' m)
    (hincrement : ∀ {m : Machine}, I m.store → Stays C increment increment' m) (rounds : Nat)
    (hm : I m.store) :
    Stays C (repeatWhile condition round increment rounds)
      (repeatWhile condition' round' increment' rounds) m := by
  induction rounds generalizing m with
  | zero => exact .throw _
  | succ rounds ih =>
    refine (hcondition hm).bind fun b m₁ h₁ => ?_
    cases b with
    | false => exact .pure _
    | true =>
      refine (hround (hI.steps hm h₁)).bind fun c m₂ h₂ => ?_
      have hm₂ := hI.steps hm (h₁.trans h₂)
      cases c with
      | broke | returned => exact .pure _
      | normal | continued =>
        exact (hincrement hm₂).bind fun _ m₃ h₃ => ih (hI.steps hm₂ h₃)

theorem bindParams_stays (f : FrameId) {params : List Token}
    (hparams : ∀ t ∈ params, C.names t.lexeme) (vs : List Value) :
    Stays C (bindParams f params vs) (bindParams f params vs) m := by
  induction params generalizing vs m with
  | nil => exact .pure ()
  | cons t params ih =>
    obtain ⟨ht, hparams⟩ := List.forall_mem_cons.mp hparams
    cases vs with
    | nil => exact .pure ()
    | cons v vs => exact (Stays.changeStore (.define f ht _)).bind fun _ _ _ => ih hparams vs

theorem callResult_stays (closure : Closure) (c : Completion) :
    Stays C (callResult closure c) (callResult closure c) m := by
  have hend : ∀ v : Value, Stays C (callValue closure v) (callValue closure v) m := by
    intro v
    unfold callValue
    split
    · refine Stays.ask ?_
      split
      · exact .pure _
      · exact .throw _
    · exact .pure v
  cases c with
  | normal =>
    rw [callResult_normal]
    exact hend .nil
  | returned keyword v =>
    rw [callResult_returned]
    exact hend v
  | broke | continued => exact .throw _

/-- A closure that is there is called in a frame of its own. -/
theorem Kept.enter_stays (hI : Kept C I) (hrun : RunsStay C I run run') (hm : I m.store)
    {c : ClosureId} {closure : Closure} (hc : m.store.closures[c]? = some closure)
    (vs : List Value) : Stays C (enter run closure vs) (enter run' closure vs) m := by
  have hmade := hI.coded hm c closure hc
  refine (Stays.allocate (.activation hc)).bind fun f m₁ h₁ => ?_
  refine (bindParams_stays f hmade.params vs).bind fun _ m₂ h₂ => ?_
  refine Stays.bind (.inFrame ?_) fun completion _ _ => callResult_stays closure completion
  exact hI.runAll_stays hrun hmade.body (hI.steps hm (h₁.trans h₂))

end Parts

/-! ### Names that are held -/

/-- If actions that follow each other end with a result, then so does each of them. -/
theorem exists_of_bind_eq_ok {x : EvalM α} {k : α → EvalM β} {b : β}
    (h : (x >>= k) m = .ok b m') : ∃ a m₁, x m = .ok a m₁ ∧ k a m₁ = .ok b m' := by
  simp only [Bind.bind, EStateM.bind] at h
  cases hx : x m with
  | ok a m₁ =>
    rw [hx] at h
    exact ⟨a, m₁, rfl, h⟩
  | error f m₁ =>
    rw [hx] at h
    cases h

theorem eq_of_askStore_eq_ok {f : Store → α} {a : α} (h : askStore f m = .ok a m') :
    a = f m.store ∧ m' = m := by
  cases h
  exact ⟨rfl, rfl⟩

theorem eq_of_ofExcept_eq_ok {r : Except Fault α} {a : α} (h : ofExcept r m = .ok a m') :
    r = .ok a ∧ m' = m := by
  cases r with
  | ok b =>
    cases h
    exact ⟨rfl, rfl⟩
  | error f => cases h

namespace Machine.Prepared

variable {known names : List String}

theorem nil (hm : I m.store) : m.Prepared I [] := ⟨hm, fun _ hx => absurd hx List.not_mem_nil⟩

theorem mono (h : m.Prepared I known) (hsub : names ⊆ known) : m.Prepared I names :=
  ⟨h.store, fun x hx => h.holds x (hsub hx)⟩

/-- Names that are held stay so, in the same frame. -/
theorem steps (h : m.Prepared I known) (hI : Kept C I) (hsteps : m.store.Steps C m'.store)
    (hcurrent : m'.current = m.current) : m'.Prepared I known := by
  refine ⟨hI.steps h.store hsteps, fun x hx => ?_⟩
  rw [hcurrent]
  exact (Store.Steps.keeps hsteps).slots (h.holds x hx)

/-- What an action leaves behind that changes the store in steps, wherever it ends. -/
theorem ends (h : m.Prepared I known) (hI : Kept C I) {x y : EvalM α} (hstays : Stays C x y m)
    {may : FrameId → FrameId → String → Prop} (hdoes : Does (fun _ => True) may x)
    (hends : EndsIn x m m') : m'.Prepared I known :=
  h.steps hI (hstays.2 m' hends) (hdoes.changes hends).current_eq

/-- A name of the innermost scope that has been assigned to is held. -/
theorem assign {n n' : Naming} (h : m.Prepared I known) (hI : Kept C I)
    (hn : Naming.SameIn C I n n') {t : Token} (hname : C.names t.lexeme) {v : Value} {u : Unit}
    (hassign : assignName n t v m = .ok u m') :
    m'.Prepared I
      ((if C.distances.find? t.position = some 0 then [t.lexeme] else []) ++ known) := by
  obtain ⟨m₀, m₁, hget, hassign⟩ := exists_of_bind_eq_ok hassign
  cases hget
  obtain ⟨f, m₂, htarget, hchange⟩ := exists_of_bind_eq_ok hassign
  obtain ⟨htarget, rfl⟩ := eq_of_ofExcept_eq_ok htarget
  cases hchange
  have hkept : Machine.Prepared I { m₂ with store := m₂.store.define f t.lexeme (some v) } known :=
    h.steps hI (.single (.define f hname _)) rfl
  refine ⟨hkept.store, List.forall_mem_append.mpr ⟨fun x hx => ?_, hkept.holds⟩⟩
  split at hx
  · next hnear =>
    obtain ⟨rfl, hsite⟩ := hn.near h.store hnear htarget
    obtain ⟨site, hsite⟩ := Option.isSome_iff_exists.mp hsite
    obtain ⟨fr, hfr, -⟩ := Option.map_eq_some_iff.mp hsite
    rw [List.mem_singleton.mp hx, Store.slot?_define, if_pos ⟨rfl, rfl⟩, hfr]
    rfl
  · exact absurd hx List.not_mem_nil

end Machine.Prepared

theorem Discipline.admits_append {ds ds' : List Declaration} {us us' : List (Access × Token)}
    {ts ts' : List Token} :
    C.Admits (ds ++ ds') (us ++ us') (ts ++ ts') ↔ C.Admits ds us ts ∧ C.Admits ds' us' ts' := by
  simp only [Discipline.Admits, List.forall_mem_append]
  constructor
  · rintro ⟨⟨hds, hds'⟩, ⟨hus, hus'⟩, hts, hts'⟩
    exact ⟨⟨hds, hus, hts⟩, hds', hus', hts'⟩
  · rintro ⟨⟨hds, hus, hts⟩, hds', hus', hts'⟩
    exact ⟨⟨hds, hds'⟩, ⟨hus, hus'⟩, hts, hts'⟩

/-! ### Programs -/

variable {limits : Limits} {n' : Naming} {d : Nat} {known : List String}

/-- Evaluation to some depth changes the store in steps.  When an expression has been evaluated,
the current frame holds the names that it surely assigns to. -/
structure EvaluatesInSteps (C : Discipline) (I : Store → Prop) (limits limits' : Limits)
    (d : Nat) : Prop where
  /-- Expressions. -/
  eval : ∀ {m : Machine} {e : Expr} {known : List String}, m.Prepared I known →
    e.Obeys C known → Stays C (eval limits d e) (eval limits' d e) m
  /-- What an expression leaves behind. -/
  prepares : ∀ {m m' : Machine} {e : Expr} {known : List String} {v : Value},
    m.Prepared I known → e.Obeys C known → LoxLang.eval limits d e m = .ok v m' →
    m'.Prepared I (e.assigned C.distances ++ known)
  /-- Statements. -/
  exec : RunsStay C I (exec limits d) (exec limits' d)
  /-- Calls. -/
  invoke : CallsStay C I (invoke limits d) (invoke limits' d)

/-- Expressions that are evaluated one after the other. -/
theorem EvaluatesInSteps.evalAll {limits' : Limits} (h : EvaluatesInSteps C I limits limits' d)
    {es : List Expr} (hm : m.Prepared I known) (hes : ExprsObey C es known) :
    Stays C (es.mapM (LoxLang.eval limits d)) (es.mapM (LoxLang.eval limits' d)) m := by
  induction es generalizing m known with
  | nil =>
    rw [List.mapM_nil, List.mapM_nil]
    exact .pure []
  | cons e es ih =>
    obtain ⟨he, hes⟩ := Discipline.admits_append.mp hes
    rw [List.mapM_cons, List.mapM_cons]
    refine (h.eval hm he).bind_of_ok fun v m₁ hv _ => ?_
    exact (ih (h.prepares hm he hv) hes).bind fun vs _ _ => .pure (v :: vs)

theorem EvaluatesInSteps.prepares_all {limits' : Limits}
    (h : EvaluatesInSteps C I limits limits' d) {es : List Expr} {vs : List Value}
    (hm : m.Prepared I known) (hes : ExprsObey C es known)
    (heval : es.mapM (LoxLang.eval limits d) m = .ok vs m') :
    m'.Prepared I (exprsAssigned C.distances es ++ known) := by
  induction es generalizing m known vs with
  | nil =>
    rw [List.mapM_nil] at heval
    cases heval
    exact hm
  | cons e es ih =>
    obtain ⟨he, hes⟩ := Discipline.admits_append.mp hes
    rw [List.mapM_cons] at heval
    obtain ⟨v, m₁, hv, heval⟩ := exists_of_bind_eq_ok heval
    obtain ⟨ws, m₂, hws, heval⟩ := exists_of_bind_eq_ok heval
    cases heval
    refine (ih (h.prepares hm he hv) hes hws).mono ?_
    rw [exprsAssigned]
    grind

/-- Expressions to a depth, from evaluation to the depth before it. -/
theorem Kept.eval_succ (hI : Kept C I) (hn : Naming.SameIn C I limits.naming n')
    (ih : EvaluatesInSteps C I limits { limits with naming := n' } d) {e : Expr}
    (hm : m.Prepared I known) (he : e.Obeys C known) :
    Stays C (LoxLang.eval limits (d + 1) e)
      (LoxLang.eval { limits with naming := n' } (d + 1) e) m := by
  cases e with
  | literal value =>
    rw [LoxLang.eval, LoxLang.eval]
    exact .pure _
  | grouping e =>
    rw [LoxLang.eval, LoxLang.eval]
    exact ih.eval hm he
  | unary operator e =>
    rw [LoxLang.eval, LoxLang.eval]
    exact (ih.eval (e := e) hm he).bind fun v _ _ => .ofExcept _
  | binary l operator r =>
    rw [LoxLang.eval, LoxLang.eval]
    obtain ⟨hl, hr⟩ := Discipline.admits_append.mp he
    refine (ih.eval hm hl).bind_of_ok fun v m₁ hv _ => ?_
    exact (ih.eval (ih.prepares hm hl hv) hr).bind fun w _ _ => .ofExcept _
  | logical l operator r =>
    rw [LoxLang.eval, LoxLang.eval]
    obtain ⟨hl, hr⟩ := Discipline.admits_append.mp he
    refine (ih.eval hm hl).bind_of_ok fun v m₁ hv _ => ?_
    split
    · exact .pure v
    · exact ih.eval (ih.prepares hm hl hv) hr
  | conditional c t e =>
    rw [LoxLang.eval, LoxLang.eval]
    obtain ⟨hc, hbranches⟩ := Discipline.admits_append.mp he
    obtain ⟨ht, he⟩ := Discipline.admits_append.mp hbranches
    refine (ih.eval hm hc).bind_of_ok fun v m₁ hv _ => ?_
    split
    · exact ih.eval (ih.prepares hm hc hv) ht
    · exact ih.eval (ih.prepares hm hc hv) he
  | assign name e =>
    rw [LoxLang.eval, LoxLang.eval]
    obtain ⟨hd, hu, ht⟩ := he
    obtain ⟨hname, hu⟩ := List.forall_mem_cons.mp hu
    obtain ⟨hloose, ht⟩ := List.forall_mem_cons.mp ht
    refine (ih.eval (e := e) hm ⟨hd, hu, ht⟩).bind fun v m₁ h₁ => ?_
    exact (hn.assignName_stays (hI.steps hm.store h₁) hname hloose v).bind fun _ _ _ => .pure v
  | «variable» name =>
    rw [LoxLang.eval, LoxLang.eval]
    refine hn.readName_stays hm.store ?_
    by_cases hname : name.lexeme ∈ known
    · exact .inr (hm.holds _ hname)
    · refine .inl (he.2.2 name ?_)
      rw [Expr.exposed, if_neg hname]
      exact List.mem_singleton_self _
  | call callee paren arguments =>
    rw [LoxLang.eval, LoxLang.eval]
    obtain ⟨hcallee, harguments⟩ := Discipline.admits_append.mp he
    refine (ih.eval hm hcallee).bind_of_ok fun f m₁ hf h₁ => ?_
    refine (ih.evalAll (ih.prepares hm hcallee hf) harguments).bind fun vs m₂ h₂ =>
      Stays.ask ?_
    cases m₂.store.arity? f with
    | none => exact .throw _
    | some k =>
      dsimp only
      split
      · exact hI.apply_stays ih.invoke (hI.steps hm.store (h₁.trans h₂)) f vs
      · exact .throw _
  | get object name =>
    rw [LoxLang.eval, LoxLang.eval]
    exact (ih.eval (e := object) hm he).bind fun v m₁ h₁ =>
      hI.getProperty_stays ih.invoke (hI.steps hm.store h₁) v name
  | set object name e =>
    rw [LoxLang.eval, LoxLang.eval]
    obtain ⟨hobject, he⟩ := Discipline.admits_append.mp he
    refine (ih.eval hm hobject).bind_of_ok fun v m₁ hv _ => ?_
    exact setProperty_stays (ih.eval (ih.prepares hm hobject hv) he) v name
  | this keyword =>
    rw [LoxLang.eval, LoxLang.eval]
    exact hn.readName_stays hm.store (.inl (he.2.2 keyword (List.mem_singleton_self _)))
  | lambda keyword params body =>
    rw [LoxLang.eval, LoxLang.eval]
    refine Stays.get ?_
    exact (Stays.allocate (.closure (he.made _))).bind fun _ _ _ => .pure _

/-- What expressions leave behind, from evaluation to the depth before it. -/
theorem Kept.prepares_succ (hI : Kept C I) (hn : Naming.SameIn C I limits.naming n')
    (ih : EvaluatesInSteps C I limits { limits with naming := n' } d) {e : Expr} {v : Value}
    (hm : m.Prepared I known) (he : e.Obeys C known)
    (heval : LoxLang.eval limits (d + 1) e m = .ok v m') :
    m'.Prepared I (e.assigned C.distances ++ known) := by
  have hwithin : EvaluatesWithin (fun _ => True) limits d := (Traced.any _).evaluates d
  cases e with
  | literal value =>
    cases heval
    exact hm
  | grouping e => exact ih.prepares (e := e) hm he heval
  | unary operator e =>
    obtain ⟨w, m₁, hw, heval⟩ := exists_of_bind_eq_ok heval
    obtain ⟨-, rfl⟩ := eq_of_ofExcept_eq_ok heval
    exact ih.prepares (e := e) hm he hw
  | binary l operator r =>
    obtain ⟨hl, hr⟩ := Discipline.admits_append.mp he
    obtain ⟨w, m₁, hw, heval⟩ := exists_of_bind_eq_ok heval
    obtain ⟨u, m₂, hu, heval⟩ := exists_of_bind_eq_ok heval
    obtain ⟨-, rfl⟩ := eq_of_ofExcept_eq_ok heval
    refine (ih.prepares (ih.prepares hm hl hw) hr hu).mono ?_
    rw [Expr.assigned]
    grind
  | logical l operator r =>
    obtain ⟨hl, hr⟩ := Discipline.admits_append.mp he
    obtain ⟨w, m₁, hw, heval⟩ := exists_of_bind_eq_ok heval
    have hleft := ih.prepares hm hl hw
    split at heval
    · cases heval
      exact hleft
    · exact (ih.prepares hleft hr heval).mono (List.subset_append_right _ _)
  | conditional c t e =>
    obtain ⟨hc, hbranches⟩ := Discipline.admits_append.mp he
    obtain ⟨ht, he⟩ := Discipline.admits_append.mp hbranches
    obtain ⟨w, m₁, hw, heval⟩ := exists_of_bind_eq_ok heval
    have hcondition := ih.prepares hm hc hw
    rw [Expr.assigned]
    -- what both branches assign to is held after either
    split at heval
    · refine (ih.prepares hcondition ht heval).mono ?_
      grind
    · refine (ih.prepares hcondition he heval).mono ?_
      grind
  | assign name e =>
    obtain ⟨hd, hu, ht⟩ := he
    obtain ⟨hname, hu⟩ := List.forall_mem_cons.mp hu
    obtain ⟨-, ht⟩ := List.forall_mem_cons.mp ht
    obtain ⟨w, m₁, hw, heval⟩ := exists_of_bind_eq_ok heval
    obtain ⟨_, m₂, hassign, heval⟩ := exists_of_bind_eq_ok heval
    cases heval
    rw [Expr.assigned, List.append_assoc]
    exact (ih.prepares (e := e) hm ⟨hd, hu, ht⟩ hw).assign hI hn hname hassign
  | «variable» name =>
    obtain ⟨m₀, m₁, hget, heval⟩ := exists_of_bind_eq_ok heval
    cases hget
    obtain ⟨-, rfl⟩ := eq_of_ofExcept_eq_ok heval
    exact hm
  | call callee paren arguments =>
    obtain ⟨hcallee, harguments⟩ := Discipline.admits_append.mp he
    obtain ⟨f, m₁, hf, heval⟩ := exists_of_bind_eq_ok heval
    obtain ⟨vs, m₂, hvs, heval⟩ := exists_of_bind_eq_ok heval
    obtain ⟨arity, m₃, harity, heval⟩ := exists_of_bind_eq_ok heval
    obtain ⟨-, rfl⟩ := eq_of_askStore_eq_ok harity
    have hready := ih.prepares_all (ih.prepares hm hcallee hf) harguments hvs
    have hafter : m'.Prepared I (exprsAssigned C.distances arguments
        ++ (callee.assigned C.distances ++ known)) := by
      cases arity with
      | none => cases heval
      | some k =>
        dsimp only at heval
        split at heval
        · exact hready.ends hI (hI.apply_stays ih.invoke hready.store f vs)
            ((Traced.any limits.naming).apply_does hwithin.invoke f vs) (.inl ⟨v, heval⟩)
        · cases heval
    refine hafter.mono ?_
    rw [Expr.assigned]
    grind
  | get object name =>
    obtain ⟨w, m₁, hw, heval⟩ := exists_of_bind_eq_ok heval
    have hobject := ih.prepares (e := object) hm he hw
    exact hobject.ends hI (hI.getProperty_stays ih.invoke hobject.store w name)
      ((Traced.any limits.naming).getProperty_does hwithin.invoke w name) (.inl ⟨v, heval⟩)
  | set object name e =>
    obtain ⟨hobject, he⟩ := Discipline.admits_append.mp he
    obtain ⟨w, m₁, hw, heval⟩ := exists_of_bind_eq_ok heval
    have hready := ih.prepares hm hobject hw
    have hafter : m'.Prepared I (e.assigned C.distances
        ++ (object.assigned C.distances ++ known)) := by
      cases w with
      | object o =>
        obtain ⟨u, m₂, hu, heval⟩ := exists_of_bind_eq_ok heval
        cases heval
        exact (ih.prepares hready he hu).steps hI (.single (.setField o name.lexeme v)) rfl
      | classRef k =>
        obtain ⟨u, m₂, hu, heval⟩ := exists_of_bind_eq_ok heval
        cases heval
        exact (ih.prepares hready he hu).steps hI (.single (.setStatic k name.lexeme v)) rfl
      | nil | bool | number | text | closure | native => cases heval
    refine hafter.mono ?_
    rw [Expr.assigned]
    grind
  | this keyword =>
    obtain ⟨m₀, m₁, hget, heval⟩ := exists_of_bind_eq_ok heval
    cases hget
    obtain ⟨-, rfl⟩ := eq_of_ofExcept_eq_ok heval
    exact hm
  | lambda keyword params body =>
    cases heval
    exact hm.steps hI (.single (.closure (he.made _))) rfl

/-- Statements to a depth, from evaluation to the depth before it. -/
theorem Kept.exec_succ (hI : Kept C I) (hn : Naming.SameIn C I limits.naming n')
    (ih : EvaluatesInSteps C I limits { limits with naming := n' } d) :
    RunsStay C I (LoxLang.exec limits (d + 1))
      (LoxLang.exec { limits with naming := n' } (d + 1)) := by
  intro m s hm hs
  obtain ⟨site, hs⟩ := hs
  cases s with
  | expression e =>
    rw [LoxLang.exec, LoxLang.exec]
    exact (ih.eval (e := e) (.nil hm) hs).bind fun _ _ _ => .pure _
  | print e =>
    rw [LoxLang.exec, LoxLang.exec]
    exact (ih.eval (e := e) (.nil hm) hs).bind fun v _ _ => Stays.ask
      ((Stays.printLine _).bind fun _ _ _ => .pure _)
  | var name value =>
    cases value with
    | none =>
      rw [LoxLang.exec, LoxLang.exec]
      exact (Stays.defineHere (hs.1 _ (List.mem_singleton_self _)) _).bind fun _ _ _ => .pure _
    | some e =>
      rw [LoxLang.exec, LoxLang.exec]
      obtain ⟨hname, hd⟩ := List.forall_mem_cons.mp hs.1
      refine (ih.eval (e := e) (.nil hm) ⟨hd, hs.2⟩).bind fun v _ _ => ?_
      exact (Stays.defineHere hname _).bind fun _ _ _ => .pure _
  | block position body =>
    rw [LoxLang.exec, LoxLang.exec]
    refine Stays.get ((Stays.allocate (.block position m.current)).bind fun f m₁ h₁ => ?_)
    exact .inFrame (hI.runAll_stays ih.exec (obey_of_stmts hs) (hI.steps hm h₁))
  | ifElse c t e =>
    cases e with
    | none =>
      rw [LoxLang.exec, LoxLang.exec]
      obtain ⟨hc, ht⟩ := Discipline.admits_append.mp hs
      refine (ih.eval (e := c) (.nil hm) hc).bind fun v m₁ h₁ => ?_
      split
      · exact ih.exec (hI.steps hm h₁) ⟨site, ht⟩
      · exact .pure _
    | some e =>
      rw [LoxLang.exec, LoxLang.exec]
      obtain ⟨hc, hbranches⟩ := Discipline.admits_append.mp hs
      obtain ⟨ht, he⟩ := Discipline.admits_append.mp hbranches
      refine (ih.eval (e := c) (.nil hm) hc).bind fun v m₁ h₁ => ?_
      split
      · exact ih.exec (hI.steps hm h₁) ⟨site, ht⟩
      · exact ih.exec (hI.steps hm h₁) ⟨site, he⟩
  | «while» c body increment =>
    cases increment with
    | none =>
      rw [LoxLang.exec, LoxLang.exec]
      obtain ⟨hc, hbody⟩ := Discipline.admits_append.mp hs
      refine hI.repeatWhile_stays ?_ ?_ ?_ limits.rounds hm
      · exact fun hm' => (ih.eval (e := c) (.nil hm') hc).bind fun _ _ _ => .pure _
      · exact fun hm' => ih.exec hm' ⟨site, hbody⟩
      · exact fun _ => .pure ()
    | some i =>
      rw [LoxLang.exec, LoxLang.exec]
      obtain ⟨hc, hrest⟩ := Discipline.admits_append.mp hs
      obtain ⟨hbody, hi⟩ := Discipline.admits_append.mp hrest
      refine hI.repeatWhile_stays ?_ ?_ ?_ limits.rounds hm
      · exact fun hm' => (ih.eval (e := c) (.nil hm') hc).bind fun _ _ _ => .pure _
      · exact fun hm' => ih.exec hm' ⟨site, hbody⟩
      · exact fun hm' => (ih.eval (e := i) (.nil hm') hi).bind fun _ _ _ => .pure _
  | «break» | «continue» =>
    rw [LoxLang.exec, LoxLang.exec]
    exact .pure _
  | function f =>
    rw [LoxLang.exec, LoxLang.exec]
    obtain ⟨hname, hd⟩ := List.forall_mem_cons.mp hs.1
    have hf : f.Obeys C := ⟨hd, hs.2⟩
    refine Stays.get ((Stays.allocate (.closure (hf.made _))).bind fun c _ _ => ?_)
    exact (Stays.defineHere hname _).bind fun _ _ _ => .pure _
  | «return» keyword value =>
    cases value with
    | none =>
      rw [LoxLang.exec, LoxLang.exec]
      exact .pure _
    | some e =>
      rw [LoxLang.exec, LoxLang.exec]
      exact (ih.eval (e := e) (.nil hm) hs).bind fun _ _ _ => .pure _
  | classDecl name superclass methods statics =>
    rw [LoxLang.exec, LoxLang.exec]
    obtain ⟨hd, hu, ht⟩ := hs
    obtain ⟨hname, hd⟩ := List.forall_mem_cons.mp hd
    obtain ⟨-, hu⟩ := List.forall_mem_append.mp hu
    obtain ⟨hsuper, ht⟩ := List.forall_mem_append.mp ht
    obtain ⟨hstatics, hmethods⟩ := Discipline.admits_append.mp ⟨hd, hu, ht⟩
    refine (hn.readSuperclass_stays hm fun t ht => hsuper t (by simpa using ht)).bind
      fun parent _ _ => ?_
    exact (declareClass_stays hname parent (obey_of_functions hmethods)
      (obey_of_functions hstatics)).bind fun _ _ _ => .pure _

/-- Calls to a depth, from statements to the depth before it. -/
theorem Kept.invoke_succ (hI : Kept C I)
    (ih : EvaluatesInSteps C I limits { limits with naming := n' } d) :
    CallsStay C I (LoxLang.invoke limits (d + 1))
      (LoxLang.invoke { limits with naming := n' } (d + 1)) := by
  intro m c vs hm
  rw [LoxLang.invoke, LoxLang.invoke]
  refine Stays.ask ?_
  cases hc : m.store.closures[c]? with
  | none => exact .throw _
  | some closure => exact hI.enter_stays ih.exec hm hc vs

/-- Evaluation to any depth changes the store in steps, however names are looked up in stores
that cannot be relied upon. -/
theorem Kept.evaluates (hI : Kept C I) (hn : Naming.SameIn C I limits.naming n') (d : Nat) :
    EvaluatesInSteps C I limits { limits with naming := n' } d := by
  induction d with
  | zero =>
    refine ⟨fun {m e known} _ _ => ?_, fun {m m' e known v} _ _ heval => ?_,
      fun {m s} _ _ => ?_, fun {m} c vs _ => ?_⟩
    · rw [LoxLang.eval, LoxLang.eval]
      exact .throw _
    · cases heval
    · rw [LoxLang.exec, LoxLang.exec]
      exact .throw _
    · rw [LoxLang.invoke, LoxLang.invoke]
      exact .throw _
  | succ d ih =>
    exact ⟨hI.eval_succ hn ih, hI.prepares_succ hn ih, hI.exec_succ hn ih, hI.invoke_succ ih⟩

/-- So does running a program. -/
theorem Kept.runProgram_stays (hI : Kept C I) (hn : Naming.SameIn C I limits.naming n')
    {program : Program} (hprogram : ∀ s ∈ program, s.Obeys C) (hm : I m.store) :
    Stays C (runProgram limits program) (runProgram { limits with naming := n' } program) m := by
  induction program generalizing m with
  | nil => exact .pure ()
  | cons s ss ih =>
    obtain ⟨hs, hss⟩ := List.forall_mem_cons.mp hprogram
    rw [runProgram, runProgram]
    refine ((hI.evaluates hn limits.depth).exec hm hs).bind fun c m₁ h₁ => ?_
    cases c with
    | normal => exact ih hss (hI.steps hm h₁)
    | returned | broke | continued => exact .throw _

end LoxLang
