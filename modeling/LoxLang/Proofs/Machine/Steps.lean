import LoxLang.Proofs.Machine.Effects
import LoxLang.Proofs.Program.Exposure
import LoxLang.Proofs.Store.Binding
import Mathlib.Logic.Relation

/-!
# What running does to the store, step by step

A running program changes the store in few ways: it binds a name, makes a frame for a block
or for a call, makes a closure from its text, binds a method to an object, makes a class or
an object, and gives a class or an object a value.  Whatever these steps preserve is
preserved by every action that changes the store in steps.

What is known of all code is left open: a discipline says which names are declared and used,
and which uses of names may be exposed.

## Main definitions

* `Discipline` — what is known of all code.
* `Expr.Obeys`, `Stmt.Obeys` — code that obeys a discipline.
* `Closure.Made`, `Store.Coded` — closures that are made from such code.
* `Store.Step`, `Store.Steps` — how a store changes.
* `Kept` — what is preserved by steps.
* `Stays` — what an action, and its counterpart, do to the store of a machine.

## Main results

* `Kept.steps` — what a step preserves, some steps preserve.
* `Stays.bind`, `Stays.inFrame` — actions that follow each other, and actions in another frame.
-/

namespace LoxLang

/-! ### Code -/

/-- What is known of all code. -/
structure Discipline where
  /-- Which names are declared and used. -/
  names : String → Prop
  /-- The distances of names. -/
  distances : Distances
  /-- Which uses of names may be exposed. -/
  loose : Token → Prop

/-- Declarations, uses and exposed uses of names as a discipline demands. -/
def Discipline.Admits (C : Discipline) (ds : List Declaration) (us : List (Access × Token))
    (ts : List Token) : Prop :=
  (∀ d ∈ ds, C.names d.name.lexeme) ∧ (∀ u ∈ us, C.names u.2.lexeme) ∧ ∀ t ∈ ts, C.loose t

/-- An expression obeys a discipline, if some names were assigned to before. -/
def Expr.Obeys (C : Discipline) (e : Expr) (known : List String) : Prop :=
  C.Admits e.declarations e.accesses (e.exposed C.distances known)

/-- Expressions that are evaluated one after the other obey a discipline. -/
def ExprsObey (C : Discipline) (es : List Expr) (known : List String) : Prop :=
  C.Admits (exprsDeclarations es) (exprsAccesses es) (exprsExposed C.distances es known)

/-- A statement obeys a discipline. -/
def Stmt.Obeys (C : Discipline) (s : Stmt) : Prop :=
  ∃ site, C.Admits (s.declarations site) s.accesses (s.exposed C.distances)

/-- A function obeys a discipline; its own name is declared where it stands. -/
def FunctionDecl.Obeys (C : Discipline) (f : FunctionDecl) : Prop :=
  C.Admits f.declarations f.accesses (f.exposed C.distances)

/-- A closure of a function that obeys a discipline. -/
structure Closure.Made (C : Discipline) (closure : Closure) : Prop where
  /-- It comes from a function. -/
  site : ∃ k, closure.site = .function k
  /-- If it is bound, that is done around the methods of a class. -/
  home : ∃ k, closure.home = .receiver k
  /-- The parameters. -/
  params : ∀ t ∈ closure.params, C.names t.lexeme
  /-- The body. -/
  body : ∀ s ∈ closure.body, s.Obeys C

/-- All closures of a store obey a discipline. -/
def Store.Coded (C : Discipline) (s : Store) : Prop :=
  ∀ (c : ClosureId) (closure : Closure), s.closures[c]? = some closure → closure.Made C

section Code

variable {C : Discipline}

theorem obey_of_stmts {ss : List Stmt} {site : Site}
    (h : C.Admits (stmtsDeclarations ss site) (stmtsAccesses ss) (stmtsExposed C.distances ss)) :
    ∀ s ∈ ss, s.Obeys C := by
  induction ss with
  | nil => exact fun _ hs => absurd hs List.not_mem_nil
  | cons s ss ih =>
    simp only [Discipline.Admits, stmtsDeclarations, stmtsAccesses, stmtsExposed,
      List.forall_mem_append] at h
    exact List.forall_mem_cons.mpr ⟨⟨site, h.1.1, h.2.1.1, h.2.2.1⟩,
      ih ⟨h.1.2, h.2.1.2, h.2.2.2⟩⟩

theorem obey_of_functions {fs : List FunctionDecl}
    (h : C.Admits (functionsDeclarations fs) (functionsAccesses fs)
      (functionsExposed C.distances fs)) : ∀ f ∈ fs, f.Obeys C := by
  induction fs with
  | nil => exact fun _ hf => absurd hf List.not_mem_nil
  | cons f fs ih =>
    simp only [Discipline.Admits, functionsDeclarations, functionsAccesses, functionsExposed,
      List.forall_mem_append] at h
    exact List.forall_mem_cons.mpr ⟨⟨h.1.1, h.2.1.1, h.2.2.1⟩, ih ⟨h.1.2, h.2.1.2, h.2.2.2⟩⟩

/-- The closure of a function without a name. -/
theorem Expr.Obeys.made {keyword : Token} {params : List Token} {body : List Stmt}
    {known : List String} (h : (Expr.lambda keyword params body).Obeys C known)
    (frame : FrameId) :
    Closure.Made C
      { name := none, params, body, frame, site := .function keyword.position } := by
  simp only [Expr.Obeys, Discipline.Admits, Expr.declarations, Expr.accesses, Expr.exposed,
    List.forall_mem_append, List.forall_mem_map] at h
  exact ⟨⟨_, rfl⟩, ⟨_, rfl⟩, h.1.1, obey_of_stmts ⟨h.1.2, h.2⟩⟩

/-- The closure of a function with a name. -/
theorem FunctionDecl.Obeys.made {f : FunctionDecl} (h : f.Obeys C) (frame : FrameId) :
    (f.closure frame).Made C := by
  obtain ⟨name, params, body⟩ := f
  simp only [FunctionDecl.Obeys, Discipline.Admits, FunctionDecl.declarations,
    FunctionDecl.accesses, FunctionDecl.exposed, List.forall_mem_append, List.forall_mem_map] at h
  exact ⟨⟨_, rfl⟩, ⟨_, rfl⟩, h.1.1, obey_of_stmts ⟨h.1.2, h.2⟩⟩

/-- The closure of a method. -/
theorem FunctionDecl.Obeys.made_method {f : FunctionDecl} (h : f.Obeys C) (frame : FrameId)
    (className : Token) : (f.method frame className).Made C :=
  ⟨(h.made frame).site, ⟨_, rfl⟩, (h.made frame).params, (h.made frame).body⟩

end Code

/-! ### Steps -/

/-- How a running program changes the store.  New frames are those of blocks and of calls of
closures that are there. -/
inductive Store.Step (C : Discipline) (s : Store) : Store → Prop
  /-- A name is bound. -/
  | define (f : FrameId) {x : String} (hx : C.names x) (slot : Slot) : Step C s (s.define f x slot)
  /-- The frame of a block. -/
  | block (position : Nat) (parent : FrameId) :
      Step C s (s.newFrame (.block position) (some parent)).2
  /-- The frame of a call. -/
  | activation {c : ClosureId} {closure : Closure} (hc : s.closures[c]? = some closure) :
      Step C s (s.newFrame closure.site (some closure.frame)).2
  /-- A closure. -/
  | closure {closure : Closure} (h : closure.Made C) : Step C s (s.newClosure closure).2
  /-- A method that is bound to an object. -/
  | bind {c : ClosureId} {closure : Closure} (hc : s.closures[c]? = some closure)
      (o : ObjectId) : Step C s (s.bind closure (.object o)).2
  /-- A class. -/
  | newClass (k : ClassObject) : Step C s (s.newClass k).2
  /-- An object. -/
  | newObject (k : ClassId) : Step C s (s.newObject k).2
  /-- The value of a class. -/
  | setStatic (k : ClassId) (x : String) (v : Value) : Step C s (s.setStatic k x v)
  /-- The value of an object. -/
  | setField (o : ObjectId) (x : String) (v : Value) : Step C s (s.setField o x v)

/-- How a store changes in some steps. -/
abbrev Store.Steps (C : Discipline) : Store → Store → Prop :=
  Relation.ReflTransGen (Store.Step C)

/-- What is preserved by steps, when closures obey a discipline. -/
structure Kept (C : Discipline) (I : Store → Prop) : Prop where
  /-- Closures obey the discipline. -/
  coded : ∀ {s : Store}, I s → s.Coded C
  /-- A step. -/
  step : ∀ {s s' : Store}, I s → s.Step C s' → I s'

variable {C : Discipline} {I : Store → Prop} {s s' : Store} {m m' : Machine} {α β : Type}

/-- What a step preserves, some steps preserve. -/
theorem Kept.steps (hI : Kept C I) (hs : I s) (h : s.Steps C s') : I s' := by
  induction h with
  | refl => exact hs
  | tail _ hstep ih => exact hI.step ih hstep

/-- A store grows with each step, and names stay bound. -/
theorem Store.Step.keeps (h : s.Step C s') : s.Keeps s' := by
  cases h with
  | define f _ slot => exact s.keeps_define f _ slot
  | block | activation => exact s.keeps_pushFrame _
  | closure => exact (s.extends_newClosure _).keeps rfl
  | bind =>
    rw [Store.bind_eq]
    exact (s.keeps_pushFrame _).trans ((Store.extends_newClosure _ _).keeps rfl)
  | newClass k => exact (s.extends_newClass k).keeps rfl
  | newObject k => exact (s.extends_newObject k).keeps rfl
  | setStatic k x v => exact (s.extends_setStatic k x v).keeps rfl
  | setField o x v => exact (s.extends_setField o x v).keeps rfl

theorem Store.Steps.keeps (h : s.Steps C s') : s.Keeps s' := by
  induction h with
  | refl => exact .refl s
  | tail _ hstep ih => exact ih.trans hstep.keeps

/-- The closures after a step: a new one is made from code or is a bound one. -/
theorem Store.Step.coded (h : s.Step C s') (hs : s.Coded C) : s'.Coded C := by
  -- a closure is put behind those that are there
  have hpush : ∀ {closure : Closure}, closure.Made C → ∀ (c : ClosureId) (closure' : Closure),
      (s.closures.push closure)[c]? = some closure' → closure'.Made C := by
    intro closure hmade c closure' hc
    rw [Array.getElem?_push] at hc
    split at hc
    · cases hc
      exact hmade
    · exact hs c closure' hc
  cases h with
  | define | block | activation | newClass | newObject | setStatic | setField => exact hs
  | closure hmade => exact hpush hmade
  | bind hc o =>
    obtain ⟨hsite, hhome, hparams, hbody⟩ := hs _ _ hc
    exact hpush ⟨hsite, hhome, hparams, hbody⟩

/-- That closures are made from code is itself preserved. -/
theorem Kept.of_coded (C : Discipline) : Kept C (Store.Coded C) :=
  ⟨fun hs => hs, fun hs hstep => hstep.coded hs⟩

/-! ### Actions -/

/-- What an action does to the store of a machine, whose counterpart does the same. -/
def Stays (C : Discipline) (x y : EvalM α) (m : Machine) : Prop :=
  y m = x m ∧ ∀ m', EndsIn x m m' → m.store.Steps C m'.store

/-- Where an action ends that ends with a result. -/
theorem EndsIn.eq_of_ok {x : EvalM α} {a : α} {m'' : Machine} (h : EndsIn x m m'')
    (hx : x m = .ok a m') : m'' = m' := by
  rcases h with ⟨b, hb⟩ | ⟨f, hf⟩
  · cases hx.symm.trans hb
    rfl
  · cases hx.symm.trans hf

/-- Actions that follow each other end where the first fails or where the second ends. -/
theorem EndsIn.bind_cases {x : EvalM α} {k : α → EvalM β} (h : EndsIn (x >>= k) m m') :
    EndsIn x m m' ∨ ∃ a m₁, x m = .ok a m₁ ∧ EndsIn (k a) m₁ m' := by
  cases hx : x m with
  | error f m₁ =>
    have hbind : (x >>= k) m = .error f m₁ := by simp only [Bind.bind, EStateM.bind, hx]
    rcases h with ⟨b, hb⟩ | ⟨f', hf⟩
    · cases hbind.symm.trans hb
    · cases hbind.symm.trans hf
      exact .inl (.inr ⟨f, hx⟩)
  | ok a m₁ =>
    have hbind : (x >>= k) m = k a m₁ := by simp only [Bind.bind, EStateM.bind, hx]
    unfold EndsIn at h
    rw [hbind] at h
    exact .inr ⟨a, m₁, rfl, h⟩

namespace Stays

variable {x y : EvalM α}

/-- An action that ends with a result. -/
theorem of_ok {a : α} (hx : x m = .ok a m') (hy : y m = .ok a m')
    (h : m.store.Steps C m'.store) : Stays C x y m := by
  refine ⟨hy.trans hx.symm, fun m'' hends => ?_⟩
  rw [hends.eq_of_ok hx]
  exact h

theorem pure (a : α) : Stays C (Pure.pure a) (Pure.pure a) m := of_ok rfl rfl .refl

theorem throw (f : Fault) : Stays C (MonadExcept.throw f : EvalM α) (MonadExcept.throw f) m := by
  refine ⟨rfl, fun m' hends => ?_⟩
  rcases hends with ⟨a, ha⟩ | ⟨f', hf⟩
  · cases ha
  · cases hf
    exact .refl

theorem ofExcept (r : Except Fault α) : Stays C (ofExcept r) (LoxLang.ofExcept r) m := by
  cases r with
  | ok a => exact pure a
  | error f => exact throw f

/-- Actions that follow each other. -/
theorem bind_of_ok {k l : α → EvalM β} (h : Stays C x y m)
    (hk : ∀ a m', x m = .ok a m' → m.store.Steps C m'.store → Stays C (k a) (l a) m') :
    Stays C (x >>= k) (y >>= l) m := by
  obtain ⟨heq, hsteps⟩ := h
  refine ⟨?_, fun m' hends => ?_⟩
  · cases hx : x m with
    | ok a m₁ =>
      have hrest := (hk a m₁ hx (hsteps m₁ (.inl ⟨a, hx⟩))).1
      simp only [Bind.bind, EStateM.bind, heq, hx]
      exact hrest
    | error f m₁ => simp only [Bind.bind, EStateM.bind, heq, hx]
  · rcases hends.bind_cases with hends | ⟨a, m₁, hx, hends⟩
    · exact hsteps m' hends
    · have hfirst := hsteps m₁ (.inl ⟨a, hx⟩)
      exact hfirst.trans ((hk a m₁ hx hfirst).2 m' hends)

/-- Actions that follow each other, the second of which does not rely on what the first did. -/
theorem bind {k l : α → EvalM β} (h : Stays C x y m)
    (hk : ∀ a m', m.store.Steps C m'.store → Stays C (k a) (l a) m') :
    Stays C (x >>= k) (y >>= l) m := h.bind_of_ok fun a m' _ hsteps => hk a m' hsteps

/-- A look at the machine. -/
theorem get {k l : Machine → EvalM β} (h : Stays C (k m) (l m) m) :
    Stays C (MonadState.get >>= k) (MonadState.get >>= l) m := h

/-- A question to the store. -/
theorem ask {f : Store → α} {k l : α → EvalM β} (h : Stays C (k (f m.store)) (l (f m.store)) m) :
    Stays C (askStore f >>= k) (askStore f >>= l) m := h

/-- A change of the store. -/
theorem changeStore {f : Store → Store} (h : m.store.Step C (f m.store)) :
    Stays C (changeStore f) (LoxLang.changeStore f) m := of_ok rfl rfl (.single h)

/-- Something new in the store. -/
theorem allocate {f : Store → Nat × Store} (h : m.store.Step C (f m.store).2) :
    Stays C (allocate f) (LoxLang.allocate f) m := of_ok rfl rfl (.single h)

/-- A name that is bound in the current frame. -/
theorem defineHere {x : String} (hx : C.names x) (slot : Slot) :
    Stays C (defineHere x slot) (LoxLang.defineHere x slot) m :=
  of_ok rfl rfl (.single (.define _ hx slot))

theorem printLine (text : String) : Stays C (printLine text) (LoxLang.printLine text) m :=
  of_ok rfl rfl .refl

theorem readClock : Stays C readClock LoxLang.readClock m := of_ok rfl rfl .refl

/-- An action in another frame. -/
theorem inFrame {f : FrameId} (h : Stays C x y { m with current := f }) :
    Stays C (inFrame f x) (LoxLang.inFrame f y) m := by
  obtain ⟨heq, hsteps⟩ := h
  refine ⟨by rw [inFrame_eq, inFrame_eq, heq], fun m' hends => ?_⟩
  unfold EndsIn at hends
  rw [inFrame_eq] at hends
  cases hx : x { m with current := f } with
  | ok a m₁ =>
    rw [hx] at hends
    rcases hends with ⟨b, hb⟩ | ⟨f', hf⟩
    · cases hb
      exact hsteps m₁ (.inl ⟨a, hx⟩)
    · cases hf
  | error e m₁ =>
    rw [hx] at hends
    rcases hends with ⟨b, hb⟩ | ⟨f', hf⟩
    · cases hb
    · cases hf
      exact hsteps m₁ (.inr ⟨e, hx⟩)

end Stays

end LoxLang
