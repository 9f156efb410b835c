import LoxLang.Proofs.Machine.Running
import LoxLang.Proofs.Store.Renaming

/-!
# Renamed programs, and looking names up in two ways

A program and its renamed version are run side by side, on a machine and on the renamed one,
with two ways of looking names up.  The first is guarded: it gives up where nothing is known
about a name.  Where it does not give up, the two find the same as long as frames hold only
names that their constructs declare and the uses of names are as required.  Both hold along
every run, so the runs agree, unless the first gives up.

Which names are bound when a statement is run is told by its text: those that were bound
before it, and those that statements before it have declared.

## Main definitions

* `Machine.Ready` — a tidy machine in which some names are bound.
* `Keeping` — how a machine changes.
* `Renaming.Alike` — the results of a computation and of the renamed one.
* `Follows` — what an action does to a machine, and that its counterpart does the same to the
  renamed machine.
* `Agrees` — two ways of looking names up agree.

## Main results

* `Agrees.runProgram_follows` — running a program and the renamed one.
-/

namespace LoxLang

/-- A machine whose store is tidy and in which some names are bound. -/
structure Machine.Ready (ds : List Declaration) (w : Access → Token → List Binding → Prop)
    (site : Site) (env : List Binding) (m : Machine) : Prop where
  /-- The store is tidy. -/
  tidy : m.store.Tidy ds w
  /-- The current frame is the activation of a construct. -/
  site_eq : m.store.site? m.current = some site
  /-- The names are bound. -/
  bound : ∀ b ∈ env, m.store.Bound b m.current

/-- How a machine changes. -/
structure Keeping (ds : List Declaration) (w : Access → Token → List Binding → Prop)
    (m m' : Machine) : Prop where
  /-- Names stay bound. -/
  kept : m.store.Keeps m'.store
  /-- The store is tidy. -/
  tidy : m'.store.Tidy ds w
  /-- The current frame is the same. -/
  current_eq : m'.current = m.current

/-- The fault of a program and that of the renamed one: they blame the same token, or a name
and the new name. -/
def Renaming.Blames (ρ : Renaming) (f f' : Fault) : Prop :=
  f' = f ∨ ∃ cause t, f = .at cause t ∧ f' = .at cause (ρ.refer t)

/-- The results of a computation and of the renamed one. -/
def Renaming.Alike {α : Type} (ρ : Renaming) (r r' : Except Fault α) : Prop :=
  match r with
  | .ok a => r' = .ok a
  | .error f => ∃ f', ρ.Blames f f' ∧ r' = .error f'

/-- What an action does to a machine: it gives up, or its counterpart does the same to the
renamed machine and `Q` holds of the result, if there is one. -/
def Follows {α : Type} (ρ : Renaming) (ds : List Declaration)
    (w : Access → Token → List Binding → Prop) (x y : EvalM α) (m : Machine)
    (Q : α → Machine → Prop) : Prop :=
  match x m with
  | .ok a m' => y (ρ.machine m) = .ok a (ρ.machine m') ∧ Keeping ds w m m' ∧ Q a m'
  | .error f m' =>
      f = .dangling
        ∨ (∃ f', ρ.Blames f f' ∧ y (ρ.machine m) = .error f' (ρ.machine m')) ∧ Keeping ds w m m'

/-- Two ways of looking names up agree, unless the first gives up. -/
structure Agrees (ρ : Renaming) (ds : List Declaration)
    (w : Access → Token → List Binding → Prop) (n n' : Naming) : Prop where
  /-- The value of a name. -/
  value : ∀ {m : Machine} {t : Token} {site : Site} {env : List Binding}, m.Ready ds w site env →
    t.kind = .kwThis ∨ w .read t env →
    n.value m t = .error .dangling
      ∨ ρ.Alike (n.value m t) (n'.value (ρ.machine m) (ρ.refer t))
  /-- The frame of a name that is assigned to is the activation of a construct that declares
  the name. -/
  target : ∀ {m : Machine} {t : Token} {site : Site} {env : List Binding},
    m.Ready ds w site env → w .write t env →
    n.target m t = .error .dangling
      ∨ ρ.Alike (n.target m t) (n'.target (ρ.machine m) (ρ.refer t))
        ∧ ∀ f, n.target m t = .ok f → ∃ site, m.store.site? f = some site
          ∧ DeclaredAt ds site t.lexeme ∧ ρ.key site t.lexeme = ρ.use t
  /-- Functions and classes keep their names. -/
  spares : ∀ d ∈ ds, d.kind = .function ∨ d.kind = .class → ρ.Spares d

variable {ρ : Renaming} {ds : List Declaration} {w : Access → Token → List Binding → Prop}
  {site : Site} {env : List Binding} {m m' m'' : Machine} {α β : Type}

theorem Renaming.Blames.refl (f : Fault) : ρ.Blames f f := .inl rfl

theorem Renaming.Alike.refl (r : Except Fault α) : ρ.Alike r r := by
  cases r with
  | ok a => rfl
  | error f => exact ⟨f, .refl f, rfl⟩

/-- What is said about the construct of the current frame. -/
theorem Machine.Ready.at_site (hm : m.Ready ds w site env) {P : Site → Prop} (h : P site)
    {site' : Site} (hsite : m.store.site? m.current = some site') : P site' := by
  rw [hm.site_eq, Option.some.injEq] at hsite
  exact hsite ▸ h

/-- More names are bound. -/
theorem Machine.Ready.append (hm : m.Ready ds w site env) {names : List Binding}
    (hnames : ∀ b ∈ names, m.store.Bound b m.current) : m.Ready ds w site (names ++ env) :=
  ⟨hm.tidy, hm.site_eq, fun b hb => (List.mem_append.mp hb).elim (hnames b) (hm.bound b)⟩

namespace Keeping

theorem refl (h : m.store.Tidy ds w) : Keeping ds w m m := ⟨.refl _, h, rfl⟩

theorem trans (h : Keeping ds w m m') (h' : Keeping ds w m' m'') : Keeping ds w m m'' :=
  ⟨h.kept.trans h'.kept, h'.tidy, h'.current_eq.trans h.current_eq⟩

/-- A change of the store alone. -/
theorem store {s : Store} (hk : m.store.Keeps s) (hs : s.Tidy ds w) :
    Keeping ds w m { m with store := s } := ⟨hk, hs, rfl⟩

theorem bound {b : Binding} (h : Keeping ds w m m') (hb : m.store.Bound b m.current) :
    m'.store.Bound b m'.current := by
  rw [h.current_eq]
  exact hb.mono h.kept

theorem ready (h : Keeping ds w m m') (hm : m.Ready ds w site env) : m'.Ready ds w site env :=
  ⟨h.tidy, h.current_eq ▸ h.kept.site?_eq hm.site_eq, fun b hb => h.bound (hm.bound b hb)⟩

end Keeping

namespace Follows

variable {x y : EvalM α} {Q Q' : α → Machine → Prop} {P : β → Machine → Prop}

/-- An action that ends with a result. -/
theorem of_ok {a : α} (hx : x m = .ok a m') (hy : y (ρ.machine m) = .ok a (ρ.machine m'))
    (hk : Keeping ds w m m') (hQ : Q a m') : Follows ρ ds w x y m Q := by
  rw [Follows, hx]
  exact ⟨hy, hk, hQ⟩

/-- An action that fails. -/
theorem of_error {f f' : Fault} (hx : x m = .error f m')
    (hy : y (ρ.machine m) = .error f' (ρ.machine m')) (hf : ρ.Blames f f')
    (hk : Keeping ds w m m') : Follows ρ ds w x y m Q := by
  rw [Follows, hx]
  exact .inr ⟨⟨f', hf, hy⟩, hk⟩

/-- An action that gives up. -/
theorem of_dangling (hx : x m = .error .dangling m') : Follows ρ ds w x y m Q := by
  rw [Follows, hx]
  exact .inl rfl

theorem pure {a : α} (hm : m.store.Tidy ds w) (hQ : Q a m) :
    Follows ρ ds w (Pure.pure a) (Pure.pure a) m Q := of_ok rfl rfl (.refl hm) hQ

theorem throw {f : Fault} (hm : m.store.Tidy ds w) :
    Follows ρ ds w (MonadExcept.throw f : EvalM α) (MonadExcept.throw f) m Q :=
  of_error rfl rfl (.refl f) (.refl hm)

theorem mono (h : Follows ρ ds w x y m Q)
    (hQ : ∀ a m', Keeping ds w m m' → Q a m' → Q' a m') : Follows ρ ds w x y m Q' := by
  unfold Follows at h ⊢
  cases hx : x m with
  | ok a m' =>
    rw [hx] at h
    exact ⟨h.1, h.2.1, hQ a m' h.2.1 h.2.2⟩
  | error f m' =>
    rw [hx] at h
    exact h

/-- Actions that follow each other. -/
theorem bind {k l : α → EvalM β} (h : Follows ρ ds w x y m Q)
    (hk : ∀ a m', Keeping ds w m m' → Q a m' → Follows ρ ds w (k a) (l a) m' P) :
    Follows ρ ds w (x >>= k) (y >>= l) m P := by
  unfold Follows at h
  cases hx : x m with
  | error f m' =>
    rw [hx] at h
    have hbind : (x >>= k) m = .error f m' := by simp only [Bind.bind, EStateM.bind, hx]
    rcases h with rfl | ⟨⟨f', hf, hy⟩, hkeep⟩
    · exact of_dangling hbind
    · have hbind' : (y >>= l) (ρ.machine m) = .error f' (ρ.machine m') := by
        simp only [Bind.bind, EStateM.bind, hy]
      exact of_error hbind hbind' hf hkeep
  | ok a m' =>
    rw [hx] at h
    obtain ⟨hy, hkeep, hQ⟩ := h
    have hbind : (x >>= k) m = k a m' := by simp only [Bind.bind, EStateM.bind, hx]
    have hbind' : (y >>= l) (ρ.machine m) = l a (ρ.machine m') := by
      simp only [Bind.bind, EStateM.bind, hy]
    have hrest := hk a m' hkeep hQ
    unfold Follows at hrest ⊢
    rw [hbind, hbind']
    cases hr : k a m' with
    | ok b m'' =>
      rw [hr] at hrest
      exact ⟨hrest.1, hkeep.trans hrest.2.1, hrest.2.2⟩
    | error f m'' =>
      rw [hr] at hrest
      exact hrest.imp_right fun hrest => ⟨hrest.1, hkeep.trans hrest.2⟩

/-- The result of a computation that needs no machine. -/
theorem ofExcept {r r' : Except Fault α} (hr : ρ.Alike r r') (hm : m.store.Tidy ds w)
    (hok : ∀ a, r = .ok a → Q a m) :
    Follows ρ ds w (ofExcept r) (LoxLang.ofExcept r') m Q := by
  cases r with
  | ok a =>
    cases (hr : r' = .ok a)
    exact pure hm (hok a rfl)
  | error f =>
    obtain ⟨f', hf, rfl⟩ := hr
    exact of_error rfl rfl hf (.refl hm)

/-- A look at the machine. -/
theorem get {k l : Machine → EvalM β} (h : Follows ρ ds w (k m) (l (ρ.machine m)) m P) :
    Follows ρ ds w (MonadState.get >>= k) (MonadState.get >>= l) m P := h

/-- A question to the store. -/
theorem ask {f : Store → α} {k l : α → EvalM β}
    (h : Follows ρ ds w (k (f m.store)) (l (f (ρ.store m.store))) m P) :
    Follows ρ ds w (askStore f >>= k) (askStore f >>= l) m P := h

/-- A question to which the renamed store has the same answer. -/
theorem ask_same {f : Store → α} {k l : α → EvalM β} (hf : f (ρ.store m.store) = f m.store)
    (h : Follows ρ ds w (k (f m.store)) (l (f m.store)) m P) :
    Follows ρ ds w (askStore f >>= k) (askStore f >>= l) m P := by
  refine ask ?_
  rw [hf]
  exact h

/-- Something new in the store. -/
theorem allocate {f g : Store → Nat × Store} {P : Nat → Machine → Prop}
    (hg : g (ρ.store m.store) = ((f m.store).1, ρ.store (f m.store).2))
    (hk : m.store.Keeps (f m.store).2) (hs : (f m.store).2.Tidy ds w)
    (hP : P (f m.store).1 { m with store := (f m.store).2 }) :
    Follows ρ ds w (allocate f) (LoxLang.allocate g) m P := by
  refine of_ok rfl ?_ (.store hk hs) hP
  have hstep : LoxLang.allocate g (ρ.machine m)
      = .ok (g (ρ.store m.store)).1 { ρ.machine m with store := (g (ρ.store m.store)).2 } := rfl
  rw [hstep, hg]
  rfl

/-- A change of the store. -/
theorem changeStore {f g : Store → Store} {P : Unit → Machine → Prop}
    (hg : g (ρ.store m.store) = ρ.store (f m.store))
    (hk : m.store.Keeps (f m.store)) (hs : (f m.store).Tidy ds w)
    (hP : P () { m with store := f m.store }) :
    Follows ρ ds w (changeStore f) (LoxLang.changeStore g) m P := by
  refine of_ok rfl ?_ (.store hk hs) hP
  have hstep : LoxLang.changeStore g (ρ.machine m)
      = .ok () { ρ.machine m with store := g (ρ.store m.store) } := rfl
  rw [hstep, hg]
  rfl

/-- An action in another frame. -/
theorem inFrame {f : FrameId} (h : Follows ρ ds w x y { m with current := f } Q) :
    Follows ρ ds w (inFrame f x) (LoxLang.inFrame f y) m fun _ _ => True := by
  unfold Follows at h ⊢
  rw [inFrame_eq, inFrame_eq]
  have hcurrent : ({ ρ.machine m with current := f } : Machine)
      = ρ.machine { m with current := f } := rfl
  rw [hcurrent]
  cases hx : x { m with current := f } with
  | ok a m' =>
    rw [hx] at h
    obtain ⟨hy, hkeep, -⟩ := h
    rw [hy]
    exact ⟨rfl, ⟨hkeep.kept, hkeep.tidy, rfl⟩, trivial⟩
  | error e m' =>
    rw [hx] at h
    rcases h with rfl | ⟨⟨f', hf, hy⟩, hkeep⟩
    · exact .inl rfl
    · rw [hy]
      exact .inr ⟨⟨f', hf, rfl⟩, hkeep.kept, hkeep.tidy, rfl⟩

/-- Actions for the elements of a list, one after the other. -/
theorem mapM {γ : Type} {k l : γ → EvalM α} (xs : List γ) (hm : m.store.Tidy ds w)
    (h : ∀ c ∈ xs, ∀ m', Keeping ds w m m' → Follows ρ ds w (k c) (l c) m' fun _ _ => True) :
    Follows ρ ds w (xs.mapM k) (xs.mapM l) m fun _ _ => True := by
  induction xs generalizing m with
  | nil =>
    rw [List.mapM_nil, List.mapM_nil]
    exact pure hm trivial
  | cons c xs ih =>
    rw [List.mapM_cons, List.mapM_cons]
    refine (h c List.mem_cons_self m (.refl hm)).bind fun a m₁ h₁ _ => ?_
    refine (ih h₁.tidy fun c' hc' m' h' =>
      h c' (List.mem_cons_of_mem c hc') m' (h₁.trans h')).bind fun as m₂ h₂ _ => ?_
    exact pure h₂.tidy trivial

end Follows

/-! ### The parts of a running program -/

/-- Closures may be called with as many arguments as they have parameters. -/
def CallsAlike (ρ : Renaming) (ds : List Declaration) (w : Access → Token → List Binding → Prop)
    (call call' : Invoker) : Prop :=
  ∀ {m : Machine} {c : ClosureId} {vs : List Value}, m.store.Tidy ds w →
    (∀ closure, m.store.closures[c]? = some closure → vs.length = closure.params.length) →
    Follows ρ ds w (call c vs) (call' c vs) m fun _ _ => True

/-- Statements may be run where the names they use are bound; then the names they declare are
bound, too. -/
def RunsAlike (ρ : Renaming) (ds : List Declaration) (w : Access → Token → List Binding → Prop)
    (run run' : Stmt → EvalM Completion) : Prop :=
  ∀ {m : Machine} {s : Stmt} {site : Site} {env : List Binding}, m.Ready ds w site env →
    s.declarations site ⊆ ds → s.Scoped w site env →
    Follows ρ ds w (run s) (run' (s.rename ρ site)) m fun c m' =>
      c = .normal → ∀ x ∈ s.declared, m'.store.Bound (site, x) m'.current

section Parts

variable {n n' : Naming} {call call' : Invoker} {run run' : Stmt → EvalM Completion}

theorem Agrees.readName_follows (laws : Agrees ρ ds w n n') {t : Token}
    (hm : m.Ready ds w site env) (ht : t.kind = .kwThis ∨ w .read t env) :
    Follows ρ ds w (readName n t) (readName n' (ρ.refer t)) m fun _ _ => True := by
  rcases laws.value hm ht with hgive | halike
  · have hname : readName n t m = ofExcept (n.value m t) m := rfl
    exact Follows.of_dangling (by rw [hname, hgive]; rfl)
  · exact Follows.get (Follows.ofExcept halike hm.tidy fun _ _ => trivial)

theorem Agrees.assignName_follows (laws : Agrees ρ ds w n n') {t : Token} (v : Value)
    (hm : m.Ready ds w site env) (ht : w .write t env) :
    Follows ρ ds w (assignName n t v) (assignName n' (ρ.refer t) v) m fun _ _ => True := by
  rcases laws.target hm ht with hgive | ⟨halike, hdeclared⟩
  · have hname : assignName n t v m
        = (ofExcept (n.target m t) >>= fun f => changeStore fun s =>
            s.define f t.lexeme (some v)) m := rfl
    exact Follows.of_dangling (by rw [hname, hgive]; rfl)
  · refine Follows.get ?_
    refine (Follows.ofExcept (Q := fun f m' => m' = m ∧ n.target m t = .ok f) halike hm.tidy
      fun f hf => ⟨rfl, hf⟩).bind ?_
    rintro f m₁ h₁ ⟨rfl, hf⟩
    obtain ⟨site', hsite', hx, hkey⟩ := hdeclared f hf
    refine Follows.changeStore (Renaming.define_store fun σ hσ => ?_)
      (m₁.store.keeps_define _ _ _) (hm.tidy.define fun σ hσ => ?_) trivial
    · cases hsite'.symm.trans hσ
      exact hkey
    · cases hsite'.symm.trans hσ
      exact hx.mayHold v

/-- A name is bound in the current frame, whose construct declares it. -/
theorem defineHere_follows {x y : String} {slot : Slot} (hm : m.Ready ds w site env)
    (hname : MayHold ds site x slot) (hkey : ρ.key site x = y) :
    Follows ρ ds w (defineHere x slot) (defineHere y slot) m
      fun _ m' => m'.store.Bound (site, x) m'.current := by
  have hstore : (ρ.store m.store).define m.current y slot
      = ρ.store (m.store.define m.current x slot) :=
    Renaming.define_store fun _ h => hm.at_site (P := fun σ => ρ.key σ x = y) hkey h
  have hy : defineHere y slot (ρ.machine m)
      = .ok () { ρ.machine m with store := (ρ.store m.store).define m.current y slot } := rfl
  rw [hstore] at hy
  refine Follows.of_ok rfl hy (.store (m.store.keeps_define _ _ _) (hm.tidy.define fun _ h => ?_))
    (Store.bound_define hm.site_eq)
  exact hm.at_site (P := fun σ => MayHold ds σ x slot) hname h

/-- A new frame inside of another. -/
theorem newFrame_follows (site : Site) (parent : FrameId) (hm : m.store.Tidy ds w) :
    Follows ρ ds w (allocate fun s => s.newFrame site (some parent))
      (allocate fun s => s.newFrame site (some parent)) m
      fun f m' => m'.store.site? f = some site ∧ m'.store.parent? f = some parent := by
  refine Follows.allocate (ρ.newFrame_store m.store site (some parent))
    (m.store.keeps_pushFrame _) (hm.newFrame _ _) ⟨?_, ?_⟩
  · simp [Store.site?, Store.newFrame]
  · simp [Store.parent?, Store.newFrame]

theorem printLine_follows (text : String) (hm : m.store.Tidy ds w) :
    Follows ρ ds w (printLine text) (printLine text) m fun _ _ => True :=
  Follows.of_ok rfl rfl ⟨.refl _, hm, rfl⟩ trivial

theorem bind_follows {c : ClosureId} {closure : Closure} {receiver : Value}
    (hm : m.store.Tidy ds w) (hc : m.store.closures[c]? = some closure) :
    Follows ρ ds w (allocate fun s => s.bind closure receiver)
      (allocate fun s => s.bind (ρ.closure closure) receiver) m
      fun b m' => ∀ closure', m'.store.closures[b]? = some closure' →
        closure'.params = closure.params := by
  have hkeeps : m.store.Keeps (m.store.bind closure receiver).2 := by
    rw [Store.bind_eq]
    exact (m.store.keeps_pushFrame _).trans ((Store.extends_newClosure _ _).keeps rfl)
  refine Follows.allocate (ρ.bind_store m.store closure receiver) hkeeps (hm.bind hc receiver)
    fun closure' hclosure' => ?_
  rw [Store.bind_eq] at hclosure'
  have hnew : _ = some closure' := Array.getElem?_push_size.symm.trans hclosure'
  cases hnew
  rfl

/-- A new object changes neither classes nor closures. -/
theorem arity?_newObject (s : Store) (k : ClassId) (v : Value) :
    (s.newObject k).2.arity? v = s.arity? v := by
  have hclasses : (s.newObject k).2.classes = s.classes := rfl
  have hmethod : ∀ c, (s.newObject k).2.method? c "init" = s.method? c "init" := fun c =>
    Store.method?_congr hclasses c "init"
  cases v with
  | classRef c =>
    simp only [Store.arity?, hmethod]
    rfl
  | _ => rfl

theorem construct_follows (hcall : CallsAlike ρ ds w call call') {k : ClassId}
    {vs : List Value} (hm : m.store.Tidy ds w)
    (harity : m.store.arity? (.classRef k) = some (vs.length : Int)) :
    Follows ρ ds w (construct call k vs) (construct call' k vs) m fun _ _ => True := by
  unfold construct
  refine (Follows.allocate (P := fun _ m' => m'.store.arity? (.classRef k) = some (vs.length : Int))
    rfl ((m.store.extends_newObject k).keeps rfl)
    (hm.of_extends (m.store.extends_newObject k) rfl rfl)
    ((arity?_newObject m.store k _).trans harity)).bind fun o m₁ h₁ harity₁ => ?_
  refine Follows.ask ?_
  rw [Renaming.method?_store]
  cases hinit : m₁.store.method? k "init" with
  | none => exact Follows.pure h₁.tidy trivial
  | some c =>
    simp only [Store.arity?, hinit] at harity₁
    obtain ⟨closure, hclosure, hlength⟩ := Option.map_eq_some_iff.mp harity₁
    simp only [Option.bind_some, Renaming.closures_getElem?, hclosure, Option.map_some]
    refine (bind_follows h₁.tidy hclosure).bind fun b m₂ h₂ hb => ?_
    refine (hcall h₂.tidy fun closure' hclosure' => ?_).bind fun _ m₃ h₃ _ => ?_
    · rw [hb closure' hclosure']
      exact (Int.ofNat.inj hlength).symm
    · exact Follows.pure h₃.tidy trivial

theorem callNative_follows (i : NativeId) (hm : m.store.Tidy ds w) :
    Follows ρ ds w (callNative i) (callNative i) m fun _ _ => True := by
  refine Follows.ask_same rfl ?_
  cases m.store.natives[i]? with
  | none => exact Follows.throw hm
  | some native =>
    cases haction : native.action with
    | clock =>
      simp only [haction]
      exact Follows.of_ok rfl rfl ⟨.refl _, hm, rfl⟩ trivial
    | constant v =>
      simp only [haction]
      exact Follows.pure hm trivial

/-- What is called gets as many arguments as it takes. -/
theorem apply_follows (hcall : CallsAlike ρ ds w call call') {callee : Value} {vs : List Value}
    (hm : m.store.Tidy ds w) (harity : m.store.arity? callee = some (vs.length : Int)) :
    Follows ρ ds w (apply call callee vs) (apply call' callee vs) m fun _ _ => True := by
  cases callee with
  | closure c =>
    refine hcall hm fun closure hclosure => ?_
    simp only [Store.arity?, hclosure, Option.map_some, Option.some.injEq] at harity
    exact (Int.ofNat.inj harity).symm
  | native i => exact callNative_follows i hm
  | classRef k => exact construct_follows hcall hm harity
  | nil | bool | number | text | object => exact Follows.throw hm

/-- The closure of the method that an object has. -/
theorem Renaming.methodOf_store (ρ : Renaming) (s : Store) (o : ObjectId) (name : String) :
    (do
      let x ← (ρ.store s).objects[o]?
      let c ← (ρ.store s).method? x.classId name
      (ρ.store s).closures[c]?)
      = (do
          let x ← s.objects[o]?
          let c ← s.method? x.classId name
          s.closures[c]?).map ρ.closure := by
  simp only [method?_store, closures_getElem?, show (ρ.store s).objects = s.objects from rfl,
    Option.bind_eq_bind]
  cases s.objects[o]? with
  | none => rfl
  | some x =>
    simp only [Option.bind_some]
    cases s.method? x.classId name <;> rfl

theorem getFromObject_follows (hcall : CallsAlike ρ ds w call call') (o : ObjectId)
    (name : Token) (hm : m.store.Tidy ds w) :
    Follows ρ ds w (getFromObject call o name) (getFromObject call' o name) m
      fun _ _ => True := by
  unfold getFromObject
  refine Follows.ask_same rfl ?_
  cases m.store.field? o name.lexeme with
  | some v => exact Follows.pure hm trivial
  | none =>
    refine Follows.ask ?_
    rw [ρ.methodOf_store]
    -- the method, if the object and its class are there and have one
    generalize hlookup : (do
      let x ← m.store.objects[o]?
      let c ← m.store.method? x.classId name.lexeme
      m.store.closures[c]?) = found
    cases found with
    | none => exact Follows.throw hm
    | some closure =>
      simp only [Option.bind_eq_bind, Option.bind_eq_some_iff] at hlookup
      obtain ⟨x, -, c, -, hclosure⟩ := hlookup
      refine (bind_follows hm hclosure).bind fun b m₁ h₁ hb => ?_
      have hsame : (ρ.closure closure).isGetter = closure.isGetter := rfl
      rw [hsame]
      cases hgetter : closure.isGetter with
      | false => exact Follows.pure h₁.tidy trivial
      | true =>
        refine hcall h₁.tidy fun closure' hclosure' => ?_
        rw [hb closure' hclosure', (hm.closures hclosure).getter hgetter]
        rfl

theorem getProperty_follows (hcall : CallsAlike ρ ds w call call') (v : Value) (name : Token)
    (hm : m.store.Tidy ds w) :
    Follows ρ ds w (getProperty call v name) (getProperty call' v name) m fun _ _ => True := by
  cases v with
  | object o => exact getFromObject_follows hcall o name hm
  | classRef k =>
    refine Follows.ask_same (ρ.static?_store m.store k name.lexeme) ?_
    cases m.store.static? k name.lexeme with
    | some v => exact Follows.pure hm trivial
    | none => exact Follows.ask_same rfl (Follows.throw hm)
  | nil | bool | number | text | closure | native => exact Follows.throw hm

theorem setProperty_follows {value value' : EvalM Value} (v : Value) (name : Token)
    (hm : m.store.Tidy ds w) (hvalue : Follows ρ ds w value value' m fun _ _ => True) :
    Follows ρ ds w (setProperty v name value) (setProperty v name value') m
      fun _ _ => True := by
  cases v with
  | object o =>
    refine hvalue.bind fun u m₁ h₁ _ => ?_
    have he := m₁.store.extends_setField o name.lexeme u
    refine (Follows.changeStore (f := (·.setField o name.lexeme u)) (P := fun _ _ => True) rfl
      (he.keeps rfl) (h₁.tidy.of_extends he rfl rfl) trivial).bind fun _ m₂ h₂ _ => ?_
    exact Follows.pure h₂.tidy trivial
  | classRef k =>
    refine hvalue.bind fun u m₁ h₁ _ => ?_
    have he := m₁.store.extends_setStatic k name.lexeme u
    refine (Follows.changeStore (f := (·.setStatic k name.lexeme u)) (P := fun _ _ => True) rfl
      (he.keeps rfl) (h₁.tidy.of_extends he rfl rfl) trivial).bind fun _ m₂ h₂ _ => ?_
    exact Follows.pure h₂.tidy trivial
  | nil | bool | number | text | closure | native => exact Follows.throw hm

/-! ### Declarations -/

/-- The closure of a function uses what is bound where it is made, and its own name. -/
theorem FunctionDecl.closure_tidy {f : FunctionDecl} {s : Store} {frame : FrameId}
    (hf : f.declarations ⊆ ds) (hscoped : f.Scoped w env)
    (hbound : ∀ b ∈ env, s.Bound b frame) : (f.closure frame).Tidy ds w s := by
  cases f with
  | mk name params body =>
    rw [FunctionDecl.declarations, List.append_subset] at hf
    exact ⟨declaredAt_params hf.1, hf.2, ⟨0, rfl⟩, nofun, env, hbound, hscoped⟩

theorem FunctionDecl.method_tidy {f : FunctionDecl} {s : Store} {frame : FrameId}
    (className : Token) (hf : f.declarations ⊆ ds) (hscoped : f.Scoped w env)
    (hbound : ∀ b ∈ env, s.Bound b frame) : (f.method frame className).Tidy ds w s := by
  have hclosure := f.closure_tidy hf hscoped hbound
  refine ⟨hclosure.params, hclosure.body, ⟨className.position, rfl⟩, fun hgetter => ?_,
    hclosure.uses⟩
  -- only a method without parameters is a getter
  simp only [FunctionDecl.method, Bool.and_eq_true, List.isEmpty_iff] at hgetter
  exact hgetter.2

/-- Functions by their names, if their closures are put into the store one after the other. -/
def listedFrom : List FunctionDecl → ClosureId → Table String ClosureId → Table String ClosureId
  | [], _, made => made
  | f :: fs, c, made => listedFrom fs (c + 1) (made.insert f.name.lexeme c)

theorem listedFrom_rename (ρ : Renaming) (fs : List FunctionDecl) (c : ClosureId)
    (made : Table String ClosureId) :
    listedFrom (functionsRename ρ fs) c made = listedFrom fs c made := by
  induction fs generalizing c made with
  | nil => rfl
  | cons f fs ih => rw [functionsRename, listedFrom, listedFrom, ih, FunctionDecl.name_rename]

/-- All that is done for a list of functions is to put their closures into the store. -/
theorem allocateAll_eq (closure : FunctionDecl → Closure) (fs : List FunctionDecl)
    (made : Table String ClosureId) (m : Machine) :
    allocateAll closure fs made m
      = .ok (listedFrom fs m.store.closures.size made)
          { m with store := m.store.addClosures (fs.map closure) } := by
  induction fs generalizing made m with
  | nil =>
    rw [List.map_nil, Store.addClosures, Array.append_empty]
    rfl
  | cons f fs ih =>
    have hstep : allocateAll closure (f :: fs) made m
        = allocateAll closure fs (made.insert f.name.lexeme m.store.closures.size)
            { m with store := (m.store.newClosure (closure f)).2 } := rfl
    have hsize : (m.store.newClosure (closure f)).2.closures.size = m.store.closures.size + 1 :=
      Array.size_push ..
    rw [hstep, ih]
    dsimp only
    rw [hsize, Store.newClosure_eq, Store.addClosures_addClosures]
    rfl

/-- The class that a declaration makes, if the next closure is `c`. -/
def declaredClass (name : Token) (superclass : Option ClassId)
    (methods statics : List FunctionDecl) (c : ClosureId) : ClassObject :=
  { name := name.lexeme, superclass, methods := listedFrom methods c .empty
    statics := ⟨(listedFrom statics (c + methods.length) .empty).entries.map
      fun (n, c) => (n, .closure c)⟩ }

/-- What declaring a class does to the machine. -/
theorem declareClass_eq (name : Token) (superclass : Option ClassId)
    (methods statics : List FunctionDecl) (m : Machine) :
    declareClass name superclass methods statics m
      = .ok () { m with
          store := ((m.store.addClosures (methods.map (FunctionDecl.method · m.current name)
            ++ statics.map (FunctionDecl.closure · m.current))).newClass
              (declaredClass name superclass methods statics m.store.closures.size)).2.define
              m.current name.lexeme (some (.classRef m.store.classes.size)) } := by
  have hstep : declareClass name superclass methods statics m
      = (allocateAll (fun f => f.method m.current name) methods .empty >>= fun methods =>
          allocateAll (fun f => f.closure m.current) statics .empty >>= fun statics =>
          allocate (fun s => s.newClass
            { name := name.lexeme, superclass, methods
              statics := ⟨statics.entries.map fun (n, c) => (n, .closure c)⟩ }) >>= fun k =>
          defineHere name.lexeme (some (.classRef k))) m := rfl
  have hsize : (m.store.addClosures (methods.map fun f => f.method m.current name)).closures.size
      = m.store.closures.size + methods.length := by simp [Store.addClosures]
  rw [hstep, ← Store.addClosures_addClosures]
  simp only [Bind.bind, EStateM.bind, allocateAll_eq, hsize]
  rfl

/-- Functions that are declared in the current frame under one name. -/
theorem declare_follows {x y : EvalM α} {a : α} {name : String} {v : Value} {s : Store}
    {cs : List Closure} (hm : m.Ready ds w site env) (hname : DeclaredAt ds site name)
    (hkey : ρ.key site name = name)
    (hx : x m = .ok a { m with store := s.define m.current name (some v) })
    (hy : y (ρ.machine m)
      = .ok a { ρ.machine m with store := (ρ.store s).define m.current name (some v) })
    (he : m.store.Extends s) (hframes : s.frames = m.store.frames)
    (hcs : s.closures = (m.store.addClosures cs).closures)
    (htidy : ∀ closure ∈ cs, ∀ s' : Store, (∀ b ∈ (site, name) :: env, s'.Bound b m.current) →
      closure.Tidy ds w s') :
    Follows ρ ds w x y m fun _ m' => m'.store.Bound (site, name) m'.current := by
  have hsite : s.site? m.current = some site := by rw [Store.site?, hframes]; exact hm.site_eq
  have hbound : ∀ b ∈ (site, name) :: env,
      (s.define m.current name (some v)).Bound b m.current := by
    intro b hb
    rcases List.mem_cons.mp hb with rfl | hb
    · exact Store.bound_define hsite
    · exact ((hm.bound b hb).mono (he.keeps hframes)).mono (s.keeps_define _ _ _)
  have hstore : (ρ.store s).define m.current name (some v)
      = ρ.store (s.define m.current name (some v)) := by
    refine Renaming.define_store fun σ hσ => ?_
    cases hsite.symm.trans hσ
    exact hkey
  rw [hstore] at hy
  refine Follows.of_ok hx hy (.store ((he.keeps hframes).trans (s.keeps_define _ _ _)) ?_)
    (hbound _ List.mem_cons_self)
  exact hm.tidy.declare he hframes hcs
    (fun _ h => hm.at_site (P := fun σ => MayHold ds σ name (some v)) (hname.mayHold v) h)
    fun closure hclosure => htidy closure hclosure _ hbound

theorem declareClass_follows {name : Token} {superclass : Option ClassId}
    {methods statics : List FunctionDecl} (hm : m.Ready ds w site env)
    (hname : DeclaredAt ds site name.lexeme) (hkey : ρ.key site name.lexeme = name.lexeme)
    (hmethods : functionsDeclarations methods ⊆ ds)
    (hstatics : functionsDeclarations statics ⊆ ds)
    (hmethods' : functionsScoped w methods ((site, name.lexeme) :: env))
    (hstatics' : functionsScoped w statics ((site, name.lexeme) :: env)) :
    Follows ρ ds w (declareClass name superclass methods statics)
      (declareClass name superclass (functionsRename ρ methods) (functionsRename ρ statics)) m
      fun _ m' => m'.store.Bound (site, name.lexeme) m'.current := by
  have hy := declareClass_eq name superclass (functionsRename ρ methods)
    (functionsRename ρ statics) (ρ.machine m)
  -- the closures of the renamed functions are the renamed closures
  have hclosures : (functionsRename ρ methods).map (FunctionDecl.method · m.current name)
        ++ (functionsRename ρ statics).map (FunctionDecl.closure · m.current)
      = (methods.map (FunctionDecl.method · m.current name)
          ++ statics.map (FunctionDecl.closure · m.current)).map ρ.closure := by
    simp only [functionsRename_eq_map, List.map_append, List.map_map, Function.comp_def,
      ρ.method_rename, ρ.closure_rename]
  have hclass : declaredClass name superclass (functionsRename ρ methods)
        (functionsRename ρ statics) (ρ.store m.store).closures.size
      = declaredClass name superclass methods statics m.store.closures.size := by
    have hsize : (ρ.store m.store).closures.size = m.store.closures.size := Array.size_map
    have hlength : (functionsRename ρ methods).length = methods.length := by
      rw [functionsRename_eq_map, List.length_map]
    simp only [declaredClass, listedFrom_rename, hsize, hlength]
  have hstores : (ρ.machine m).store.addClosures
      ((functionsRename ρ methods).map (FunctionDecl.method · (ρ.machine m).current name)
        ++ (functionsRename ρ statics).map (FunctionDecl.closure · (ρ.machine m).current))
      = ρ.store (m.store.addClosures (methods.map (FunctionDecl.method · m.current name)
          ++ statics.map (FunctionDecl.closure · m.current))) :=
    (congrArg _ hclosures).trans (ρ.addClosures_store m.store _)
  rw [hstores, show (ρ.machine m).store = ρ.store m.store from rfl, hclass] at hy
  refine declare_follows hm hname hkey (declareClass_eq name superclass methods statics m) hy
    ((m.store.extends_addClosures _).trans (Store.extends_newClass _ _)) rfl rfl
    fun closure hclosure s' hbound => ?_
  rcases List.mem_append.mp hclosure with hclosure | hclosure
  · obtain ⟨f, hf, rfl⟩ := List.mem_map.mp hclosure
    exact f.method_tidy name (fun d hd => hmethods (mem_functionsDeclarations.mpr ⟨f, hf, hd⟩))
      (functionsScoped_iff.mp hmethods' f hf) hbound
  · obtain ⟨f, hf, rfl⟩ := List.mem_map.mp hclosure
    exact f.closure_tidy (fun d hd => hstatics (mem_functionsDeclarations.mpr ⟨f, hf, hd⟩))
      (functionsScoped_iff.mp hstatics' f hf) hbound

theorem Agrees.readSuperclass_follows (laws : Agrees ρ ds w n n') {superclass : Option Token}
    (hm : m.Ready ds w site env) (hname : ∀ t ∈ superclass, w .read t env) :
    Follows ρ ds w (readSuperclass n superclass) (readSuperclass n' (superclass.map ρ.refer)) m
      fun _ _ => True := by
  cases superclass with
  | none => exact Follows.pure hm.tidy trivial
  | some t =>
    refine (laws.readName_follows hm (.inr (hname t rfl))).bind fun v m₁ h₁ _ => ?_
    cases v with
    | classRef k => exact Follows.pure h₁.tidy trivial
    | nil | bool | number | text | closure | native | object =>
      exact Follows.of_error rfl rfl (.inr ⟨_, t, rfl, rfl⟩) (.refl h₁.tidy)

/-! ### Statements in order, loops and calls -/

theorem runAll_follows (hrun : RunsAlike ρ ds w run run') (ss : List Stmt)
    (hm : m.Ready ds w site env) (hss : stmtsDeclarations ss site ⊆ ds)
    (hscoped : stmtsScoped w ss site env) :
    Follows ρ ds w (runAll run ss) (runAll run' (stmtsRename ρ ss site)) m fun _ _ => True := by
  induction ss generalizing m env with
  | nil => exact Follows.pure hm.tidy trivial
  | cons s ss ih =>
    rw [stmtsDeclarations, List.append_subset] at hss
    rw [stmtsRename, runAll, runAll]
    refine (hrun hm hss.1 hscoped.1).bind fun c m₁ h₁ hc => ?_
    cases c with
    | normal =>
      exact ih ((h₁.ready hm).append (List.forall_mem_map.mpr (hc rfl))) hss.2 hscoped.2
    | returned | broke | continued => exact Follows.pure h₁.tidy trivial

theorem repeatWhile_follows {condition condition' : EvalM Bool} {round round' : EvalM Completion}
    {increment increment' : EvalM Unit}
    (hcondition : ∀ {m : Machine}, m.Ready ds w site env →
      Follows ρ ds w condition condition' m fun _ _ => True)
    (hround : ∀ {m : Machine}, m.Ready ds w site env →
      Follows ρ ds w round round' m fun _ _ => True)
    (hincrement : ∀ {m : Machine}, m.Ready ds w site env →
      Follows ρ ds w increment increment' m fun _ _ => True)
    (rounds : Nat) (hm : m.Ready ds w site env) :
    Follows ρ ds w (repeatWhile condition round increment rounds)
      (repeatWhile condition' round' increment' rounds) m fun _ _ => True := by
  induction rounds generalizing m with
  | zero => exact Follows.throw hm.tidy
  | succ rounds ih =>
    rw [repeatWhile, repeatWhile]
    refine (hcondition hm).bind fun b m₁ h₁ _ => ?_
    cases b with
    | false => exact Follows.pure h₁.tidy trivial
    | true =>
      refine (hround (h₁.ready hm)).bind fun c m₂ h₂ _ => ?_
      have h₁₂ := h₁.trans h₂
      cases c with
      | broke | returned => exact Follows.pure h₂.tidy trivial
      | normal | continued =>
        refine (hincrement (h₁₂.ready hm)).bind fun _ m₃ h₃ _ => ?_
        exact ih ((h₁₂.trans h₃).ready hm)

theorem bindParams_follows {f : FrameId} (params : List Token) {vs : List Value}
    (hm : m.store.Tidy ds w) (hlength : vs.length = params.length)
    (hsite : m.store.site? f = some site) (hparams : ∀ t ∈ params, DeclaredAt ds site t.lexeme) :
    Follows ρ ds w (bindParams f params vs) (bindParams f (params.map (ρ.declare site)) vs) m
      fun _ m' => ∀ t ∈ params, m'.store.Bound (site, t.lexeme) f := by
  induction params generalizing m vs with
  | nil => exact Follows.pure hm fun t ht => absurd ht List.not_mem_nil
  | cons t params ih =>
    cases vs with
    | nil => cases hlength
    | cons v vs =>
      rw [List.map_cons, bindParams, bindParams]
      have hk := m.store.keeps_define f t.lexeme (some v)
      have hat : ∀ {P : Site → Prop}, P site → ∀ σ, m.store.site? f = some σ → P σ := by
        intro P hP σ hσ
        cases hsite.symm.trans hσ
        exact hP
      refine (Follows.changeStore (P := fun _ m' => m'.store.Bound (site, t.lexeme) f
        ∧ m'.store.site? f = some site)
        (Renaming.define_store (hat (P := fun σ => ρ.key σ t.lexeme = _) rfl)) hk
        (hm.define (hat (P := fun σ => MayHold ds σ t.lexeme (some v))
          ((hparams t List.mem_cons_self).mayHold v)))
        ⟨Store.bound_define hsite, hk.site?_eq hsite⟩).bind fun _ m₁ h₁ ht => ?_
      have hlength' : vs.length = params.length := Nat.succ.inj hlength
      refine (ih h₁.tidy hlength' ht.2 fun t' ht' =>
        hparams t' (List.mem_cons_of_mem t ht')).mono fun _ m₂ h₂ hbound t' ht' => ?_
      rcases List.mem_cons.mp ht' with rfl | ht'
      · exact ht.1.mono h₂.kept
      · exact hbound t' ht'

/-- The end of a call only looks at the machine. -/
theorem callResult_follows (closure : Closure) (c : Completion) (hm : m.store.Tidy ds w) :
    Follows ρ ds w (callResult closure c) (callResult (ρ.closure closure) c) m
      fun _ _ => True := by
  have hend : ∀ v : Value, Follows ρ ds w (callValue closure v) (callValue (ρ.closure closure) v) m
      fun _ _ => True := by
    intro v
    show Follows ρ ds w (callValue closure v) (callValue closure v) m _
    unfold callValue
    split
    · refine Follows.ask_same (ρ.slot?_store_this m.store closure.frame) ?_
      split
      · exact Follows.pure hm trivial
      · exact Follows.throw hm
    · exact Follows.pure hm trivial
  cases c with
  | normal =>
    rw [callResult_normal, callResult_normal]
    exact hend .nil
  | returned keyword v =>
    rw [callResult_returned, callResult_returned]
    exact hend v
  | broke | continued => exact Follows.throw hm

/-- The body of a closure runs in a new frame, in which its parameters are bound. -/
theorem enter_follows (hrun : RunsAlike ρ ds w run run') {closure : Closure} {vs : List Value}
    (hm : m.store.Tidy ds w) (hclosure : closure.Tidy ds w m.store)
    (hlength : vs.length = closure.params.length) :
    Follows ρ ds w (enter run closure vs) (enter run' (ρ.closure closure) vs) m
      fun _ _ => True := by
  obtain ⟨env, hbound, hscoped⟩ := hclosure.uses
  unfold enter
  refine (newFrame_follows closure.site closure.frame hm).bind fun f m₁ h₁ hf => ?_
  refine (bindParams_follows closure.params h₁.tidy hlength hf.1 hclosure.params).bind
    fun _ m₂ h₂ hparams => ?_
  have hready : Machine.Ready ds w closure.site
      (closure.params.map (fun t => (closure.site, t.lexeme)) ++ env)
      { m₂ with current := f } := by
    refine ⟨h₂.tidy, h₂.kept.site?_eq hf.1, fun b hb => ?_⟩
    rcases List.mem_append.mp hb with hb | hb
    · obtain ⟨t, ht, rfl⟩ := List.mem_map.mp hb
      exact hparams t ht
    · exact .outer (h₂.kept.parent?_eq hf.2) ((hbound b hb).mono (h₁.kept.trans h₂.kept))
  refine (Follows.inFrame (runAll_follows hrun closure.body hready hclosure.body hscoped)).bind
    fun c m₃ h₃ _ => ?_
  exact callResult_follows closure c h₃.tidy

end Parts

/-! ### Programs -/

variable {n' : Naming} {limits : Limits} {d : Nat}

/-- Evaluation to a depth agrees for a program and the renamed one. -/
structure EvaluatesAlike (ρ : Renaming) (ds : List Declaration)
    (w : Access → Token → List Binding → Prop) (limits limits' : Limits) (d : Nat) : Prop where
  /-- Expressions. -/
  eval : ∀ {m : Machine} {e : Expr} {site : Site} {env : List Binding}, m.Ready ds w site env →
    e.declarations ⊆ ds → e.Scoped w env →
    Follows ρ ds w (eval limits d e) (eval limits' d (e.rename ρ)) m fun _ _ => True
  /-- Statements. -/
  exec : RunsAlike ρ ds w (exec limits d) (exec limits' d)
  /-- Calls. -/
  invoke : CallsAlike ρ ds w (invoke limits d) (invoke limits' d)

theorem EvaluatesAlike.invoke_succ
    (ih : EvaluatesAlike ρ ds w limits { limits with naming := n' } d) :
    CallsAlike ρ ds w (LoxLang.invoke limits (d + 1))
      (LoxLang.invoke { limits with naming := n' } (d + 1)) := by
  intro m c vs hm hlength
  rw [LoxLang.invoke, LoxLang.invoke]
  refine Follows.ask ?_
  rw [Renaming.closures_getElem?]
  cases hclosure : m.store.closures[c]? with
  | none => exact Follows.throw hm
  | some closure =>
    exact enter_follows ih.exec hm (hm.closures hclosure) (hlength closure hclosure)

theorem Agrees.eval_succ (laws : Agrees ρ ds w limits.naming n')
    (ih : EvaluatesAlike ρ ds w limits { limits with naming := n' } d) {e : Expr}
    (hm : m.Ready ds w site env) (hd : e.declarations ⊆ ds) (hs : e.Scoped w env) :
    Follows ρ ds w (LoxLang.eval limits (d + 1) e)
      (LoxLang.eval { limits with naming := n' } (d + 1) (e.rename ρ)) m fun _ _ => True := by
  cases e with
  | literal value => exact Follows.pure hm.tidy trivial
  | grouping e => exact ih.eval hm hd hs
  | unary operator e =>
    rw [Expr.rename, LoxLang.eval, LoxLang.eval]
    exact (ih.eval (e := e) hm hd hs).bind fun v m₁ h₁ _ =>
      Follows.ofExcept (.refl _) h₁.tidy fun _ _ => trivial
  | binary l operator r =>
    rw [Expr.rename, LoxLang.eval, LoxLang.eval]
    rw [Expr.declarations, List.append_subset] at hd
    refine (ih.eval hm hd.1 hs.1).bind fun v m₁ h₁ _ => ?_
    refine (ih.eval (h₁.ready hm) hd.2 hs.2).bind fun u m₂ h₂ _ => ?_
    exact Follows.ofExcept (.refl _) h₂.tidy fun _ _ => trivial
  | logical l operator r =>
    rw [Expr.rename, LoxLang.eval, LoxLang.eval]
    rw [Expr.declarations, List.append_subset] at hd
    refine (ih.eval hm hd.1 hs.1).bind fun v m₁ h₁ _ => ?_
    split
    · exact Follows.pure h₁.tidy trivial
    · exact ih.eval (h₁.ready hm) hd.2 hs.2
  | conditional c t e =>
    rw [Expr.rename, LoxLang.eval, LoxLang.eval]
    simp only [Expr.declarations, List.append_subset] at hd
    refine (ih.eval hm hd.1 hs.1).bind fun v m₁ h₁ _ => ?_
    split
    · exact ih.eval (h₁.ready hm) hd.2.1 hs.2.1
    · exact ih.eval (h₁.ready hm) hd.2.2 hs.2.2
  | assign name e =>
    rw [Expr.rename, LoxLang.eval, LoxLang.eval]
    refine (ih.eval (e := e) hm hd hs.1).bind fun v m₁ h₁ _ => ?_
    refine (laws.assignName_follows v (h₁.ready hm) hs.2).bind fun _ m₂ h₂ _ => ?_
    exact Follows.pure h₂.tidy trivial
  | «variable» name =>
    rw [Expr.rename, LoxLang.eval, LoxLang.eval]
    exact laws.readName_follows hm (.inr hs)
  | call callee paren arguments =>
    rw [Expr.rename, LoxLang.eval, LoxLang.eval, exprsRename_eq_map, List.mapM_map]
    rw [Expr.declarations, List.append_subset] at hd
    refine (ih.eval hm hd.1 hs.1).bind fun f m₁ h₁ _ => ?_
    refine (Follows.mapM arguments h₁.tidy fun e he m' h' => ?_).bind fun vs m₂ h₂ _ => ?_
    · exact ih.eval ((h₁.trans h').ready hm)
        (fun d hmem => hd.2 (mem_exprsDeclarations.mpr ⟨e, he, hmem⟩))
        (exprsScoped_iff.mp hs.2 e he)
    refine Follows.ask_same (ρ.arity?_store m₂.store f) ?_
    cases harity : m₂.store.arity? f with
    | none => exact Follows.throw h₂.tidy
    | some k =>
      dsimp only
      split
      · next hk => exact apply_follows ih.invoke h₂.tidy (harity.trans (congrArg some hk.symm))
      · exact Follows.throw h₂.tidy
  | get object name =>
    rw [Expr.rename, LoxLang.eval, LoxLang.eval]
    exact (ih.eval (e := object) hm hd hs).bind fun v m₁ h₁ _ =>
      getProperty_follows ih.invoke v name h₁.tidy
  | set object name e =>
    rw [Expr.rename, LoxLang.eval, LoxLang.eval]
    rw [Expr.declarations, List.append_subset] at hd
    refine (ih.eval hm hd.1 hs.1).bind fun v m₁ h₁ _ => ?_
    exact setProperty_follows v name h₁.tidy (ih.eval (h₁.ready hm) hd.2 hs.2)
  | this keyword =>
    rw [Expr.rename, LoxLang.eval, LoxLang.eval]
    have hread := laws.readName_follows hm (.inl hs)
    rwa [Renaming.refer_eq_self (ρ.use_this keyword hs)] at hread
  | lambda keyword params body =>
    rw [Expr.rename, LoxLang.eval, LoxLang.eval]
    rw [Expr.declarations, List.append_subset] at hd
    refine Follows.get ?_
    let closure : Closure :=
      { name := none, params, body, frame := m.current, site := .function keyword.position }
    have htidy : closure.Tidy ds w m.store :=
      ⟨declaredAt_params hd.1, hd.2, ⟨0, rfl⟩, fun h => absurd h Bool.false_ne_true, env, hm.bound,
        hs⟩
    exact (Follows.allocate (P := fun _ _ => True) (ρ.newClosure_store m.store closure)
      ((m.store.extends_newClosure closure).keeps rfl) (hm.tidy.newClosure htidy) trivial).bind
      fun c m₁ h₁ _ => Follows.pure h₁.tidy trivial

/-- A block runs in a frame of its own. -/
theorem EvaluatesAlike.block_succ
    (ih : EvaluatesAlike ρ ds w limits { limits with naming := n' } d) {position : Nat}
    {body : List Stmt} (hm : m.Ready ds w site env)
    (hd : stmtsDeclarations body (.block position) ⊆ ds)
    (hs : stmtsScoped w body (.block position) env) :
    Follows ρ ds w (LoxLang.exec limits (d + 1) (.block position body))
      (LoxLang.exec { limits with naming := n' } (d + 1)
        ((Stmt.block position body).rename ρ site)) m
      fun _ _ => True := by
  rw [Stmt.rename, LoxLang.exec, LoxLang.exec]
  refine Follows.get ?_
  refine (newFrame_follows (.block position) m.current hm.tidy).bind fun f m₁ h₁ hf => ?_
  have hready : Machine.Ready ds w (.block position) env { m₁ with current := f } :=
    ⟨h₁.tidy, hf.1, fun b hb => .outer hf.2 ((hm.bound b hb).mono h₁.kept)⟩
  exact Follows.inFrame (runAll_follows ih.exec body hready hd hs)

/-- The rounds of a loop declare nothing. -/
theorem EvaluatesAlike.while_succ
    (ih : EvaluatesAlike ρ ds w limits { limits with naming := n' } d) {condition : Expr}
    {body : Stmt} {increment : Option Expr} (hm : m.Ready ds w site env)
    (hd : (Stmt.while condition body increment).declarations site ⊆ ds)
    (hs : (Stmt.while condition body increment).Scoped w site env) :
    Follows ρ ds w (LoxLang.exec limits (d + 1) (.while condition body increment))
      (LoxLang.exec { limits with naming := n' } (d + 1)
        ((Stmt.while condition body increment).rename ρ site)) m
      fun _ _ => True := by
  cases increment with
  | none =>
    rw [Stmt.rename, LoxLang.exec, LoxLang.exec]
    rw [Stmt.declarations, List.append_subset] at hd
    refine repeatWhile_follows ?_ ?_ ?_ limits.rounds hm
    · intro m' hm'
      exact (ih.eval hm' hd.1 hs.1).bind fun _ m₁ h₁ _ => Follows.pure h₁.tidy trivial
    · intro m' hm'
      exact (ih.exec hm' hd.2 hs.2.1).mono fun _ _ _ _ => trivial
    · intro m' hm'
      exact Follows.pure hm'.tidy trivial
  | some i =>
    rw [Stmt.rename, LoxLang.exec, LoxLang.exec]
    simp only [Stmt.declarations, List.append_subset] at hd
    refine repeatWhile_follows ?_ ?_ ?_ limits.rounds hm
    · intro m' hm'
      exact (ih.eval hm' hd.1 hs.1).bind fun _ m₁ h₁ _ => Follows.pure h₁.tidy trivial
    · intro m' hm'
      exact (ih.exec hm' hd.2.1 hs.2.1.1).mono fun _ _ _ _ => trivial
    · intro m' hm'
      exact (ih.eval hm' hd.2.2 hs.2.2).bind fun _ m₁ h₁ _ => Follows.pure h₁.tidy trivial

theorem Agrees.exec_succ (laws : Agrees ρ ds w limits.naming n')
    (ih : EvaluatesAlike ρ ds w limits { limits with naming := n' } d) :
    RunsAlike ρ ds w (LoxLang.exec limits (d + 1))
      (LoxLang.exec { limits with naming := n' } (d + 1)) := by
  intro m s site env hm hd hs
  -- most statements declare nothing
  have hnothing : ∀ {x y : EvalM Completion}, s.declared = [] →
      Follows ρ ds w x y m (fun _ _ => True) → Follows ρ ds w x y m fun c m' =>
        c = .normal → ∀ x ∈ s.declared, m'.store.Bound (site, x) m'.current := by
    intro x y hnil h
    rw [hnil]
    exact h.mono fun _ _ _ _ _ x hx => absurd hx List.not_mem_nil
  -- the others declare a single name
  have hsingle : ∀ {m' : Machine} {name : String}, m'.store.Bound (site, name) m'.current →
      ∀ x ∈ [name], m'.store.Bound (site, x) m'.current := fun h x hx =>
    List.mem_singleton.mp hx ▸ h
  cases s with
  | expression e =>
    rw [Stmt.rename, LoxLang.exec, LoxLang.exec]
    exact hnothing rfl ((ih.eval (e := e) hm hd hs).bind fun _ m₁ h₁ _ =>
      Follows.pure h₁.tidy trivial)
  | print e =>
    rw [Stmt.rename, LoxLang.exec, LoxLang.exec]
    refine hnothing rfl ((ih.eval (e := e) hm hd hs).bind fun v m₁ h₁ _ => ?_)
    refine Follows.ask_same (ρ.text_store m₁.store v) ?_
    exact (printLine_follows _ h₁.tidy).bind fun _ m₂ h₂ _ => Follows.pure h₂.tidy trivial
  | var name value =>
    cases value with
    | none =>
      rw [Stmt.rename, LoxLang.exec, LoxLang.exec]
      have hmay : MayHold ds site name.lexeme none :=
        ⟨.of_mem (hd List.mem_cons_self), fun _ => ⟨_, hd List.mem_cons_self, rfl, rfl, rfl, rfl⟩⟩
      refine (defineHere_follows hm hmay rfl).bind fun _ m₁ h₁ hname => ?_
      exact Follows.pure h₁.tidy fun _ => hsingle hname
    | some e =>
      rw [Stmt.rename, LoxLang.exec, LoxLang.exec]
      rw [Stmt.declarations, List.cons_subset] at hd
      refine (ih.eval (e := e) hm hd.2 hs).bind fun v m₁ h₁ _ => ?_
      refine (defineHere_follows (h₁.ready hm) ((DeclaredAt.of_mem hd.1).mayHold v) rfl).bind
        fun _ m₂ h₂ hname => ?_
      exact Follows.pure h₂.tidy fun _ => hsingle hname
  | block position body => exact hnothing rfl (ih.block_succ hm hd hs)
  | ifElse c t e =>
    cases e with
    | none =>
      rw [Stmt.rename, LoxLang.exec, LoxLang.exec]
      rw [Stmt.declarations, List.append_subset] at hd
      refine hnothing hs.2.2 ((ih.eval hm hd.1 hs.1).bind fun v m₁ h₁ _ => ?_)
      split
      · exact (ih.exec (h₁.ready hm) hd.2 hs.2.1).mono fun _ _ _ _ => trivial
      · exact Follows.pure h₁.tidy trivial
    | some e =>
      rw [Stmt.rename, LoxLang.exec, LoxLang.exec]
      simp only [Stmt.declarations, List.append_subset] at hd
      have hnil : (Stmt.ifElse c t (some e)).declared = [] := by
        rw [Stmt.declared, hs.2.1.2, hs.2.2.2]
        rfl
      refine hnothing hnil ((ih.eval hm hd.1 hs.1).bind fun v m₁ h₁ _ => ?_)
      split
      · exact (ih.exec (h₁.ready hm) hd.2.1 hs.2.1.1).mono fun _ _ _ _ => trivial
      · exact (ih.exec (h₁.ready hm) hd.2.2 hs.2.2.1).mono fun _ _ _ _ => trivial
  | «while» c body increment =>
    have hnil : body.declared = [] := by
      cases increment with
      | none => exact hs.2.2
      | some i => exact hs.2.1.2
    exact hnothing hnil (ih.while_succ hm hd hs)
  | «break» keyword => exact hnothing rfl (Follows.pure hm.tidy trivial)
  | «continue» keyword => exact hnothing rfl (Follows.pure hm.tidy trivial)
  | function f =>
    rw [Stmt.declarations, List.cons_subset] at hd
    have hnew : (m.store.newClosure (f.closure m.current)).2.closures
        = (m.store.addClosures [f.closure m.current]).closures := by rw [Store.newClosure_eq]
    have hy : LoxLang.exec { limits with naming := n' } (d + 1) ((Stmt.function f).rename ρ site)
        (ρ.machine m) = .ok .normal { ρ.machine m with
          store := ((ρ.store m.store).newClosure ((f.rename ρ).closure m.current)).2.define
            m.current (f.rename ρ).name.lexeme
            (some (.closure ((ρ.store m.store).newClosure
              ((f.rename ρ).closure m.current)).1)) } := rfl
    rw [ρ.closure_rename, ρ.newClosure_store, f.name_rename] at hy
    refine (declare_follows hm (.of_mem hd.1) (laws.spares _ hd.1 (.inl rfl)) rfl hy
      (m.store.extends_newClosure (f.closure m.current)) rfl hnew ?_).mono
      fun _ m' _ hname _ => hsingle hname
    intro closure hclosure s' hbound
    rw [List.mem_singleton.mp hclosure]
    exact f.closure_tidy hd.2 hs hbound
  | «return» keyword value =>
    cases value with
    | none => exact hnothing rfl (Follows.pure hm.tidy trivial)
    | some e =>
      rw [Stmt.rename, LoxLang.exec, LoxLang.exec]
      exact hnothing rfl ((ih.eval (e := e) hm hd hs).bind fun v m₁ h₁ _ =>
        Follows.pure h₁.tidy trivial)
  | classDecl name superclass methods statics =>
    rw [Stmt.rename, LoxLang.exec, LoxLang.exec]
    simp only [Stmt.declarations, List.cons_subset, List.append_subset] at hd
    refine (laws.readSuperclass_follows hm hs.1).bind fun parent m₁ h₁ _ => ?_
    refine (declareClass_follows (h₁.ready hm) (.of_mem hd.1) (laws.spares _ hd.1 (.inr rfl))
      hd.2.2 hd.2.1 hs.2.2 hs.2.1).bind fun _ m₂ h₂ hname => ?_
    exact Follows.pure h₂.tidy fun _ => hsingle hname

theorem Agrees.evaluatesAlike (laws : Agrees ρ ds w limits.naming n') (d : Nat) :
    EvaluatesAlike ρ ds w limits { limits with naming := n' } d := by
  induction d with
  | zero =>
    refine ⟨fun hm _ _ => ?_, fun hm _ _ => ?_, fun hm _ => Follows.throw hm⟩
    · rw [LoxLang.eval, LoxLang.eval]
      exact Follows.throw hm.tidy
    · rw [LoxLang.exec, LoxLang.exec]
      exact Follows.throw hm.tidy
  | succ d ih => exact ⟨laws.eval_succ ih, laws.exec_succ ih, ih.invoke_succ⟩

/-- Running a program and the renamed one. -/
theorem Agrees.runProgram_follows (laws : Agrees ρ ds w limits.naming n') (program : Program)
    (hm : m.Ready ds w .globals env) (hd : stmtsDeclarations program .globals ⊆ ds)
    (hs : stmtsScoped w program .globals env) :
    Follows ρ ds w (runProgram limits program)
      (runProgram { limits with naming := n' } (program.rename ρ)) m fun _ _ => True := by
  induction program generalizing m env with
  | nil => exact Follows.pure hm.tidy trivial
  | cons s ss ih =>
    rw [stmtsDeclarations, List.append_subset] at hd
    rw [Program.rename, stmtsRename, runProgram, runProgram]
    refine ((laws.evaluatesAlike limits.depth).exec hm hd.1 hs.1).bind fun c m₁ h₁ hc => ?_
    cases c with
    | normal => exact ih ((h₁.ready hm).append (List.forall_mem_map.mpr (hc rfl))) hd.2 hs.2
    | returned | broke | continued => exact Follows.throw h₁.tidy

end LoxLang
