import LoxLang.Proofs.Machine.Running

/-!
# Running programs with other distances

Running a program does not change the distances, and nothing but the look-up of names
depends on them.  If names are looked up in a way that does not, then a program does the
same whatever the distances are.

## Main definitions

* `Machine.goingBy` — a machine with other distances.
* `Blind` — an action that does not depend on the distances.
* `Naming.fixed` — look-ups by given distances instead of those of the machine.

## Main results

* `runProgram_blind` — running a program depends on the distances only by how names are
  looked up.
-/

namespace LoxLang

/-- A machine that goes by other distances. -/
def Machine.goingBy (m : Machine) (D : Distances) : Machine := { m with distances := D }

/-- The end of an action on a machine that goes by other distances. -/
def goingBy {α : Type} (D : Distances) :
    EStateM.Result Fault Machine α → EStateM.Result Fault Machine α
  | .ok a m => .ok a (m.goingBy D)
  | .error f m => .error f (m.goingBy D)

/-- An action that does not depend on the distances. -/
def Blind {α : Type} (x : EvalM α) : Prop :=
  ∀ (m : Machine) (D : Distances), x (m.goingBy D) = goingBy D (x m)

/-- Look-ups that do not depend on the distances. -/
structure Naming.Blind (n : Naming) : Prop where
  value : ∀ (m : Machine) (D : Distances) (t : Token), n.value (m.goingBy D) t = n.value m t
  target : ∀ (m : Machine) (D : Distances) (t : Token), n.target (m.goingBy D) t = n.target m t

/-- Look-ups by given distances. -/
def Naming.fixed (D : Distances) : Naming where
  value m t := Naming.byDistance.value (m.goingBy D) t
  target m t := Naming.byDistance.target (m.goingBy D) t

theorem Naming.fixed_blind (D : Distances) : (Naming.fixed D).Blind :=
  ⟨fun _ _ _ => rfl, fun _ _ _ => rfl⟩

/-- A look-up depends on the distance of its own position only. -/
theorem Naming.fixed_eq {D : Distances} {m : Machine} {t : Token}
    (h : m.distances.find? t.position = D.find? t.position) :
    (Naming.fixed D).value m t = Naming.byDistance.value m t
      ∧ (Naming.fixed D).target m t = Naming.byDistance.target m t := by
  unfold fixed byDistance
  dsimp only
  rw [h]
  exact ⟨rfl, rfl⟩

namespace Blind

variable {α β : Type}

/-! ### Simple actions -/

theorem pure (a : α) : Blind (Pure.pure a : EvalM α) := fun _ _ => rfl

theorem throw (f : Fault) : Blind (MonadExcept.throw f : EvalM α) := fun _ _ => rfl

theorem failAt (cause : RuntimeCause) (t : Token) : Blind (failAt cause t : EvalM α) := throw _

theorem ofExcept (r : Except Fault α) : Blind (ofExcept r) := by
  cases r with
  | ok a => exact pure a
  | error f => exact throw f

theorem askStore (f : Store → α) : Blind (askStore f) := fun _ _ => rfl

theorem changeStore (f : Store → Store) : Blind (changeStore f) := fun _ _ => rfl

theorem allocate (f : Store → Nat × Store) : Blind (allocate f) := fun _ _ => rfl

theorem defineHere (name : String) (slot : Slot) : Blind (defineHere name slot) := fun _ _ => rfl

theorem printLine (text : String) : Blind (printLine text) := fun _ _ => rfl

theorem readClock : Blind readClock := fun _ _ => rfl

/-! ### Actions made of others -/

theorem bind {x : EvalM α} {k : α → EvalM β} (hx : Blind x) (hk : ∀ a, Blind (k a)) :
    Blind (x >>= k) := by
  intro m D
  have h := hx m D
  cases hm : x m with
  | ok a m' =>
    rw [hm] at h
    have hbind : (x >>= k) m = k a m' := by simp only [Bind.bind, EStateM.bind, hm]
    have hbind' : (x >>= k) (m.goingBy D) = k a (m'.goingBy D) := by
      simp only [Bind.bind, EStateM.bind, h, LoxLang.goingBy]
    rw [hbind, hbind', hk a m' D]
  | error f m' =>
    rw [hm] at h
    have hbind : (x >>= k) m = .error f m' := by simp only [Bind.bind, EStateM.bind, hm]
    have hbind' : (x >>= k) (m.goingBy D) = .error f (m'.goingBy D) := by
      simp only [Bind.bind, EStateM.bind, h, LoxLang.goingBy]
    rw [hbind, hbind']
    rfl

/-- A look at the machine, but not at its distances. -/
theorem get {k : Machine → EvalM β} (hsame : ∀ m D, k (m.goingBy D) = k m)
    (hk : ∀ m, Blind (k m)) : Blind (MonadState.get >>= k) := by
  intro m D
  have h : k (m.goingBy D) (m.goingBy D) = goingBy D (k m m) := by rw [hsame, hk m m D]
  exact h

theorem inFrame (f : FrameId) {x : EvalM α} (hx : Blind x) : Blind (inFrame f x) := by
  intro m D
  have hx' : x { m.goingBy D with current := f } = goingBy D (x { m with current := f }) :=
    hx { m with current := f } D
  rw [inFrame_eq, inFrame_eq, hx']
  cases x { m with current := f } <;> rfl

theorem mapM {γ : Type} {k : γ → EvalM α} (hk : ∀ c, Blind (k c)) (cs : List γ) :
    Blind (cs.mapM k) := by
  induction cs with
  | nil =>
    rw [List.mapM_nil]
    exact pure []
  | cons c cs ih =>
    rw [List.mapM_cons]
    exact (hk c).bind fun a => ih.bind fun as => pure (a :: as)

end Blind

/-! ### The parts of a running program -/

section Parts

variable {n : Naming} {call : Invoker} {run : Stmt → EvalM Completion}

theorem readName_blind (hn : n.Blind) (t : Token) : Blind (readName n t) :=
  .get (fun m D => by rw [hn.value m D t]) fun _ => .ofExcept _

theorem assignName_blind (hn : n.Blind) (t : Token) (v : Value) : Blind (assignName n t v) :=
  .get (fun m D => by rw [hn.target m D t]) fun _ => (Blind.ofExcept _).bind fun _ => .changeStore _

theorem construct_blind (hcall : ∀ c vs, Blind (call c vs)) (k : ClassId) (vs : List Value) :
    Blind (construct call k vs) := by
  refine (Blind.allocate _).bind fun o => (Blind.askStore _).bind fun initializer => ?_
  cases initializer with
  | none => exact .pure _
  | some initializer =>
    exact (Blind.allocate _).bind fun bound => (hcall bound vs).bind fun _ => .pure _

theorem callNative_blind (i : NativeId) : Blind (callNative i) := by
  refine (Blind.askStore _).bind fun native => ?_
  cases native with
  | none => exact .throw _
  | some native =>
    cases haction : native.action with
    | clock => simpa only [haction] using Blind.readClock
    | constant v => simpa only [haction] using Blind.pure v

theorem apply_blind (hcall : ∀ c vs, Blind (call c vs)) (callee : Value) (vs : List Value) :
    Blind (apply call callee vs) := by
  cases callee with
  | closure c => exact hcall c vs
  | native i => exact callNative_blind i
  | classRef k => exact construct_blind hcall k vs
  | nil | bool | number | text | object => exact .throw _

theorem getProperty_blind (hcall : ∀ c vs, Blind (call c vs)) (v : Value) (name : Token) :
    Blind (getProperty call v name) := by
  cases v with
  | object o =>
    refine (Blind.askStore _).bind fun field => ?_
    cases field with
    | some v => exact .pure v
    | none =>
      refine (Blind.askStore _).bind fun method => ?_
      cases method with
      | none => exact .failAt _ _
      | some method =>
        refine (Blind.allocate _).bind fun bound => ?_
        split
        · exact hcall bound []
        · exact .pure _
  | classRef k =>
    refine (Blind.askStore _).bind fun static => ?_
    cases static with
    | some v => exact .pure v
    | none => exact (Blind.askStore _).bind fun _ => .failAt _ _
  | nil | bool | number | text | closure | native => exact .failAt _ _

theorem setProperty_blind {value : EvalM Value} (hvalue : Blind value) (v : Value) (name : Token) :
    Blind (setProperty v name value) := by
  cases v with
  | object o | classRef k =>
    exact hvalue.bind fun w => (Blind.changeStore _).bind fun _ => .pure w
  | nil | bool | number | text | closure | native => exact .failAt _ _

theorem allocateAll_blind (closure : FunctionDecl → Closure) (fs : List FunctionDecl)
    (made : Table String ClosureId) : Blind (allocateAll closure fs made) := by
  induction fs generalizing made with
  | nil => exact .pure made
  | cons f fs ih => exact (Blind.allocate _).bind fun c => ih _

theorem declareClass_blind (name : Token) (superclass : Option ClassId)
    (methods statics : List FunctionDecl) :
    Blind (declareClass name superclass methods statics) :=
  .get (fun _ _ => rfl) fun _ => (allocateAll_blind _ methods _).bind fun _ =>
    (allocateAll_blind _ statics _).bind fun _ => (Blind.allocate _).bind fun _ => .defineHere _ _

theorem readSuperclass_blind (hn : n.Blind) (superclass : Option Token) :
    Blind (readSuperclass n superclass) := by
  cases superclass with
  | none => exact .pure _
  | some t =>
    refine (readName_blind hn t).bind fun v => ?_
    cases v with
    | classRef k => exact .pure _
    | nil | bool | number | text | closure | native | object => exact .failAt _ _

theorem runAll_blind (hrun : ∀ s, Blind (run s)) (ss : List Stmt) : Blind (runAll run ss) := by
  induction ss with
  | nil => exact .pure _
  | cons s ss ih =>
    refine (hrun s).bind fun c => ?_
    cases c with
    | normal => exact ih
    | returned | broke | continued => exact .pure _

theorem repeatWhile_blind {condition : EvalM Bool} {round : EvalM Completion}
    {increment : EvalM Unit} (hcondition : Blind condition) (hround : Blind round)
    (hincrement : Blind increment) (rounds : Nat) :
    Blind (repeatWhile condition round increment rounds) := by
  induction rounds with
  | zero => exact .throw _
  | succ rounds ih =>
    refine hcondition.bind fun b => ?_
    cases b with
    | false => exact .pure _
    | true =>
      refine hround.bind fun c => ?_
      cases c with
      | broke | returned => exact .pure _
      | normal | continued => exact hincrement.bind fun _ => ih

theorem bindParams_blind (f : FrameId) (params : List Token) (vs : List Value) :
    Blind (bindParams f params vs) := by
  induction params generalizing vs with
  | nil => exact .pure ()
  | cons t params ih =>
    cases vs with
    | nil => exact .pure ()
    | cons v vs => exact (Blind.changeStore _).bind fun _ => ih vs

theorem callResult_blind (closure : Closure) (c : Completion) : Blind (callResult closure c) := by
  have hend : ∀ v : Value, Blind (callValue closure v) := by
    intro v
    unfold callValue
    split
    · refine (Blind.askStore _).bind fun this => ?_
      split
      · exact .pure _
      · exact .throw _
    · exact .pure v
  cases c with
  | normal =>
    rw [callResult_normal]
    exact hend .nil
  | returned keyword v =>
    rw [callResult_returned]
    exact hend v
  | broke | continued => exact .failAt _ _

theorem enter_blind (hrun : ∀ s, Blind (run s)) (closure : Closure) (vs : List Value) :
    Blind (enter run closure vs) :=
  (Blind.allocate _).bind fun f => (bindParams_blind f closure.params vs).bind fun _ =>
    (Blind.inFrame f (runAll_blind hrun closure.body)).bind fun c => callResult_blind closure c

end Parts

/-! ### Programs -/

variable {limits : Limits} {d : Nat}

/-- Evaluation to some depth does not depend on the distances. -/
structure EvaluatesBlindly (limits : Limits) (d : Nat) : Prop where
  eval : ∀ e, Blind (eval limits d e)
  exec : ∀ s, Blind (exec limits d s)
  invoke : ∀ c vs, Blind (invoke limits d c vs)

theorem EvaluatesBlindly.eval_succ (hn : limits.naming.Blind) (ih : EvaluatesBlindly limits d)
    (e : Expr) : Blind (LoxLang.eval limits (d + 1) e) := by
  cases e with
  | literal value => exact .pure _
  | grouping e => exact ih.eval e
  | unary operator e => exact (ih.eval e).bind fun _ => .ofExcept _
  | binary l operator r =>
    exact (ih.eval l).bind fun _ => (ih.eval r).bind fun _ => .ofExcept _
  | logical l operator r =>
    refine (ih.eval l).bind fun v => ?_
    split
    · exact .pure v
    · exact ih.eval r
  | conditional c t e =>
    refine (ih.eval c).bind fun v => ?_
    split
    · exact ih.eval t
    · exact ih.eval e
  | assign name e =>
    exact (ih.eval e).bind fun v => (assignName_blind hn name v).bind fun _ => .pure v
  | «variable» name => exact readName_blind hn name
  | call callee paren arguments =>
    refine (ih.eval callee).bind fun f => (Blind.mapM ih.eval arguments).bind fun vs =>
      (Blind.askStore _).bind fun arity => ?_
    cases arity with
    | none => exact .failAt _ _
    | some k =>
      dsimp only
      split
      · exact apply_blind ih.invoke f vs
      · exact .failAt _ _
  | get object name => exact (ih.eval object).bind fun v => getProperty_blind ih.invoke v name
  | set object name e => exact (ih.eval object).bind fun v => setProperty_blind (ih.eval e) v name
  | this keyword => exact readName_blind hn keyword
  | lambda keyword params body =>
    exact .get (fun _ _ => rfl) fun _ => (Blind.allocate _).bind fun _ => .pure _

theorem EvaluatesBlindly.exec_succ (hn : limits.naming.Blind) (ih : EvaluatesBlindly limits d)
    (s : Stmt) : Blind (LoxLang.exec limits (d + 1) s) := by
  cases s with
  | expression e => exact (ih.eval e).bind fun _ => .pure _
  | print e =>
    exact (ih.eval e).bind fun _ => (Blind.askStore _).bind fun _ => (Blind.printLine _).bind
      fun _ => .pure _
  | var name value =>
    cases value with
    | none => exact (Blind.defineHere _ _).bind fun _ => .pure _
    | some e => exact (ih.eval e).bind fun _ => (Blind.defineHere _ _).bind fun _ => .pure _
  | block position body =>
    exact .get (fun _ _ => rfl) fun _ => (Blind.allocate _).bind fun f =>
      .inFrame f (runAll_blind ih.exec body)
  | ifElse c t e =>
    refine (ih.eval c).bind fun v => ?_
    split
    · exact ih.exec t
    · cases e with
      | none => exact .pure _
      | some e => exact ih.exec e
  | «while» c body increment =>
    refine repeatWhile_blind ((ih.eval c).bind fun _ => .pure _) (ih.exec body) ?_ limits.rounds
    cases increment with
    | none => exact .pure ()
    | some e => exact (ih.eval e).bind fun _ => .pure _
  | «break» | «continue» => exact .pure _
  | function f =>
    exact .get (fun _ _ => rfl) fun _ => (Blind.allocate _).bind fun _ =>
      (Blind.defineHere _ _).bind fun _ => .pure _
  | «return» keyword value =>
    cases value with
    | none => exact .pure _
    | some e => exact (ih.eval e).bind fun _ => .pure _
  | classDecl name superclass methods statics =>
    exact (readSuperclass_blind hn superclass).bind fun parent =>
      (declareClass_blind name parent methods statics).bind fun _ => .pure _

theorem EvaluatesBlindly.invoke_succ (ih : EvaluatesBlindly limits d) (c : ClosureId)
    (vs : List Value) : Blind (LoxLang.invoke limits (d + 1) c vs) := by
  refine (Blind.askStore _).bind fun closure => ?_
  cases closure with
  | none => exact .throw _
  | some closure => exact enter_blind ih.exec closure vs

theorem evaluatesBlindly (hn : limits.naming.Blind) (d : Nat) : EvaluatesBlindly limits d := by
  induction d with
  | zero => exact ⟨fun _ => .throw _, fun _ => .throw _, fun _ _ => .throw _⟩
  | succ d ih => exact ⟨ih.eval_succ hn, ih.exec_succ hn, ih.invoke_succ⟩

/-- Running a program depends on the distances only by how names are looked up. -/
theorem runProgram_blind (hn : limits.naming.Blind) (program : Program) :
    Blind (runProgram limits program) := by
  induction program with
  | nil => exact .pure ()
  | cons s ss ih =>
    refine ((evaluatesBlindly hn limits.depth).exec s).bind fun c => ?_
    cases c with
    | normal => exact ih
    | returned | broke | continued => exact .failAt _ _

end LoxLang
