import LoxLang.Proofs.Machine.Stepping

/-!
# Actions in sequence

What follows an action that has ended with a result, and where an action fails that has
parts.  The rounds of a loop are taken one at a time.

## Main definitions

* `runLoop`, `afterRound` — a loop, and what it does after a round.
* `Completion.goesOn` — the rounds that another one may follow.

## Main results

* `bind_of_ok`, `cases_of_bind_eq_error` — actions that follow each other.
* `runLoop_of_true`, `runLoop_of_false` — the rounds of a loop.
* `eval_current`, `exec_current` — evaluation leaves the current frame as it is.
* `runProgram_append_of_ok` — a program goes on where its first statements have come to an end.
-/

namespace LoxLang

/-- The value has properties. -/
def Value.hasProperties : Value → Bool
  | .object _ | .classRef _ => true
  | _ => false

/-- The value is of a kind that can be called. -/
def Value.isCallable : Value → Bool
  | .closure _ | .native _ | .classRef _ => true
  | _ => false

/-- The method that an object has by its class. -/
def Store.methodOf? (s : Store) (o : ObjectId) (name : String) : Option Closure := do
  let x ← s.objects[o]?
  let c ← s.method? x.classId name
  s.closures[c]?

/-- The initializer that a class has. -/
def Store.initializer? (s : Store) (k : ClassId) : Option Closure :=
  (s.method? k "init").bind fun c => s.closures[c]?

/-- A loop goes on after a round that ends like this. -/
def Completion.goesOn : Completion → Bool
  | .normal | .continued _ => true
  | .broke _ | .returned _ _ => false

/-- Whether a condition holds. -/
def evalCondition (limits : Limits) (d : Nat) (c : Expr) : EvalM Bool := do
  return (← eval limits d c).truthy

/-- What a loop does between its rounds. -/
def evalIncrement (limits : Limits) (d : Nat) : Option Expr → EvalM Unit
  | none => pure ()
  | some e => do let _ ← eval limits d e

/-- A loop, within a number of rounds. -/
def runLoop (limits : Limits) (d : Nat) (c : Expr) (body : Stmt) (increment : Option Expr) :
    Nat → EvalM Completion :=
  repeatWhile (evalCondition limits d c) (exec limits d body) (evalIncrement limits d increment)

/-- What a loop does after a round that has ended. -/
def afterRound (limits : Limits) (d : Nat) (c : Expr) (body : Stmt) (increment : Option Expr)
    (n : Nat) : Completion → EvalM Completion
  | .broke _ => pure .normal
  | .returned keyword v => pure (.returned keyword v)
  | .normal | .continued _ =>
      evalIncrement limits d increment >>= fun _ => runLoop limits d c body increment n

theorem exec_while {limits : Limits} {d : Nat} {c : Expr} {body : Stmt} {i : Option Expr} :
    exec limits (d + 1) (.while c body i) = runLoop limits d c body i limits.rounds := by
  cases i <;> rfl

/-! ### Actions that follow each other -/

section Actions

variable {α β : Type} {m m' : Machine} {x : EvalM α} {k : α → EvalM β} {f : Fault}

theorem bind_of_ok {a : α} (h : x m = .ok a m') : (x >>= k) m = k a m' := by
  simp only [Bind.bind, EStateM.bind, h]

theorem bind_of_error (h : x m = .error f m') : (x >>= k) m = .error f m' := by
  simp only [Bind.bind, EStateM.bind, h]

/-- If actions that follow each other fail, then the first one fails, or the second one
does after it. -/
theorem cases_of_bind_eq_error (h : (x >>= k) m = .error f m') :
    x m = .error f m' ∨ ∃ a m₁, x m = .ok a m₁ ∧ k a m₁ = .error f m' := by
  cases hx : x m with
  | ok a m₁ =>
    rw [bind_of_ok hx] at h
    exact .inr ⟨a, m₁, rfl, h⟩
  | error g m₁ =>
    rw [bind_of_error hx] at h
    cases h
    exact .inl rfl

/-- A computation that needs no machine leaves it alone when it fails. -/
theorem eq_of_ofExcept_eq_error {r : Except Fault α} (h : ofExcept r m = .error f m') :
    r = .error f ∧ m' = m := by
  cases r with
  | ok a => cases h
  | error g =>
    cases h
    exact ⟨rfl, rfl⟩

theorem get_bind {k : Machine → EvalM β} : (get >>= k) m = k m m := rfl

/-- A question to the store leaves the machine alone. -/
theorem ask_bind {g : Store → α} : (askStore g >>= k) m = k (g m.store) m := rfl

theorem readName_of_error {n : Naming} {name : Token} (h : n.value m name = .error f) :
    readName n name m = .error f m := by
  change ofExcept (n.value m name) m = _
  rw [h]
  rfl

theorem assignName_of_error {n : Naming} {name : Token} {v : Value}
    (h : n.target m name = .error f) : assignName n name v m = .error f m := by
  change (ofExcept (n.target m name) >>= _) m = _
  rw [h]
  rfl

theorem apply_of_plain {call : Invoker} {v : Value} {vs : List Value}
    (h : v.isCallable = false) : apply call v vs m = .error .dangling m := by
  cases v <;> first | rfl | cases h

theorem getProperty_of_plain {call : Invoker} {v : Value} {name : Token}
    (h : v.hasProperties = false) :
    getProperty call v name m = .error (.at .noProperties name) m := by
  cases v <;> first | rfl | cases h

theorem setProperty_of_plain {v : Value} {name : Token} {value : EvalM Value}
    (h : v.hasProperties = false) :
    setProperty v name value m = .error (.at .noFields name) m := by
  cases v <;> first | rfl | cases h

/-- What is done with the method of an object that is read. -/
def readMethod (call : Invoker) (o : ObjectId) (name : Token) : Option Closure → EvalM Value
  | none => failAt .undefinedProperty name
  | some method => do
      let bound ← allocate fun s => s.bind method (.object o)
      if method.isGetter then call bound [] else return .closure bound

theorem getFromObject_of_method {call : Invoker} {o : ObjectId} {name : Token}
    (h : m.store.field? o name.lexeme = none) :
    getFromObject call o name m
      = readMethod call o name (m.store.methodOf? o name.lexeme) m := by
  rw [getFromObject, ask_bind, h]
  rfl

theorem invoke_of_closure {limits : Limits} {d : Nat} {m₁ m₂ : Machine} {c : ClosureId}
    {closure : Closure} {vs : List Value} {g : FrameId}
    (hc : m.store.closures[c]? = some closure)
    (hg : allocate (fun s => s.newFrame closure.site (some closure.frame)) m = .ok g m₁)
    (hparams : bindParams g closure.params vs m₁ = .ok () m₂) :
    invoke limits (d + 1) c vs m
      = (inFrame g (runAll (exec limits d) closure.body) >>= callResult closure) m₂ := by
  rw [invoke, ask_bind, hc]
  change enter _ _ _ _ = _
  rw [enter, bind_of_ok hg, bind_of_ok hparams]

theorem exec_block {limits : Limits} {d : Nat} {m₁ : Machine} {position : Nat}
    {ss : List Stmt} {g : FrameId}
    (hg : allocate (fun s => s.newFrame (.block position) (some m.current)) m = .ok g m₁) :
    exec limits (d + 1) (.block position ss) m
      = inFrame g (runAll (exec limits d) ss) m₁ := by
  rw [exec, get_bind]
  exact bind_of_ok hg

/-- A single statement runs as it does alone. -/
theorem runAll_singleton (run : Stmt → EvalM Completion) (s : Stmt) (m : Machine) :
    runAll run [s] m = run s m := by
  cases h : run s m with
  | error f m' => exact bind_of_error h
  | ok k m' =>
    refine (bind_of_ok h).trans ?_
    cases k <;> rfl

theorem inFrame_of_error {g : FrameId} (h : x { m with current := g } = .error f m') :
    inFrame g x m = .error f { m' with current := m.current } := by
  rw [inFrame_eq, h]

/-- An action that fails in another frame does so before that frame is left. -/
theorem error_of_inFrame {g : FrameId} (h : inFrame g x m = .error f m') :
    ∃ m₁, x { m with current := g } = .error f m₁ := by
  rw [inFrame_eq] at h
  split at h <;> cases h
  exact ⟨_, by assumption⟩

theorem exists_bindParams (g : FrameId) (ps : List Token) (vs : List Value) (m : Machine) :
    ∃ m₁, bindParams g ps vs m = .ok () m₁ := by
  induction ps generalizing vs m with
  | nil => exact ⟨m, rfl⟩
  | cons p ps ih =>
    cases vs with
    | nil => exact ⟨m, rfl⟩
    | cons v vs => exact ih vs _

theorem exists_allocateAll (closure : FunctionDecl → Closure) (fs : List FunctionDecl)
    (made : Table String ClosureId) (m : Machine) :
    ∃ made' m₁, allocateAll closure fs made m = .ok made' m₁ := by
  induction fs generalizing made m with
  | nil => exact ⟨made, m, rfl⟩
  | cons f fs ih => exact ih _ _

theorem exists_declareClass (name : Token) (superclass : Option ClassId)
    (methods statics : List FunctionDecl) (m : Machine) :
    ∃ m₁, declareClass name superclass methods statics m = .ok () m₁ := by
  obtain ⟨own, m₁, hown⟩ := exists_allocateAll (fun f => f.method m.current name) methods .empty m
  obtain ⟨values, m₂, hvalues⟩ :=
    exists_allocateAll (fun f => f.closure m.current) statics .empty m₁
  rw [declareClass, get_bind]
  simp only [bind_of_ok hown, bind_of_ok hvalues]
  exact ⟨_, rfl⟩

theorem setProperty_of_error {v : Value} {name : Token} {value : EvalM Value}
    (hv : v.hasProperties = true) (h : value m = .error f m') :
    setProperty v name value m = .error f m' := by
  cases v <;> first | exact bind_of_error h | cases hv

/-- Only the value of a property that is set can fail. -/
theorem error_of_setProperty {v : Value} {name : Token} {value : EvalM Value}
    (hv : v.hasProperties = true) (h : setProperty v name value m = .error f m') :
    value m = .error f m' := by
  cases v with
  | object | classRef =>
    obtain h | ⟨w, m₁, hw, h⟩ := cases_of_bind_eq_error h
    · exact h
    · cases h
  | nil | bool | number | text | closure | native => cases hv

/-- A body that gives no value leaves the machine alone. -/
theorem eq_of_callResult_eq_error {closure : Closure} {completion : Completion}
    (h : callResult closure completion m = .error f m') : m' = m := by
  have hvalue : ∀ {v : Value}, callValue closure v m = .error f m' → m' = m := by
    intro v h
    unfold callValue at h
    split at h
    · rw [ask_bind] at h
      generalize m.store.slot? closure.frame "this" = slot at h
      rcases slot with _ | _ | receiver <;> cases h <;> rfl
    · cases h
  cases completion with
  | normal => exact hvalue h
  | returned keyword v => exact hvalue h
  | broke | continued =>
    cases h
    rfl

theorem eq_of_readSuperclass_eq_error {n : Naming} {superclass : Option Token}
    (h : readSuperclass n superclass m = .error f m') : m' = m := by
  cases superclass with
  | none => cases h
  | some name =>
    obtain h | ⟨v, m₁, hv, h⟩ := cases_of_bind_eq_error h
    · exact (eq_of_ofExcept_eq_error h).2
    · obtain ⟨-, rfl⟩ := eq_of_ofExcept_eq_ok hv
      cases v <;> cases h <;> rfl

theorem construct_of_initializer {call : Invoker} {id : ClassId} {vs : List Value}
    {m₁ : Machine} {o : ObjectId} {c : Closure}
    (ho : allocate (fun s => s.newObject id) m = .ok o m₁)
    (hc : m₁.store.initializer? id = some c) :
    construct call id vs m
      = (allocate (fun s => s.bind c (.object o)) >>= fun bound =>
          call bound vs >>= fun _ => pure (.object o)) m₁ := by
  rw [construct, bind_of_ok ho]
  change (askStore (fun s => s.initializer? id) >>= _) m₁ = _
  rw [ask_bind, hc]

end Actions

/-! ### The rounds of a loop -/

section Rounds

variable {limits : Limits} {d n : Nat} {c : Expr} {body : Stmt} {i : Option Expr}
  {m m₁ m₂ m' : Machine} {v : Value} {k : Completion} {f : Fault}

theorem runLoop_of_error (hc : eval limits d c m = .error f m') :
    runLoop limits d c body i (n + 1) m = .error f m' :=
  bind_of_error (bind_of_error hc)

theorem evalCondition_of_ok (hc : eval limits d c m = .ok v m₁) :
    evalCondition limits d c m = .ok v.truthy m₁ := bind_of_ok hc

theorem runLoop_of_false (hc : eval limits d c m = .ok v m₁) (hv : v.truthy = false) :
    runLoop limits d c body i (n + 1) m = .ok .normal m₁ := by
  refine (bind_of_ok (evalCondition_of_ok hc)).trans ?_
  simp only [hv]
  rfl

theorem runLoop_of_true (hc : eval limits d c m = .ok v m₁) (hv : v.truthy = true) :
    runLoop limits d c body i (n + 1) m
      = (exec limits d body >>= afterRound limits d c body i n) m₁ := by
  refine (bind_of_ok (evalCondition_of_ok hc)).trans ?_
  simp only [hv]
  refine congrFun (congrArg (exec limits d body >>= ·) (funext fun k => ?_)) m₁
  cases k <;> rfl

theorem afterRound_of_goesOn (hk : k.goesOn = true) :
    afterRound limits d c body i n k
      = evalIncrement limits d i >>= fun _ => runLoop limits d c body i n := by
  cases k <;> first | rfl | cases hk

end Rounds

/-! ### The current frame -/

section Current

variable {limits : Limits} {d : Nat} {m m' : Machine}

theorem evalIncrement_does {A : Fault → Prop} (h : EvaluatesWithin A limits d)
    (i : Option Expr) : Does A nowhere (evalIncrement limits d i) := by
  cases i with
  | none => exact .pure ()
  | some e => exact (h.eval e).bind fun _ => .pure ()

theorem runLoop_does (c : Expr) (body : Stmt) (i : Option Expr) (n : Nat) :
    Does (fun _ => True) (here body.bare) (runLoop limits d c body i n) := by
  have hd := (Traced.any limits.naming).evaluates d
  have hnowhere : ∀ g g' x, nowhere g g' x → here body.bare g g' x := fun _ _ _ h => h.elim
  refine (Traced.any limits.naming).repeatWhile_does ?_ (hd.exec body) ?_ n
  · exact ((hd.eval c).mono hnowhere).bind fun _ => .pure _
  · exact (evalIncrement_does hd i).mono hnowhere

theorem bindParams_current {g : FrameId} {ps : List Token} {vs : List Value}
    (h : bindParams g ps vs m = .ok () m') : m'.current = m.current := by
  have hdoes : Does (fun _ => True) nowhere (bindParams g ps vs) := bindParams_does g ps vs
  exact (hdoes.changes (.inl ⟨(), h⟩)).current_eq

/-- A machine is not changed by entering the frame in which it is. -/
theorem Machine.at_current {g : FrameId} (h : m.current = g) : { m with current := g } = m := by
  rw [← h]

theorem eval_current {e : Expr} {v : Value} (h : eval limits d e m = .ok v m') :
    m'.current = m.current :=
  ((((Traced.any limits.naming).evaluates d).eval e).changes (.inl ⟨v, h⟩)).current_eq

theorem evals_current {es : List Expr} {vs : List Value}
    (h : es.mapM (eval limits d) m = .ok vs m') : m'.current = m.current :=
  ((Does.mapM ((Traced.any limits.naming).evaluates d).eval es).changes
    (.inl ⟨vs, h⟩)).current_eq

theorem exec_current {s : Stmt} {k : Completion} (h : exec limits d s m = .ok k m') :
    m'.current = m.current :=
  ((((Traced.any limits.naming).evaluates d).exec s).changes (.inl ⟨k, h⟩)).current_eq

theorem evalIncrement_current {i : Option Expr} (h : evalIncrement limits d i m = .ok () m') :
    m'.current = m.current :=
  ((evalIncrement_does ((Traced.any limits.naming).evaluates d) i).changes
    (.inl ⟨(), h⟩)).current_eq

theorem allocate_current {g : Store → Nat × Store} {n : Nat} (h : allocate g m = .ok n m') :
    m'.current = m.current := by
  cases h
  rfl

end Current

/-! ### Programs -/

section Programs

variable {limits : Limits} {m m₁ : Machine} {s : Stmt} {done rest : Program}

theorem runProgram_cons_of_normal (h : exec limits limits.depth s m = .ok .normal m₁) :
    runProgram limits (s :: rest) m = runProgram limits rest m₁ := by
  rw [runProgram, bind_of_ok h]

/-- What a program does is what its first statements do, and then the others. -/
theorem runProgram_append_of_ok (h : runProgram limits done m = .ok () m₁) :
    runProgram limits (done ++ rest) m = runProgram limits rest m₁ := by
  induction done generalizing m with
  | nil =>
    cases h
    rfl
  | cons s done ih =>
    rw [runProgram] at h
    obtain ⟨k, m₂, hs, h⟩ := exists_of_bind_eq_ok h
    cases k with
    | normal =>
      rw [List.cons_append, runProgram_cons_of_normal hs]
      exact ih h
    | returned | broke | continued => cases h

end Programs

end LoxLang
