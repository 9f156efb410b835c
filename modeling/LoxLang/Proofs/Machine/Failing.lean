import LoxLang.Proofs.Machine.Sequence

/-!
# Where a program fails

A program that fails does so at one step, somewhere inside the parts of its parts.  The
parts that a task begins, and the machine on which it begins each of them, are given by
`Begins`: a part is begun once those before it have ended.  The steps that fail by
themselves are given by `Raises`, and they leave the machine as it is.  So a path of parts
that ends in such a step gives the machine at the moment of the failure, before anything
is left again; it is the machine that a failed task leaves behind, but for the current
frame, which is that in which the task was begun.

## Main definitions

* `Task`, `Task.run` — what a program has to do, and how it is done.
* `Task.Faults` — a task ends with a fault.
* `Task.Begins`, `Task.Raises` — the parts of a task, and the tasks that fail by themselves.
* `Task.Fails` — the step at which a task fails.

## Main results

* `Task.faults_iff` — the machine that a failed task leaves behind is that of the step at
  which it failed, in the frame of the task.
-/

namespace LoxLang

/-- What a program does. -/
inductive Task where
  /-- The value of an expression. -/
  | eval (e : Expr)
  /-- The values of expressions, in order. -/
  | evals (es : List Expr)
  /-- A statement. -/
  | exec (s : Stmt)
  /-- Statements, in order. -/
  | execs (ss : List Stmt)
  /-- A loop that may take so many rounds. -/
  | loop (c : Expr) (body : Stmt) (increment : Option Expr) (rounds : Nat)
  /-- The call of a value. -/
  | apply (v : Value) (vs : List Value)
  /-- The property of a value. -/
  | property (v : Value) (name : Token)
  /-- The call of a closure. -/
  | invoke (c : ClosureId) (vs : List Value)

namespace Task

/-- What a task gives. -/
abbrev Result : Task → Type
  | .eval _ | .apply _ _ | .property _ _ | .invoke _ _ => Value
  | .evals _ => List Value
  | .exec _ | .execs _ | .loop _ _ _ _ => Completion

/-- What is done for a task, to a depth. -/
def run (limits : Limits) (d : Nat) : (t : Task) → EvalM t.Result
  | .eval e => LoxLang.eval limits d e
  | .evals es => es.mapM (LoxLang.eval limits d)
  | .exec s => LoxLang.exec limits d s
  | .execs ss => runAll (LoxLang.exec limits d) ss
  | .loop c body i n => runLoop limits d c body i n
  | .apply v vs => LoxLang.apply (LoxLang.invoke limits d) v vs
  | .property v name => getProperty (LoxLang.invoke limits d) v name
  | .invoke c vs => LoxLang.invoke limits d c vs

/-- A task ends with a fault. -/
def Faults (limits : Limits) (d : Nat) (t : Task) (m : Machine) (f : Fault) (m' : Machine) :
    Prop := t.run limits d m = .error f m'

/-- A task ends on a machine, with a result or with a fault. -/
def Ends (limits : Limits) (d : Nat) (t : Task) (m m' : Machine) : Prop :=
  EndsIn (t.run limits d) m m'

/-- The parts that a task begins, each to a depth and on a machine. -/
inductive Begins (limits : Limits) : Nat → Task → Machine → Nat → Task → Machine → Prop
  | grouping {d : Nat} {m : Machine} {e : Expr} :
      Begins limits (d + 1) (.eval (.grouping e)) m d (.eval e) m
  | operand {d : Nat} {m : Machine} {operator : Token} {e : Expr} :
      Begins limits (d + 1) (.eval (.unary operator e)) m d (.eval e) m
  | leftOperand {d : Nat} {m : Machine} {l r : Expr} {operator : Token} :
      Begins limits (d + 1) (.eval (.binary l operator r)) m d (.eval l) m
  | rightOperand {d : Nat} {m m₁ : Machine} {l r : Expr} {operator : Token} {v : Value}
      (hl : LoxLang.eval limits d l m = .ok v m₁) :
      Begins limits (d + 1) (.eval (.binary l operator r)) m d (.eval r) m₁
  | firstChoice {d : Nat} {m : Machine} {l r : Expr} {operator : Token} :
      Begins limits (d + 1) (.eval (.logical l operator r)) m d (.eval l) m
  /-- The second operand of `and` and `or` is evaluated only if the first does not decide. -/
  | secondChoice {d : Nat} {m m₁ : Machine} {l r : Expr} {operator : Token} {v : Value}
      (hl : LoxLang.eval limits d l m = .ok v m₁)
      (hv : (v.truthy == (operator.kind == .kwOr)) = false) :
      Begins limits (d + 1) (.eval (.logical l operator r)) m d (.eval r) m₁
  | question {d : Nat} {m : Machine} {c t e : Expr} :
      Begins limits (d + 1) (.eval (.conditional c t e)) m d (.eval c) m
  | yes {d : Nat} {m m₁ : Machine} {c t e : Expr} {v : Value}
      (hc : LoxLang.eval limits d c m = .ok v m₁) (hv : v.truthy = true) :
      Begins limits (d + 1) (.eval (.conditional c t e)) m d (.eval t) m₁
  | no {d : Nat} {m m₁ : Machine} {c t e : Expr} {v : Value}
      (hc : LoxLang.eval limits d c m = .ok v m₁) (hv : v.truthy = false) :
      Begins limits (d + 1) (.eval (.conditional c t e)) m d (.eval e) m₁
  | assigned {d : Nat} {m : Machine} {name : Token} {e : Expr} :
      Begins limits (d + 1) (.eval (.assign name e)) m d (.eval e) m
  | callee {d : Nat} {m : Machine} {callee : Expr} {paren : Token} {es : List Expr} :
      Begins limits (d + 1) (.eval (.call callee paren es)) m d (.eval callee) m
  | arguments {d : Nat} {m m₁ : Machine} {callee : Expr} {paren : Token} {es : List Expr}
      {v : Value} (hv : LoxLang.eval limits d callee m = .ok v m₁) :
      Begins limits (d + 1) (.eval (.call callee paren es)) m d (.evals es) m₁
  | call {d : Nat} {m m₁ m₂ : Machine} {callee : Expr} {paren : Token} {es : List Expr}
      {v : Value} {vs : List Value} (hv : LoxLang.eval limits d callee m = .ok v m₁)
      (hvs : es.mapM (LoxLang.eval limits d) m₁ = .ok vs m₂)
      (harity : m₂.store.arity? v = some (vs.length : Int)) :
      Begins limits (d + 1) (.eval (.call callee paren es)) m d (.apply v vs) m₂
  | object {d : Nat} {m : Machine} {object : Expr} {name : Token} :
      Begins limits (d + 1) (.eval (.get object name)) m d (.eval object) m
  | property {d : Nat} {m m₁ : Machine} {object : Expr} {name : Token} {v : Value}
      (hv : LoxLang.eval limits d object m = .ok v m₁) :
      Begins limits (d + 1) (.eval (.get object name)) m d (.property v name) m₁
  | changedObject {d : Nat} {m : Machine} {object e : Expr} {name : Token} :
      Begins limits (d + 1) (.eval (.set object name e)) m d (.eval object) m
  | newProperty {d : Nat} {m m₁ : Machine} {object e : Expr} {name : Token} {v : Value}
      (hv : LoxLang.eval limits d object m = .ok v m₁) (hp : v.hasProperties = true) :
      Begins limits (d + 1) (.eval (.set object name e)) m d (.eval e) m₁
  | firstValue {d : Nat} {m : Machine} {e : Expr} {es : List Expr} :
      Begins limits d (.evals (e :: es)) m d (.eval e) m
  | laterValues {d : Nat} {m m₁ : Machine} {e : Expr} {es : List Expr} {v : Value}
      (hv : LoxLang.eval limits d e m = .ok v m₁) :
      Begins limits d (.evals (e :: es)) m d (.evals es) m₁
  | closure {d : Nat} {m : Machine} {c : ClosureId} {vs : List Value} :
      Begins limits d (.apply (.closure c) vs) m d (.invoke c vs) m
  /-- The initializer of a class is called once the object has been made. -/
  | initializer {d : Nat} {m m₁ m₂ : Machine} {k : ClassId} {vs : List Value} {o : ObjectId}
      {c : Closure} {bound : ClosureId} (ho : allocate (fun s => s.newObject k) m = .ok o m₁)
      (hc : m₁.store.initializer? k = some c)
      (hbound : allocate (fun s => s.bind c (.object o)) m₁ = .ok bound m₂) :
      Begins limits d (.apply (.classRef k) vs) m d (.invoke bound vs) m₂
  /-- A method without parameters is called when it is read. -/
  | getter {d : Nat} {m m₁ : Machine} {o : ObjectId} {name : Token} {c : Closure}
      {bound : ClosureId} (hfield : m.store.field? o name.lexeme = none)
      (hc : m.store.methodOf? o name.lexeme = some c) (hgetter : c.isGetter = true)
      (hbound : allocate (fun s => s.bind c (.object o)) m = .ok bound m₁) :
      Begins limits d (.property (.object o) name) m d (.invoke bound []) m₁
  /-- The body of a closure runs in a new frame that holds the arguments. -/
  | body {d : Nat} {m m₁ m₂ : Machine} {c : ClosureId} {closure : Closure} {vs : List Value}
      {g : FrameId} (hc : m.store.closures[c]? = some closure)
      (hg : allocate (fun s => s.newFrame closure.site (some closure.frame)) m = .ok g m₁)
      (hparams : bindParams g closure.params vs m₁ = .ok () m₂) :
      Begins limits (d + 1) (.invoke c vs) m d (.execs closure.body) { m₂ with current := g }
  | expression {d : Nat} {m : Machine} {e : Expr} :
      Begins limits (d + 1) (.exec (.expression e)) m d (.eval e) m
  | printed {d : Nat} {m : Machine} {e : Expr} :
      Begins limits (d + 1) (.exec (.print e)) m d (.eval e) m
  | initialValue {d : Nat} {m : Machine} {name : Token} {e : Expr} :
      Begins limits (d + 1) (.exec (.var name (some e))) m d (.eval e) m
  /-- The statements of a block run in a new frame. -/
  | block {d : Nat} {m m₁ : Machine} {position : Nat} {ss : List Stmt} {g : FrameId}
      (hg : allocate (fun s => s.newFrame (.block position) (some m.current)) m = .ok g m₁) :
      Begins limits (d + 1) (.exec (.block position ss)) m d (.execs ss)
        { m₁ with current := g }
  | test {d : Nat} {m : Machine} {c : Expr} {t : Stmt} {e : Option Stmt} :
      Begins limits (d + 1) (.exec (.ifElse c t e)) m d (.eval c) m
  | thenBranch {d : Nat} {m m₁ : Machine} {c : Expr} {t : Stmt} {e : Option Stmt} {v : Value}
      (hc : LoxLang.eval limits d c m = .ok v m₁) (hv : v.truthy = true) :
      Begins limits (d + 1) (.exec (.ifElse c t e)) m d (.exec t) m₁
  | elseBranch {d : Nat} {m m₁ : Machine} {c : Expr} {t e : Stmt} {v : Value}
      (hc : LoxLang.eval limits d c m = .ok v m₁) (hv : v.truthy = false) :
      Begins limits (d + 1) (.exec (.ifElse c t (some e))) m d (.exec e) m₁
  | loop {d : Nat} {m : Machine} {c : Expr} {body : Stmt} {i : Option Expr} :
      Begins limits (d + 1) (.exec (.while c body i)) m d (.loop c body i limits.rounds) m
  | returned {d : Nat} {m : Machine} {keyword : Token} {e : Expr} :
      Begins limits (d + 1) (.exec (.return keyword (some e))) m d (.eval e) m
  | firstStatement {d : Nat} {m : Machine} {s : Stmt} {ss : List Stmt} :
      Begins limits d (.execs (s :: ss)) m d (.exec s) m
  | laterStatements {d : Nat} {m m₁ : Machine} {s : Stmt} {ss : List Stmt}
      (hs : LoxLang.exec limits d s m = .ok .normal m₁) :
      Begins limits d (.execs (s :: ss)) m d (.execs ss) m₁
  | condition {d n : Nat} {m : Machine} {c : Expr} {body : Stmt} {i : Option Expr} :
      Begins limits d (.loop c body i (n + 1)) m d (.eval c) m
  | round {d n : Nat} {m m₁ : Machine} {c : Expr} {body : Stmt} {i : Option Expr} {v : Value}
      (hc : LoxLang.eval limits d c m = .ok v m₁) (hv : v.truthy = true) :
      Begins limits d (.loop c body i (n + 1)) m d (.exec body) m₁
  | increment {d n : Nat} {m m₁ m₂ : Machine} {c i : Expr} {body : Stmt} {v : Value}
      {k : Completion} (hc : LoxLang.eval limits d c m = .ok v m₁) (hv : v.truthy = true)
      (hbody : LoxLang.exec limits d body m₁ = .ok k m₂) (hk : k.goesOn = true) :
      Begins limits d (.loop c body (some i) (n + 1)) m d (.eval i) m₂
  | laterRounds {d n : Nat} {m m₁ m₂ m₃ : Machine} {c : Expr} {body : Stmt} {i : Option Expr}
      {v : Value} {k : Completion} (hc : LoxLang.eval limits d c m = .ok v m₁)
      (hv : v.truthy = true) (hbody : LoxLang.exec limits d body m₁ = .ok k m₂)
      (hk : k.goesOn = true) (hi : evalIncrement limits d i m₂ = .ok () m₃) :
      Begins limits d (.loop c body i (n + 1)) m d (.loop c body i n) m₃

/-- The tasks that fail by themselves, once all the parts that they have begun have ended.
The last machine is that of the failure. -/
inductive Raises (limits : Limits) : Nat → Task → Machine → Fault → Machine → Prop
  | deepExpression {m : Machine} {e : Expr} : Raises limits 0 (.eval e) m .overflow m
  | deepStatement {m : Machine} {s : Stmt} : Raises limits 0 (.exec s) m .overflow m
  | deepCall {m : Machine} {c : ClosureId} {vs : List Value} :
      Raises limits 0 (.invoke c vs) m .overflow m
  | unary {d : Nat} {m m₁ : Machine} {operator : Token} {e : Expr} {v : Value} {f : Fault}
      (he : LoxLang.eval limits d e m = .ok v m₁) (hf : applyUnary operator v = .error f) :
      Raises limits (d + 1) (.eval (.unary operator e)) m f m₁
  | binary {d : Nat} {m m₁ m₂ : Machine} {l r : Expr} {operator : Token} {v w : Value}
      {f : Fault} (hl : LoxLang.eval limits d l m = .ok v m₁)
      (hr : LoxLang.eval limits d r m₁ = .ok w m₂) (hf : applyBinary operator v w = .error f) :
      Raises limits (d + 1) (.eval (.binary l operator r)) m f m₂
  | assign {d : Nat} {m m₁ : Machine} {name : Token} {e : Expr} {v : Value} {f : Fault}
      (he : LoxLang.eval limits d e m = .ok v m₁) (hf : limits.naming.target m₁ name = .error f) :
      Raises limits (d + 1) (.eval (.assign name e)) m f m₁
  | readVariable {d : Nat} {m : Machine} {name : Token} {f : Fault}
      (hf : limits.naming.value m name = .error f) :
      Raises limits (d + 1) (.eval (.variable name)) m f m
  | readThis {d : Nat} {m : Machine} {keyword : Token} {f : Fault}
      (hf : limits.naming.value m keyword = .error f) :
      Raises limits (d + 1) (.eval (.this keyword)) m f m
  | notCallable {d : Nat} {m m₁ m₂ : Machine} {callee : Expr} {paren : Token} {es : List Expr}
      {v : Value} {vs : List Value} (hv : LoxLang.eval limits d callee m = .ok v m₁)
      (hvs : es.mapM (LoxLang.eval limits d) m₁ = .ok vs m₂)
      (harity : m₂.store.arity? v = none) :
      Raises limits (d + 1) (.eval (.call callee paren es)) m (.at .notCallable paren) m₂
  | wrongArity {d : Nat} {m m₁ m₂ : Machine} {callee : Expr} {paren : Token} {es : List Expr}
      {v : Value} {vs : List Value} {n : Int} (hv : LoxLang.eval limits d callee m = .ok v m₁)
      (hvs : es.mapM (LoxLang.eval limits d) m₁ = .ok vs m₂)
      (harity : m₂.store.arity? v = some n) (hn : (vs.length : Int) ≠ n) :
      Raises limits (d + 1) (.eval (.call callee paren es)) m
        (.at (.wrongArity n vs.length) paren) m₂
  | noFields {d : Nat} {m m₁ : Machine} {object e : Expr} {name : Token} {v : Value}
      (hv : LoxLang.eval limits d object m = .ok v m₁) (hp : v.hasProperties = false) :
      Raises limits (d + 1) (.eval (.set object name e)) m (.at .noFields name) m₁
  | lostNative {d : Nat} {m : Machine} {n : NativeId} {vs : List Value}
      (hn : m.store.natives[n]? = none) :
      Raises limits d (.apply (.native n) vs) m .dangling m
  | noFunction {d : Nat} {m : Machine} {v : Value} {vs : List Value}
      (hv : v.isCallable = false) : Raises limits d (.apply v vs) m .dangling m
  | noProperties {d : Nat} {m : Machine} {v : Value} {name : Token}
      (hp : v.hasProperties = false) :
      Raises limits d (.property v name) m (.at .noProperties name) m
  | undefinedProperty {d : Nat} {m : Machine} {o : ObjectId} {name : Token}
      (hfield : m.store.field? o name.lexeme = none)
      (hmethod : m.store.methodOf? o name.lexeme = none) :
      Raises limits d (.property (.object o) name) m (.at .undefinedProperty name) m
  | undefinedStatic {d : Nat} {m : Machine} {k : ClassId} {name : Token}
      (hstatic : m.store.static? k name.lexeme = none) :
      Raises limits d (.property (.classRef k) name) m
        (.at (.undefinedStatic (m.store.className k)) name) m
  | lostClosure {d : Nat} {m : Machine} {c : ClosureId} {vs : List Value}
      (hc : m.store.closures[c]? = none) : Raises limits (d + 1) (.invoke c vs) m .dangling m
  /-- A body that ends in a jump, or an initializer without a receiver, gives no value. -/
  | result {d : Nat} {m m₁ m₂ m₃ : Machine} {c : ClosureId} {closure : Closure}
      {vs : List Value} {g : FrameId} {k : Completion} {f : Fault}
      (hc : m.store.closures[c]? = some closure)
      (hg : allocate (fun s => s.newFrame closure.site (some closure.frame)) m = .ok g m₁)
      (hparams : bindParams g closure.params vs m₁ = .ok () m₂)
      (hbody : inFrame g (runAll (LoxLang.exec limits d) closure.body) m₂ = .ok k m₃)
      (hf : callResult closure k m₃ = .error f m₃) :
      Raises limits (d + 1) (.invoke c vs) m f m₃
  | superclass {d : Nat} {m : Machine} {name : Token} {superclass : Option Token}
      {methods statics : List FunctionDecl} {f : Fault}
      (hf : readSuperclass limits.naming superclass m = .error f m) :
      Raises limits (d + 1) (.exec (.classDecl name superclass methods statics)) m f m
  | endless {d : Nat} {m : Machine} {c : Expr} {body : Stmt} {i : Option Expr} :
      Raises limits d (.loop c body i 0) m .endless m

/-- A task comes, by way of its parts, to a step that fails; the last machine is that of
this step. -/
inductive Fails (limits : Limits) : Nat → Task → Machine → Fault → Machine → Prop
  /-- The task fails by itself. -/
  | here {d : Nat} {t : Task} {m m' : Machine} {f : Fault} (h : Raises limits d t m f m') :
      Fails limits d t m f m'
  /-- A part of the task fails. -/
  | part {d d' : Nat} {t t' : Task} {m m₁ m' : Machine} {f : Fault}
      (hbegins : Begins limits d t m d' t' m₁) (hfails : Fails limits d' t' m₁ f m') :
      Fails limits d t m f m'

end Task

/-! ### The current frame -/

section Current

variable {limits : Limits} {d : Nat} {m m' : Machine} {f : Fault}

/-- However a task ends, the frame in which it was begun is current again. -/
theorem Task.Ends.current_eq {t : Task} (h : t.Ends limits d m m') :
    m'.current = m.current := by
  have hany := Traced.any limits.naming
  have hd := hany.evaluates d
  cases t with
  | eval e => exact ((hd.eval e).changes h).current_eq
  | evals es => exact ((Does.mapM hd.eval es).changes h).current_eq
  | exec s => exact ((hd.exec s).changes h).current_eq
  | execs ss => exact ((runAll_does hd.exec ss).changes h).current_eq
  | loop c body i n => exact ((runLoop_does c body i n).changes h).current_eq
  | apply v vs => exact ((hany.apply_does hd.invoke v vs).changes h).current_eq
  | property v name => exact ((hany.getProperty_does hd.invoke v name).changes h).current_eq
  | invoke c vs => exact ((hd.invoke c vs).changes h).current_eq

theorem Task.Faults.ends {t : Task} (h : t.Faults limits d m f m') : t.Ends limits d m m' :=
  .inr ⟨f, h⟩

end Current

/-! ### From the step that fails to the task -/

namespace Task

variable {limits : Limits} {d d' : Nat} {t t' : Task} {m m₁ m' : Machine} {f : Fault}

/-- A task that fails by itself leaves the machine of this step behind. -/
theorem Raises.faults (h : Raises limits d t m f m') : t.Faults limits d m f m' := by
  cases h with
  | deepExpression => rfl
  | deepStatement => rfl
  | deepCall => rfl
  | unary he hf =>
    change LoxLang.eval limits _ _ m = _
    rw [LoxLang.eval, bind_of_ok he, hf]
    rfl
  | binary hl hr hf =>
    change LoxLang.eval limits _ _ m = _
    rw [LoxLang.eval, bind_of_ok hl, bind_of_ok hr, hf]
    rfl
  | assign he hf =>
    change LoxLang.eval limits _ _ m = _
    rw [LoxLang.eval, bind_of_ok he]
    exact bind_of_error (assignName_of_error hf)
  | readVariable hf => exact readName_of_error hf
  | readThis hf => exact readName_of_error hf
  | notCallable hv hvs harity =>
    change LoxLang.eval limits _ _ m = _
    rw [LoxLang.eval, bind_of_ok hv, bind_of_ok hvs, ask_bind, harity]
    rfl
  | wrongArity hv hvs harity hn =>
    change LoxLang.eval limits _ _ m = _
    rw [LoxLang.eval, bind_of_ok hv, bind_of_ok hvs, ask_bind, harity]
    simp only [if_neg hn]
    rfl
  | noFields hv hp =>
    change LoxLang.eval limits _ _ m = _
    rw [LoxLang.eval, bind_of_ok hv]
    exact setProperty_of_plain hp
  | lostNative hn =>
    change callNative _ m = _
    rw [callNative, ask_bind, hn]
    rfl
  | noFunction hv => exact apply_of_plain hv
  | noProperties hp => exact getProperty_of_plain hp
  | undefinedProperty hfield hmethod =>
    change getFromObject _ _ _ m = _
    rw [getFromObject_of_method hfield, hmethod]
    rfl
  | undefinedStatic hstatic =>
    change getFromClass _ _ m = _
    rw [getFromClass, ask_bind, hstatic]
    rfl
  | lostClosure hc =>
    change LoxLang.invoke limits _ _ _ m = _
    rw [LoxLang.invoke, ask_bind, hc]
    rfl
  | result hc hg hparams hbody hf =>
    change LoxLang.invoke limits _ _ _ m = _
    rw [invoke_of_closure hc hg hparams, bind_of_ok hbody, hf]
  | superclass hf =>
    change LoxLang.exec limits _ _ m = _
    rw [LoxLang.exec, bind_of_error hf]
  | endless => rfl

/-- A task whose part fails leaves behind what the part does, in its own frame. -/
theorem Begins.faults (h : Begins limits d t m d' t' m₁) (ht : t'.Faults limits d' m₁ f m') :
    t.Faults limits d m f { m' with current := m.current } := by
  have hm : m'.current = m₁.current := ht.ends.current_eq
  cases h with
  | grouping =>
    rw [Machine.at_current hm]
    exact ht
  | operand | leftOperand | firstChoice | question | assigned | callee | object
  | changedObject | expression | printed | initialValue | test | returned | firstStatement =>
    rw [Machine.at_current hm]
    exact bind_of_error ht
  | rightOperand hl =>
    rw [Machine.at_current (hm.trans (eval_current hl))]
    exact (bind_of_ok hl).trans (bind_of_error ht)
  | secondChoice hl hv =>
    rw [Machine.at_current (hm.trans (eval_current hl))]
    refine (bind_of_ok hl).trans ?_
    simp only [hv]
    exact ht
  | yes hc hv | no hc hv | thenBranch hc hv | elseBranch hc hv =>
    rw [Machine.at_current (hm.trans (eval_current hc))]
    refine (bind_of_ok hc).trans ?_
    simp only [hv]
    exact ht
  | arguments hv =>
    rw [Machine.at_current (hm.trans (eval_current hv))]
    exact (bind_of_ok hv).trans (bind_of_error ht)
  | call hv hvs harity =>
    rw [Machine.at_current (hm.trans ((evals_current hvs).trans (eval_current hv)))]
    change LoxLang.eval limits _ _ m = _
    rw [LoxLang.eval, bind_of_ok hv, bind_of_ok hvs, ask_bind, harity]
    simp only [if_true]
    exact ht
  | property hv =>
    rw [Machine.at_current (hm.trans (eval_current hv))]
    exact (bind_of_ok hv).trans ht
  | newProperty hv hp =>
    rw [Machine.at_current (hm.trans (eval_current hv))]
    exact (bind_of_ok hv).trans (setProperty_of_error hp ht)
  | firstValue =>
    rw [Machine.at_current hm]
    change (List.mapM _ _ : EvalM _) m = _
    rw [List.mapM_cons]
    exact bind_of_error ht
  | laterValues hv =>
    rw [Machine.at_current (hm.trans (eval_current hv))]
    change (List.mapM _ _ : EvalM _) m = _
    rw [List.mapM_cons, bind_of_ok hv]
    exact bind_of_error ht
  | closure =>
    rw [Machine.at_current hm]
    exact ht
  | initializer ho hc hbound =>
    rw [Machine.at_current (hm.trans ((allocate_current hbound).trans (allocate_current ho)))]
    change construct _ _ _ m = _
    rw [construct_of_initializer ho hc, bind_of_ok hbound]
    exact bind_of_error ht
  | getter hfield hc hgetter hbound =>
    rw [Machine.at_current (hm.trans (allocate_current hbound))]
    change getFromObject _ _ _ m = _
    rw [getFromObject_of_method hfield, hc, readMethod, bind_of_ok hbound]
    simp only [hgetter]
    exact ht
  | body hc hg hparams =>
    change LoxLang.invoke limits _ _ _ m = _
    rw [invoke_of_closure hc hg hparams]
    refine bind_of_error ((inFrame_of_error ht).trans ?_)
    rw [bindParams_current hparams, allocate_current hg]
  | block hg =>
    change LoxLang.exec limits _ _ m = _
    rw [exec_block hg]
    refine (inFrame_of_error ht).trans ?_
    rw [allocate_current hg]
  | loop =>
    rw [Machine.at_current hm]
    change LoxLang.exec limits _ _ m = _
    rw [exec_while]
    exact ht
  | laterStatements hs =>
    rw [Machine.at_current (hm.trans (exec_current hs))]
    exact (bind_of_ok hs).trans ht
  | condition =>
    rw [Machine.at_current hm]
    exact runLoop_of_error ht
  | round hc hv =>
    rw [Machine.at_current (hm.trans (eval_current hc))]
    exact (runLoop_of_true hc hv).trans (bind_of_error ht)
  | increment hc hv hbody hk =>
    rw [Machine.at_current (hm.trans ((exec_current hbody).trans (eval_current hc)))]
    change runLoop limits _ _ _ _ _ m = _
    rw [runLoop_of_true hc hv, bind_of_ok hbody, afterRound_of_goesOn hk]
    exact bind_of_error (bind_of_error ht)
  | laterRounds hc hv hbody hk hi =>
    rw [Machine.at_current (hm.trans ((evalIncrement_current hi).trans
      ((exec_current hbody).trans (eval_current hc))))]
    change runLoop limits _ _ _ _ _ m = _
    rw [runLoop_of_true hc hv, bind_of_ok hbody, afterRound_of_goesOn hk, bind_of_ok hi]
    exact ht

/-- The machine that a task leaves behind when it fails is that of the step at which it
failed, in the frame of the task. -/
theorem Fails.faults (h : Fails limits d t m f m') :
    t.Faults limits d m f { m' with current := m.current } := by
  induction h with
  | here h =>
    have hfaults := h.faults
    rw [Machine.at_current hfaults.ends.current_eq]
    exact hfaults
  | part hbegins _ ih =>
    have hfaults := hbegins.faults ih
    exact hfaults

/-! ### From the task to the step that fails -/

/-- Whenever a task fails, there is a step at which it does. -/
def Located (limits : Limits) (d : Nat) (t : Task) : Prop :=
  ∀ ⦃m f m'⦄, t.Faults limits d m f m' → ∃ m₁, Fails limits d t m f m₁

/-- A failure that is located in a part. -/
theorem Begins.located (h : Begins limits d t m d' t' m₁) (ht : t'.Located limits d')
    (hf : t'.Faults limits d' m₁ f m') : ∃ m₂, Fails limits d t m f m₂ := by
  obtain ⟨m₂, hfails⟩ := ht hf
  exact ⟨m₂, .part h hfails⟩

theorem located_evals (heval : ∀ e, Located limits d (.eval e)) (es : List Expr) :
    Located limits d (.evals es) := by
  induction es with
  | nil =>
    intro m f m' h
    cases h
  | cons e es ih =>
    intro m f m' h
    change (List.mapM _ _ : EvalM _) m = _ at h
    rw [List.mapM_cons] at h
    obtain h | ⟨v, m₁, hv, h⟩ := cases_of_bind_eq_error h
    · exact Begins.firstValue.located (heval e) h
    · obtain h | ⟨vs, m₂, hvs, h⟩ := cases_of_bind_eq_error h
      · exact (Begins.laterValues hv).located ih h
      · cases h

theorem located_execs (hexec : ∀ s, Located limits d (.exec s)) (ss : List Stmt) :
    Located limits d (.execs ss) := by
  induction ss with
  | nil =>
    intro m f m' h
    cases h
  | cons s ss ih =>
    intro m f m' h
    obtain h | ⟨k, m₁, hk, h⟩ := cases_of_bind_eq_error h
    · exact Begins.firstStatement.located (hexec s) h
    · cases k with
      | normal => exact (Begins.laterStatements hk).located ih h
      | returned | broke | continued => cases h

theorem located_loop (heval : ∀ e, Located limits d (.eval e))
    (hexec : ∀ s, Located limits d (.exec s)) (c : Expr) (body : Stmt) (i : Option Expr)
    (n : Nat) : Located limits d (.loop c body i n) := by
  induction n with
  | zero =>
    intro m f m' h
    cases h
    exact ⟨m, .here .endless⟩
  | succ n ih =>
    intro m f m' h
    cases hc : LoxLang.eval limits d c m with
    | error g m₁ =>
      have hg := (runLoop_of_error hc).symm.trans h
      cases hg
      exact Begins.condition.located (heval c) hc
    | ok v m₁ =>
      cases hv : v.truthy with
      | false =>
        have hstop := (runLoop_of_false hc hv).symm.trans h
        cases hstop
      | true =>
        have hround := (runLoop_of_true hc hv).symm.trans h
        obtain h | ⟨k, m₂, hbody, h⟩ := cases_of_bind_eq_error hround
        · exact (Begins.round hc hv).located (hexec body) h
        · cases hk : k.goesOn with
          | false => cases k <;> first | cases h | cases hk
          | true =>
            rw [afterRound_of_goesOn hk] at h
            obtain h | ⟨u, m₃, hi, h⟩ := cases_of_bind_eq_error h
            · cases i with
              | none => cases h
              | some e =>
                obtain h | ⟨w, m₃, hw, h⟩ := cases_of_bind_eq_error h
                · exact (Begins.increment hc hv hbody hk).located (heval e) h
                · cases h
            · exact (Begins.laterRounds hc hv hbody hk hi).located ih h

theorem located_apply (hinvoke : ∀ c vs, Located limits d (.invoke c vs)) (v : Value)
    (vs : List Value) : Located limits d (.apply v vs) := by
  intro m f m' h
  cases v with
  | closure c => exact Begins.closure.located (hinvoke c vs) h
  | native n =>
    change callNative n m = _ at h
    rw [callNative, ask_bind] at h
    cases hn : m.store.natives[n]? with
    | none =>
      rw [hn] at h
      cases h
      exact ⟨m, .here (.lostNative hn)⟩
    | some native =>
      rw [hn] at h
      cases ha : native.action <;> simp only [ha] at h <;> cases h
  | classRef k =>
    change construct _ k vs m = _ at h
    obtain h | ⟨o, m₁, ho, h⟩ := cases_of_bind_eq_error h
    · cases h
    · change (askStore (fun s => s.initializer? k) >>= _) m₁ = _ at h
      rw [ask_bind] at h
      cases hc : m₁.store.initializer? k with
      | none =>
        rw [hc] at h
        cases h
      | some c =>
        rw [hc] at h
        obtain h | ⟨bound, m₂, hbound, h⟩ := cases_of_bind_eq_error h
        · cases h
        · obtain h | ⟨w, m₃, hw, h⟩ := cases_of_bind_eq_error h
          · exact (Begins.initializer ho hc hbound).located (hinvoke bound vs) h
          · cases h
  | nil | bool | number | text | object =>
    cases h
    exact ⟨m, .here (.noFunction rfl)⟩

theorem located_property (hinvoke : ∀ c vs, Located limits d (.invoke c vs)) (v : Value)
    (name : Token) : Located limits d (.property v name) := by
  intro m f m' h
  cases v with
  | object o =>
    change getFromObject _ o name m = _ at h
    cases hfield : m.store.field? o name.lexeme with
    | some v =>
      rw [getFromObject, ask_bind, hfield] at h
      cases h
    | none =>
      rw [getFromObject_of_method hfield] at h
      cases hmethod : m.store.methodOf? o name.lexeme with
      | none =>
        rw [hmethod] at h
        cases h
        exact ⟨m, .here (.undefinedProperty hfield hmethod)⟩
      | some c =>
        rw [hmethod] at h
        obtain h | ⟨bound, m₁, hbound, h⟩ := cases_of_bind_eq_error h
        · cases h
        · cases hgetter : c.isGetter with
          | true =>
            simp only [hgetter] at h
            exact (Begins.getter hfield hmethod hgetter hbound).located (hinvoke bound []) h
          | false =>
            simp only [hgetter] at h
            cases h
  | classRef k =>
    change getFromClass k name m = _ at h
    rw [getFromClass, ask_bind] at h
    cases hstatic : m.store.static? k name.lexeme with
    | some v =>
      rw [hstatic] at h
      cases h
    | none =>
      rw [hstatic] at h
      cases h
      exact ⟨m, .here (.undefinedStatic hstatic)⟩
  | nil | bool | number | text | closure | native =>
    cases h
    exact ⟨m, .here (.noProperties rfl)⟩

theorem located_readName {name : Token}
    (hraises : ∀ {m f}, limits.naming.value m name = .error f → Raises limits d t m f m)
    (h : readName limits.naming name m = .error f m') : ∃ m₁, Fails limits d t m f m₁ := by
  obtain ⟨hf, rfl⟩ := eq_of_ofExcept_eq_error h
  exact ⟨_, .here (hraises hf)⟩

/-- Expressions, statements and calls to a depth. -/
structure AllLocated (limits : Limits) (d : Nat) : Prop where
  eval : ∀ e, Located limits d (.eval e)
  exec : ∀ s, Located limits d (.exec s)
  invoke : ∀ c vs, Located limits d (.invoke c vs)

theorem AllLocated.eval_succ (ih : AllLocated limits d) (e : Expr) :
    Located limits (d + 1) (.eval e) := by
  intro m f m' h
  cases e with
  | literal value => cases h
  | grouping e => exact Begins.grouping.located (ih.eval e) h
  | unary operator e =>
    obtain h | ⟨v, m₁, hv, h⟩ := cases_of_bind_eq_error h
    · exact Begins.operand.located (ih.eval e) h
    · obtain ⟨hf, rfl⟩ := eq_of_ofExcept_eq_error h
      exact ⟨_, .here (.unary hv hf)⟩
  | binary l operator r =>
    obtain h | ⟨v, m₁, hv, h⟩ := cases_of_bind_eq_error h
    · exact Begins.leftOperand.located (ih.eval l) h
    obtain h | ⟨w, m₂, hw, h⟩ := cases_of_bind_eq_error h
    · exact (Begins.rightOperand hv).located (ih.eval r) h
    · obtain ⟨hf, rfl⟩ := eq_of_ofExcept_eq_error h
      exact ⟨_, .here (.binary hv hw hf)⟩
  | logical l operator r =>
    obtain h | ⟨v, m₁, hv, h⟩ := cases_of_bind_eq_error h
    · exact Begins.firstChoice.located (ih.eval l) h
    cases hchoice : v.truthy == (operator.kind == .kwOr) with
    | true =>
      simp only [hchoice] at h
      cases h
    | false =>
      simp only [hchoice] at h
      exact (Begins.secondChoice hv hchoice).located (ih.eval r) h
  | conditional c t e =>
    obtain h | ⟨v, m₁, hv, h⟩ := cases_of_bind_eq_error h
    · exact Begins.question.located (ih.eval c) h
    cases htruthy : v.truthy with
    | true =>
      simp only [htruthy] at h
      exact (Begins.yes hv htruthy).located (ih.eval t) h
    | false =>
      simp only [htruthy] at h
      exact (Begins.no hv htruthy).located (ih.eval e) h
  | assign name e =>
    obtain h | ⟨v, m₁, hv, h⟩ := cases_of_bind_eq_error h
    · exact Begins.assigned.located (ih.eval e) h
    obtain h | ⟨u, m₂, hu, h⟩ := cases_of_bind_eq_error h
    · obtain h | ⟨g, m₂, hg, h⟩ := cases_of_bind_eq_error (x := ofExcept _) h
      · obtain ⟨hf, rfl⟩ := eq_of_ofExcept_eq_error h
        exact ⟨_, .here (.assign hv hf)⟩
      · cases h
    · cases h
  | «variable» name => exact located_readName .readVariable h
  | call callee paren es =>
    obtain h | ⟨v, m₁, hv, h⟩ := cases_of_bind_eq_error h
    · exact Begins.callee.located (ih.eval callee) h
    obtain h | ⟨vs, m₂, hvs, h⟩ := cases_of_bind_eq_error h
    · exact (Begins.arguments hv).located (located_evals ih.eval es) h
    rw [ask_bind] at h
    cases harity : m₂.store.arity? v with
    | none =>
      rw [harity] at h
      cases h
      exact ⟨_, .here (.notCallable hv hvs harity)⟩
    | some n =>
      rw [harity] at h
      by_cases hn : (vs.length : Int) = n
      · subst hn
        simp only [if_true] at h
        exact (Begins.call hv hvs harity).located (located_apply ih.invoke v vs) h
      · simp only [if_neg hn] at h
        cases h
        exact ⟨_, .here (.wrongArity hv hvs harity hn)⟩
  | get object name =>
    obtain h | ⟨v, m₁, hv, h⟩ := cases_of_bind_eq_error h
    · exact Begins.object.located (ih.eval object) h
    · exact (Begins.property hv).located (located_property ih.invoke v name) h
  | set object name e =>
    obtain h | ⟨v, m₁, hv, h⟩ := cases_of_bind_eq_error h
    · exact Begins.changedObject.located (ih.eval object) h
    cases hp : v.hasProperties with
    | true => exact (Begins.newProperty hv hp).located (ih.eval e) (error_of_setProperty hp h)
    | false =>
      rw [setProperty_of_plain hp] at h
      cases h
      exact ⟨_, .here (.noFields hv hp)⟩
  | this keyword => exact located_readName .readThis h
  | lambda keyword params body => cases h

theorem AllLocated.exec_succ (ih : AllLocated limits d) (s : Stmt) :
    Located limits (d + 1) (.exec s) := by
  intro m f m' h
  cases s with
  | expression e =>
    obtain h | ⟨v, m₁, hv, h⟩ := cases_of_bind_eq_error h
    · exact Begins.expression.located (ih.eval e) h
    · cases h
  | print e =>
    obtain h | ⟨v, m₁, hv, h⟩ := cases_of_bind_eq_error h
    · exact Begins.printed.located (ih.eval e) h
    · cases h
  | var name initializer =>
    cases initializer with
    | none => cases h
    | some e =>
      obtain h | ⟨v, m₁, hv, h⟩ := cases_of_bind_eq_error h
      · exact Begins.initialValue.located (ih.eval e) h
      · cases h
  | block position ss =>
    obtain ⟨g, m₁, hg⟩ : ∃ g m₁,
        allocate (fun s => s.newFrame (.block position) (some m.current)) m = .ok g m₁ :=
      ⟨_, _, rfl⟩
    change LoxLang.exec limits _ _ m = _ at h
    rw [exec_block hg] at h
    obtain ⟨m₂, h⟩ := error_of_inFrame h
    exact (Begins.block hg).located (located_execs ih.exec ss) h
  | ifElse c t e =>
    obtain h | ⟨v, m₁, hv, h⟩ := cases_of_bind_eq_error h
    · exact Begins.test.located (ih.eval c) h
    cases htruthy : v.truthy with
    | true =>
      simp only [htruthy] at h
      exact (Begins.thenBranch hv htruthy).located (ih.exec t) h
    | false =>
      simp only [htruthy] at h
      cases e with
      | none => cases h
      | some e => exact (Begins.elseBranch hv htruthy).located (ih.exec e) h
  | «while» c body i =>
    change LoxLang.exec limits _ _ m = _ at h
    rw [exec_while] at h
    exact Begins.loop.located (located_loop ih.eval ih.exec c body i _) h
  | «break» | «continue» => cases h
  | function f => cases h
  | «return» keyword value =>
    cases value with
    | none => cases h
    | some e =>
      obtain h | ⟨v, m₁, hv, h⟩ := cases_of_bind_eq_error h
      · exact Begins.returned.located (ih.eval e) h
      · cases h
  | classDecl name superclass methods statics =>
    obtain h | ⟨parent, m₁, _, h⟩ := cases_of_bind_eq_error h
    · obtain rfl := eq_of_readSuperclass_eq_error h
      exact ⟨_, .here (.superclass h)⟩
    · obtain ⟨m₂, hclass⟩ := exists_declareClass name parent methods statics m₁
      cases (bind_of_ok hclass).symm.trans h

theorem AllLocated.invoke_succ (ih : AllLocated limits d) (c : ClosureId) (vs : List Value) :
    Located limits (d + 1) (.invoke c vs) := by
  intro m f m' h
  change LoxLang.invoke limits _ c vs m = _ at h
  cases hc : m.store.closures[c]? with
  | none =>
    rw [LoxLang.invoke, ask_bind, hc] at h
    cases h
    exact ⟨m, .here (.lostClosure hc)⟩
  | some closure =>
    obtain ⟨g, m₁, hg⟩ : ∃ g m₁, allocate
        (fun s => s.newFrame closure.site (some closure.frame)) m = .ok g m₁ := ⟨_, _, rfl⟩
    obtain ⟨m₂, hparams⟩ := exists_bindParams g closure.params vs m₁
    rw [invoke_of_closure hc hg hparams] at h
    obtain h | ⟨k, m₃, hbody, h⟩ := cases_of_bind_eq_error h
    · obtain ⟨m₃, h⟩ := error_of_inFrame h
      exact (Begins.body hc hg hparams).located (located_execs ih.exec closure.body) h
    · obtain rfl := eq_of_callResult_eq_error h
      exact ⟨_, .here (.result hc hg hparams hbody h)⟩

theorem allLocated (limits : Limits) (d : Nat) : AllLocated limits d := by
  induction d with
  | zero =>
    refine ⟨fun e m f m' h => ?_, fun s m f m' h => ?_, fun c vs m f m' h => ?_⟩
    · cases h
      exact ⟨m, .here .deepExpression⟩
    · cases h
      exact ⟨m, .here .deepStatement⟩
    · cases h
      exact ⟨m, .here .deepCall⟩
  | succ d ih => exact ⟨ih.eval_succ, ih.exec_succ, ih.invoke_succ⟩

theorem located (limits : Limits) (d : Nat) (t : Task) : t.Located limits d := by
  have hd := allLocated limits d
  cases t with
  | eval e => exact hd.eval e
  | evals es => exact located_evals hd.eval es
  | exec s => exact hd.exec s
  | execs ss => exact located_execs hd.exec ss
  | loop c body i n => exact located_loop hd.eval hd.exec c body i n
  | apply v vs => exact located_apply hd.invoke v vs
  | property v name => exact located_property hd.invoke v name
  | invoke c vs => exact hd.invoke c vs

/-- A task fails in only one way. -/
theorem Faults.unique {f' : Fault} (h : t.Faults limits d m f m')
    (h' : t.Faults limits d m f' m₁) : f = f' ∧ m' = m₁ :=
  EStateM.Result.error.inj (h.symm.trans h')

/-- A task fails exactly if it comes to a step that fails.  What it leaves behind is the
machine of this step, but for the current frame, which is that of the task. -/
theorem faults_iff : t.Faults limits d m f m'
    ↔ ∃ m₁, Fails limits d t m f m₁ ∧ m' = { m₁ with current := m.current } := by
  constructor
  · intro h
    obtain ⟨m₁, hfails⟩ := located limits d t h
    exact ⟨m₁, hfails, (h.unique hfails.faults).2⟩
  · rintro ⟨m₁, hfails, rfl⟩
    exact hfails.faults

end Task

end LoxLang
