import LoxLang.Machine

/-!
# Running programs

Expressions give values and statements give completions.  Both are computed by
recursion on the depth to which they may still nest, which a call uses up as well;
when it is used up, running ends with an overflow.  A loop takes its rounds one after
the other without using up depth, and has a bound of its own.

Operands are evaluated from left to right.  The arguments of a call are evaluated
before it is known whether the callee can be called, while an assignment to a property
looks at the object before its value is evaluated.

## Main definitions

* `eval`, `exec`, `invoke` — values of expressions, completions of statements, and calls
  of closures.
* `apply`, `construct`, `getProperty`, `setProperty` — what can be done with values, given
  how closures are called.
* `repeatWhile` — loops.
* `runProgram` — the statements of a program.

## References

The reference's `Evaluator`, and `call`, `get` and `set` of what it calls.
-/

namespace LoxLang

/-- How closures are called: with their arguments. -/
abbrev Invoker := ClosureId → List Value → EvalM Value

/-! ### Objects -/

/-- Makes an object of a class and initializes it. -/
def construct (call : Invoker) (k : ClassId) (arguments : List Value) : EvalM Value := do
  let o ← allocate fun s => s.newObject k
  match ← askStore fun s => (s.method? k "init").bind fun c => s.closures[c]? with
  | none => return .object o
  | some initializer =>
      let bound ← allocate fun s => s.bind initializer (.object o)
      let _ ← call bound arguments
      return .object o

/-- Calls a native function. -/
def callNative (n : NativeId) : EvalM Value := do
  match ← askStore fun s => s.natives[n]? with
  | none => throw .dangling
  | some f =>
      match f.action with
      | .clock => readClock
      | .constant v => return v

/-- Calls a value with arguments. -/
def apply (call : Invoker) (callee : Value) (arguments : List Value) : EvalM Value :=
  match callee with
  | .closure c => call c arguments
  | .native n => callNative n
  | .classRef k => construct call k arguments
  | _ => throw .dangling

/-- The property of an object: its own value, or a method bound to it, which is called
at once if it is a getter. -/
def getFromObject (call : Invoker) (o : ObjectId) (name : Token) : EvalM Value := do
  match ← askStore fun s => s.field? o name.lexeme with
  | some v => return v
  | none =>
      let method ← askStore fun s => do
        let x ← s.objects[o]?
        let c ← s.method? x.classId name.lexeme
        s.closures[c]?
      match method with
      | none => failAt .undefinedProperty name
      | some method =>
          let bound ← allocate fun s => s.bind method (.object o)
          if method.isGetter then call bound [] else return .closure bound

/-- The value that a class has, itself or by inheritance. -/
def getFromClass (k : ClassId) (name : Token) : EvalM Value := do
  match ← askStore fun s => s.static? k name.lexeme with
  | some v => return v
  | none => failAt (.undefinedStatic (← askStore fun s => s.className k)) name

/-- The property of a value. -/
def getProperty (call : Invoker) (v : Value) (name : Token) : EvalM Value :=
  match v with
  | .object o => getFromObject call o name
  | .classRef k => getFromClass k name
  | _ => failAt .noProperties name

/-- Assigns to a property, whose value is computed once the value is known to have
properties. -/
def setProperty (v : Value) (name : Token) (value : EvalM Value) : EvalM Value :=
  match v with
  | .object o => do
      let w ← value
      changeStore fun s => s.setField o name.lexeme w
      return w
  | .classRef k => do
      let w ← value
      changeStore fun s => s.setStatic k name.lexeme w
      return w
  | _ => failAt .noFields name

/-! ### Declarations -/

/-- The closure of a function with a name. -/
def FunctionDecl.closure (f : FunctionDecl) (frame : FrameId) : Closure :=
  { name := some f.name.lexeme, params := f.params, body := f.body, frame,
    site := .function f.name.position }

/-- The closure of a method of a class.  The method `init` initializes, and any other
without parameters is a getter. -/
def FunctionDecl.method (f : FunctionDecl) (frame : FrameId) (className : Token) : Closure :=
  { f.closure frame with
    home := .receiver className.position
    isInitializer := f.name.lexeme == "init"
    isGetter := f.name.lexeme != "init" && f.params.isEmpty }

/-- Puts closures into the store and lists them by name. -/
def allocateAll (closure : FunctionDecl → Closure) :
    List FunctionDecl → Table String ClosureId → EvalM (Table String ClosureId)
  | [], made => return made
  | f :: fs, made => do
      let c ← allocate fun s => s.newClosure (closure f)
      allocateAll closure fs (made.insert f.name.lexeme c)

/-- Declares a class in the current frame. -/
def declareClass (name : Token) (superclass : Option ClassId)
    (methods statics : List FunctionDecl) : EvalM Unit := do
  let frame := (← get).current
  let methods ← allocateAll (fun f => f.method frame name) methods .empty
  let statics ← allocateAll (fun f => f.closure frame) statics .empty
  let k ← allocate fun s => s.newClass
    { name := name.lexeme, superclass, methods
      statics := ⟨statics.entries.map fun (n, c) => (n, .closure c)⟩ }
  defineHere name.lexeme (some (.classRef k))

/-- The class that a class inherits from. -/
def readSuperclass (naming : Naming) : Option Token → EvalM (Option ClassId)
  | none => return none
  | some name => do
      match ← readName naming name with
      | .classRef k => return some k
      | _ => failAt .superclassNotClass name

/-! ### Statements in order -/

/-- Runs statements until one of them jumps. -/
def runAll (run : Stmt → EvalM Completion) : List Stmt → EvalM Completion
  | [] => return .normal
  | s :: ss => do
      match ← run s with
      | .normal => runAll run ss
      | jump => return jump

/-- Repeats rounds while a condition holds.  A round that breaks ends the loop, one that
returns ends it with the same completion, and any other is followed by the increment. -/
def repeatWhile (condition : EvalM Bool) (round : EvalM Completion) (increment : EvalM Unit) :
    (rounds : Nat) → EvalM Completion
  | 0 => throw .endless
  | n + 1 => do
      if ← condition then
        match ← round with
        | .broke _ => return .normal
        | .returned keyword v => return .returned keyword v
        | _ =>
            increment
            repeatWhile condition round increment n
      else
        return .normal

/-- Binds parameters to arguments in a frame. -/
def bindParams (f : FrameId) : List Token → List Value → EvalM Unit
  | p :: ps, v :: vs => do
      changeStore fun s => s.define f p.lexeme (some v)
      bindParams f ps vs
  | _, _ => return ()

/-- The value of a call whose body ended in some way.  An initializer gives its receiver,
whatever it returned. -/
def callResult (closure : Closure) : Completion → EvalM Value
  | .broke keyword => failAt .strayJump keyword
  | .continued keyword => failAt .strayJump keyword
  | completion => do
      if closure.isInitializer then
        match ← askStore fun s => s.slot? closure.frame "this" with
        | some (some receiver) => return receiver
        | _ => throw .noReceiver
      else
        match completion with
        | .returned _ v => return v
        | _ => return .nil

/-- Calls a closure, given how statements are run. -/
def enter (run : Stmt → EvalM Completion) (closure : Closure) (arguments : List Value) :
    EvalM Value := do
  let f ← allocate fun s => s.newFrame closure.site (some closure.frame)
  bindParams f closure.params arguments
  callResult closure (← inFrame f (runAll run closure.body))

/-! ### Expressions and statements -/

mutual

/-- The value of an expression. -/
def eval (limits : Limits) : (depth : Nat) → Expr → EvalM Value
  | 0, _ => throw .overflow
  | _ + 1, .literal value => return .ofLiteral value
  | d + 1, .grouping e => eval limits d e
  | d + 1, .unary operator e => do
      ofExcept (applyUnary operator (← eval limits d e))
  | d + 1, .binary l operator r => do
      let v ← eval limits d l
      let w ← eval limits d r
      ofExcept (applyBinary operator v w)
  | d + 1, .logical l operator r => do
      let v ← eval limits d l
      if v.truthy == (operator.kind == .kwOr) then return v else eval limits d r
  | d + 1, .conditional c t e => do
      if (← eval limits d c).truthy then eval limits d t else eval limits d e
  | d + 1, .assign name e => do
      let v ← eval limits d e
      assignName limits.naming name v
      return v
  | _ + 1, .variable name => readName limits.naming name
  | d + 1, .call callee paren arguments => do
      let f ← eval limits d callee
      let vs ← arguments.mapM (eval limits d)
      match ← askStore fun s => s.arity? f with
      | none => failAt .notCallable paren
      | some n =>
          if (vs.length : Int) = n then
            apply (invoke limits d) f vs
          else
            failAt (.wrongArity n vs.length) paren
  | d + 1, .get object name => do
      getProperty (invoke limits d) (← eval limits d object) name
  | d + 1, .set object name e => do
      setProperty (← eval limits d object) name (eval limits d e)
  | _ + 1, .this keyword => readName limits.naming keyword
  | _ + 1, .lambda keyword params body => do
      let frame := (← get).current
      let c ← allocate fun s => s.newClosure
        { name := none, params, body, frame, site := .function keyword.position }
      return .closure c

/-- How a statement ends. -/
def exec (limits : Limits) : (depth : Nat) → Stmt → EvalM Completion
  | 0, _ => throw .overflow
  | d + 1, .expression e => do
      let _ ← eval limits d e
      return .normal
  | d + 1, .print e => do
      let v ← eval limits d e
      printLine (← askStore fun s => s.text v)
      return .normal
  | _ + 1, .var name none => do
      defineHere name.lexeme none
      return .normal
  | d + 1, .var name (some e) => do
      let v ← eval limits d e
      defineHere name.lexeme (some v)
      return .normal
  | d + 1, .block position body => do
      let here := (← get).current
      let f ← allocate fun s => s.newFrame (.block position) (some here)
      inFrame f (runAll (exec limits d) body)
  | d + 1, .ifElse c t e => do
      if (← eval limits d c).truthy then
        exec limits d t
      else
        match e with
        | none => return .normal
        | some e => exec limits d e
  | d + 1, .while c body increment =>
      repeatWhile
        (do return (← eval limits d c).truthy)
        (exec limits d body)
        (match increment with
          | none => return ()
          | some e => do let _ ← eval limits d e)
        limits.rounds
  | _ + 1, .break keyword => return .broke keyword
  | _ + 1, .continue keyword => return .continued keyword
  | _ + 1, .function f => do
      let frame := (← get).current
      let c ← allocate fun s => s.newClosure (f.closure frame)
      defineHere f.name.lexeme (some (.closure c))
      return .normal
  | _ + 1, .return keyword none => return .returned keyword .nil
  | d + 1, .return keyword (some e) => do
      return .returned keyword (← eval limits d e)
  | _ + 1, .classDecl name superclass methods statics => do
      let parent ← readSuperclass limits.naming superclass
      declareClass name parent methods statics
      return .normal

/-- The value of a call of a closure. -/
def invoke (limits : Limits) : (depth : Nat) → Invoker
  | 0, _, _ => throw .overflow
  | d + 1, c, arguments => do
      match ← askStore fun s => s.closures[c]? with
      | none => throw .dangling
      | some closure => enter (exec limits d) closure arguments

end

/-- Runs the statements of a program; a jump that nothing catches is a fault. -/
def runProgram (limits : Limits) : Program → EvalM Unit
  | [] => return ()
  | s :: ss => do
      match ← exec limits limits.depth s with
      | .normal => runProgram limits ss
      | .returned keyword _ => failAt .strayReturn keyword
      | .broke keyword => failAt .strayJump keyword
      | .continued keyword => failAt .strayJump keyword

end LoxLang
