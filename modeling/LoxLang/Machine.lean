import LoxLang.Machine.Operators
import LoxLang.Store.Object

/-!
# The machine

The machine is what a running program acts on: the store, the frame that is current,
the distances that the analysis of scopes has recorded, what was printed, and the
clock.  A statement ends normally or by a jump; a jump carries the keyword that
caused it, so that one which nothing catches can be reported.

## Main definitions

* `Clock` — a clock, by what it says each time it is read.
* `Machine` — the state of a running program.
* `Completion` — how a statement ends.
* `EvalM` — actions on the machine that may fail; the machine as it was when an action
  failed is kept.
* `Naming` — how names are looked up: `Naming.byDistance`, `Naming.byName`.
* `readName`, `assignName` — reading and assigning names.
* `inFrame` — an action with another frame current.

## References

The reference's `Completion`, and `look_up_variable` and `execute_block` of its
`Evaluator`.
-/

namespace LoxLang

/-! ### The clock -/

/-- A clock.  Nothing is known of the times that it tells. -/
structure Clock where
  /-- The time in seconds at each reading. -/
  times : Nat → Float
  /-- How often the clock was read. -/
  readings : Nat := 0

namespace Clock

/-- The time at the next reading. -/
def time (c : Clock) : Float := c.times c.readings

/-- The clock after a reading. -/
def next (c : Clock) : Clock := { c with readings := c.readings + 1 }

/-- A clock that goes on by less than a microsecond from one reading to the next. -/
def ticking (start : Float) : Clock where
  times n := start + Float.ofNat n / 1048576

/-- A time stands for the clock that begins with it. -/
instance : Coe Float Clock := ⟨ticking⟩

instance : Inhabited Clock := ⟨ticking 0⟩

end Clock

/-! ### The state -/

/-- The state of a running program. -/
structure Machine where
  /-- The store. -/
  store : Store
  /-- The frame of the global names. -/
  globals : FrameId
  /-- The frame whose names are in scope. -/
  current : FrameId
  /-- How far out the names that are not global are, by the positions of their
  occurrences. -/
  distances : Distances := .empty
  /-- What was printed. -/
  output : String := ""
  /-- The clock. -/
  clock : Clock := default

/-- The machine before any program: the only name is that of the clock. -/
def Machine.initial (clock : Clock) : Machine :=
  let (n, s) := Store.newNative {} { name := "clock", arity := 0, action := .clock }
  let (g, s) := s.newFrame .globals none
  { store := s.define g "clock" (some (.native n)), globals := g, current := g, clock }

/-- How a statement ends. -/
inductive Completion where
  /-- The next statement follows. -/
  | normal
  /-- The function that is running ends with a value. -/
  | returned (keyword : Token) (v : Value)
  /-- The innermost loop ends. -/
  | broke (keyword : Token)
  /-- The current round of the innermost loop ends. -/
  | continued (keyword : Token)
  deriving DecidableEq, Repr

/-! ### Names -/

/-- The value of a name, if it has one. -/
def NameReading.valueAt (name : Token) : NameReading → Except Fault Value
  | .undefined => .error (.at .undefinedVariable name)
  | .uninitialized => .error (.at .uninitializedVariable name)
  | .value v => .ok v

/-- The nearest frame around a frame that holds a name; its absence is a fault. -/
def Store.holderAt (s : Store) (f : FrameId) (name : Token) : Except Fault FrameId :=
  match s.holder? f name.lexeme with
  | none => .error (.at .undefinedVariable name)
  | some g => .ok g

/-- How the occurrences of names are looked up. -/
structure Naming where
  /-- The value of an occurrence of a name. -/
  value : Machine → Token → Except Fault Value
  /-- The frame in which an assignment to an occurrence of a name takes effect. -/
  target : Machine → Token → Except Fault FrameId

namespace Naming

/-- At the recorded distance; a name without one is global. -/
def byDistance : Naming where
  value m name :=
    match m.distances.find? name.position with
    | none => (m.store.read m.globals name.lexeme).valueAt name
    | some d =>
        match m.store.readAt? m.current d name.lexeme with
        | none => .error (.beyondGlobals d)
        | some r => r.valueAt name
  target m name :=
    match m.distances.find? name.position with
    | none => m.store.holderAt m.globals name
    | some d =>
        match m.store.ancestor? m.current d with
        | none => .error (.beyondGlobals d)
        | some g => .ok g

/-- In the nearest frame around that holds the name. -/
def byName : Naming where
  value m name := (m.store.read m.current name.lexeme).valueAt name
  target m name := m.store.holderAt m.current name

end Naming

/-- The bounds within which programs run, and how names are looked up. -/
structure Limits where
  /-- How deeply calls, statements and expressions may be nested. -/
  depth : Nat := 1000
  /-- How many rounds a loop may take. -/
  rounds : Nat := Nat.pow 10 15
  /-- How names are looked up. -/
  naming : Naming := .byDistance

/-- Actions on the machine that may fail. -/
abbrev EvalM := EStateM Fault Machine

/-! ### Acting on the machine -/

/-- Fails because of what the program did at a token. -/
def failAt {α : Type} (cause : RuntimeCause) (token : Token) : EvalM α := throw (.at cause token)

/-- The result of a computation that needs no machine. -/
def ofExcept {α : Type} : Except Fault α → EvalM α
  | .ok a => pure a
  | .error e => throw e

/-- A question to the store. -/
def askStore {α : Type} (f : Store → α) : EvalM α := do return f (← get).store

/-- Changes the store. -/
def changeStore (f : Store → Store) : EvalM Unit :=
  modify fun m => { m with store := f m.store }

/-- Puts something new into the store. -/
def allocate (f : Store → Nat × Store) : EvalM Nat :=
  modifyGet fun m =>
    let (n, s) := f m.store
    (n, { m with store := s })

/-- Binds a name in the current frame. -/
def defineHere (name : String) (slot : Slot) : EvalM Unit :=
  modify fun m => { m with store := m.store.define m.current name slot }

/-- Prints a text on a line of its own. -/
def printLine (text : String) : EvalM Unit :=
  modify fun m => { m with output := m.output ++ text ++ "\n" }

/-- Reads the clock. -/
def readClock : EvalM Value :=
  modifyGet fun m => (.number m.clock.time, { m with clock := m.clock.next })

/-- Makes a frame current. -/
def setCurrent (f : FrameId) : EvalM Unit := modify fun m => { m with current := f }

/-- Runs an action with another frame current.  However the action ends, the frame that
was current before it is current again. -/
def inFrame {α : Type} (f : FrameId) (action : EvalM α) : EvalM α := do
  let before := (← get).current
  setCurrent f
  try
    let a ← action
    setCurrent before
    return a
  catch e =>
    setCurrent before
    throw e

/-- Reads a name. -/
def readName (naming : Naming) (name : Token) : EvalM Value := do
  ofExcept (naming.value (← get) name)

/-- Assigns to a name. -/
def assignName (naming : Naming) (name : Token) (v : Value) : EvalM Unit := do
  let f ← ofExcept (naming.target (← get) name)
  changeStore fun s => s.define f name.lexeme (some v)

end LoxLang
