import LoxLang.Program
import LoxLang.Scope
import LoxLang.Text.Quoted
import LoxLang.Value

/-!
# The store

Everything that can be shared while a program runs lives in the store: frames,
closures, native functions, classes and objects.  Each is put at the end of its own
sequence and is referred to by its place there; nothing is ever removed.

A frame holds the names of one activation of a scope and refers to the frame around
it.  A name that was declared without a value is in its frame but has none, and so
differs both from a name that has a value and from one that is not there.

## Main definitions

* `Frame`, `Closure`, `Native`, `ClassObject`, `Instance` — what lives in the store.
* `Store` — the store.
* `Store.newFrame`, `Store.define` — making frames, and names in them.
* `Store.chain`, `Store.read`, `Store.assign?` — a name in the nearest frame that has it.
* `Store.ancestor?`, `Store.readAt?`, `Store.assignAt?` — a name in the frame a number of
  steps out.

## References

The reference's `Environment`.
-/

namespace LoxLang

/-- What a name is bound to: a value, or nothing yet. -/
abbrev Slot := Option Value

/-- The names of one activation of a scope. -/
structure Frame where
  /-- The construct whose activation it is. -/
  site : Site
  /-- The frame around it; the global frame has none. -/
  parent : Option FrameId
  /-- The names, in the order in which they were declared. -/
  slots : Table String Slot := .empty

/-- A function of the program together with the frame it was made in. -/
structure Closure where
  /-- Its name, if it has one. -/
  name : Option String
  /-- Its parameters. -/
  params : List Token
  /-- Its body. -/
  body : List Stmt
  /-- The frame it was made in, or for a bound method the one that holds `this`. -/
  frame : FrameId
  /-- The construct it comes from. -/
  site : Site
  /-- The class whose method it is, as the construct around it. -/
  home : Site := .receiver 0
  /-- Whether it initializes objects. -/
  isInitializer : Bool := false
  /-- Whether it is called when it is read. -/
  isGetter : Bool := false

/-- What a native function does. -/
inductive NativeAction where
  /-- It reads the clock. -/
  | clock
  /-- It gives the same value each time. -/
  | constant (v : Value)
  deriving DecidableEq, Repr

/-- A function that the interpreter provides. -/
structure Native where
  /-- Its name. -/
  name : String
  /-- How many arguments it takes; a negative number fits no call. -/
  arity : Int
  /-- What it does. -/
  action : NativeAction
  deriving DecidableEq, Repr

/-- A class. -/
structure ClassObject where
  /-- Its name. -/
  name : String
  /-- The class it inherits from. -/
  superclass : Option ClassId
  /-- The methods it declares. -/
  methods : Table String ClosureId
  /-- The values it has itself: its static methods, and what was assigned to it. -/
  statics : Table String Value

/-- An object: its class, and the values it has itself. -/
structure Instance where
  /-- Its class. -/
  classId : ClassId
  /-- The values it has itself. -/
  fields : Table String Value := .empty

/-- The store. -/
structure Store where
  /-- The frames. -/
  frames : Array Frame := #[]
  /-- The closures. -/
  closures : Array Closure := #[]
  /-- The native functions. -/
  natives : Array Native := #[]
  /-- The classes. -/
  classes : Array ClassObject := #[]
  /-- The objects. -/
  objects : Array Instance := #[]

instance : Inhabited Store := ⟨{}⟩

/-- What reading a name gives. -/
inductive NameReading where
  /-- The name is not there. -/
  | undefined
  /-- The name was declared but has no value. -/
  | uninitialized
  /-- The name has a value. -/
  | value (v : Value)
  deriving DecidableEq, Repr

/-- What reading a name gives, from what a frame holds under it. -/
def NameReading.ofSlot? : Option Slot → NameReading
  | none => .undefined
  | some none => .uninitialized
  | some (some v) => .value v

namespace Store

/-! ### Frames -/

/-- Makes a frame without names. -/
def newFrame (s : Store) (site : Site) (parent : Option FrameId) : FrameId × Store :=
  (s.frames.size, { s with frames := s.frames.push { site, parent } })

/-- Binds a name in a frame, over what it was bound to before. -/
def define (s : Store) (f : FrameId) (name : String) (slot : Slot) : Store :=
  { s with
    frames := s.frames.modify f fun fr => { fr with slots := fr.slots.insert name slot } }

/-- The frame around a frame. -/
def parent? (s : Store) (f : FrameId) : Option FrameId := do (← s.frames[f]?).parent

/-- What a frame holds under a name. -/
def slot? (s : Store) (f : FrameId) (name : String) : Option Slot := do
  (← s.frames[f]?).slots.find? name

/-- A frame and at most `n` of those around it, innermost first. -/
def chainFrom (s : Store) : (n : Nat) → FrameId → List FrameId
  | 0, f => [f]
  | n + 1, f =>
      match s.parent? f with
      | none => [f]
      | some p => f :: s.chainFrom n p

/-- A frame and all those around it, innermost first. -/
def chain (s : Store) (f : FrameId) : List FrameId := s.chainFrom s.frames.size f

/-- The nearest frame of a chain that holds a name. -/
def holder? (s : Store) (f : FrameId) (name : String) : Option FrameId :=
  (s.chain f).find? fun g => (s.slot? g name).isSome

/-- Reads a name in the nearest frame that holds it. -/
def read (s : Store) (f : FrameId) (name : String) : NameReading :=
  match s.holder? f name with
  | none => .undefined
  | some g => .ofSlot? (s.slot? g name)

/-- Gives a name a value in the nearest frame that holds it, if there is one. -/
def assign? (s : Store) (f : FrameId) (name : String) (v : Value) : Option Store :=
  (s.holder? f name).map fun g => s.define g name (some v)

/-- The frame a number of steps out, if there are as many. -/
def ancestor? (s : Store) (f : FrameId) : (distance : Nat) → Option FrameId
  | 0 => some f
  | d + 1 =>
      match s.parent? f with
      | none => none
      | some p => s.ancestor? p d

/-- Reads a name in the frame a number of steps out, if there are as many. -/
def readAt? (s : Store) (f : FrameId) (distance : Nat) (name : String) : Option NameReading :=
  (s.ancestor? f distance).map fun g => .ofSlot? (s.slot? g name)

/-- Binds a name to a value in the frame a number of steps out, if there are as many. -/
def assignAt? (s : Store) (f : FrameId) (distance : Nat) (name : String) (v : Value) :
    Option Store :=
  (s.ancestor? f distance).map fun g => s.define g name (some v)

end Store

end LoxLang
