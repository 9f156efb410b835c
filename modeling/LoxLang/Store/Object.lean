import LoxLang.Decimal.Layout
import LoxLang.Store

/-!
# Functions, classes and objects in the store

A class finds a method in its own table or in the nearest class it inherits from
that has one.  An object has the values that were assigned to it; where it has none
of a name, it has the method of that name, bound to the object.  The values of a
class itself are inherited too, but assigning to a class changes its own table only.

Binding a method makes a frame that holds `this` and a copy of the method that was
made in that frame.

## Main definitions

* `Store.newClosure`, `Store.newNative`, `Store.newClass`, `Store.newObject` — making them.
* `Store.lineage`, `Store.method?`, `Store.static?` — what a class has, itself or by
  inheritance.
* `Store.bind` — a method bound to a value.
* `Store.arity?` — how many arguments a value takes when it is called.
* `Store.text` — what is printed for a value.
* `Store.listing` — how a frame is listed.

## References

The reference's `LoxFunction`, `LoxClass`, `LoxInstance` and `stringify`.
-/

namespace LoxLang

namespace Store

/-! ### Making -/

/-- Puts a closure into the store. -/
def newClosure (s : Store) (c : Closure) : ClosureId × Store :=
  (s.closures.size, { s with closures := s.closures.push c })

/-- Puts a native function into the store. -/
def newNative (s : Store) (n : Native) : NativeId × Store :=
  (s.natives.size, { s with natives := s.natives.push n })

/-- Puts a class into the store. -/
def newClass (s : Store) (k : ClassObject) : ClassId × Store :=
  (s.classes.size, { s with classes := s.classes.push k })

/-- Makes an object of a class. -/
def newObject (s : Store) (k : ClassId) : ObjectId × Store :=
  (s.objects.size, { s with objects := s.objects.push { classId := k } })

/-- Binds a closure to a value: `this` is that value in a new frame. -/
def bind (s : Store) (c : Closure) (receiver : Value) : ClosureId × Store :=
  let (f, s) := s.newFrame c.home (some c.frame)
  (s.define f "this" (some receiver)).newClosure { c with frame := f }

/-! ### Classes -/

/-- A class and at most `n` of those it inherits from, nearest first. -/
def lineageFrom (s : Store) : (n : Nat) → ClassId → List ClassId
  | 0, k => [k]
  | n + 1, k =>
      match s.classes[k]? with
      | none => [k]
      | some c =>
          match c.superclass with
          | none => [k]
          | some p => k :: s.lineageFrom n p

/-- A class and all those it inherits from, nearest first. -/
def lineage (s : Store) (k : ClassId) : List ClassId := s.lineageFrom s.classes.size k

/-- The method of a name, of the class or of the nearest class it inherits from that
has one. -/
def method? (s : Store) (k : ClassId) (name : String) : Option ClosureId :=
  (s.lineage k).findSome? fun c => do (← s.classes[c]?).methods.find? name

/-- The value of a name, of the class itself or of the nearest class it inherits from
that has one. -/
def static? (s : Store) (k : ClassId) (name : String) : Option Value :=
  (s.lineage k).findSome? fun c => do (← s.classes[c]?).statics.find? name

/-- Gives a class itself a value. -/
def setStatic (s : Store) (k : ClassId) (name : String) (v : Value) : Store :=
  { s with
    classes := s.classes.modify k fun c => { c with statics := c.statics.insert name v } }

/-- The name of a class. -/
def className (s : Store) (k : ClassId) : String := (s.classes[k]?.map ClassObject.name).getD ""

/-! ### Objects -/

/-- The value of a name that an object has itself. -/
def field? (s : Store) (o : ObjectId) (name : String) : Option Value := do
  (← s.objects[o]?).fields.find? name

/-- Gives an object a value. -/
def setField (s : Store) (o : ObjectId) (name : String) (v : Value) : Store :=
  { s with
    objects := s.objects.modify o fun x => { x with fields := x.fields.insert name v } }

/-! ### Calling and printing -/

/-- How many arguments a value takes when it is called; a class takes those of its
initializer.  Other values cannot be called. -/
def arity? (s : Store) : Value → Option Int
  | .closure c => s.closures[c]?.map fun f => (f.params.length : Int)
  | .native n => s.natives[n]?.map Native.arity
  | .classRef k =>
      match s.method? k "init" with
      | none => some 0
      | some c => s.closures[c]?.map fun f => (f.params.length : Int)
  | _ => none

/-- What is printed for a closure. -/
def closureText (c : Closure) : String :=
  match c.name with
  | none => "<fn anonymous>"
  | some name => "<fn " ++ name ++ ">"

/-- What is printed for a value. -/
def text (s : Store) : Value → String
  | .nil => "nil"
  | .bool b => if b then "true" else "false"
  | .number x => numberText x
  | .text t => t
  | .closure c => (s.closures[c]?.map closureText).getD ""
  | .native _ => "<native fn>"
  | .classRef k => s.className k
  | .object o => (s.objects[o]?.map fun x => s.className x.classId).getD "" ++ " instance"

/-! ### Listing frames -/

/-- How a value is listed: numbers in their exact form and texts between quotes. -/
def valueListing (s : Store) : Value → String
  | .nil => "None"
  | .bool b => if b then "True" else "False"
  | .number x => exactText x
  | .text t => quoted t
  | v => s.text v

/-- How what a name is bound to is listed. -/
def slotListing (s : Store) : Slot → String
  | none => "<uninitialized>"
  | some v => s.valueListing v

/-- How a frame is listed: its names in the order of their declarations, and whether
there is a frame around it. -/
def listing (s : Store) (f : Frame) : String :=
  let entries := f.slots.entries.map fun (name, slot) => quoted name ++ ": " ++ s.slotListing slot
  "Environment(\x7b" ++ ", ".intercalate entries ++ "\x7d, enclosing="
    ++ (if f.parent.isSome then "True" else "False") ++ ")"

end Store

end LoxLang
