import LoxLang.Proofs.Store.Lineage
import Mathlib.Data.List.Induction
import Mathlib.Logic.Function.Basic

/-!
# What objects and classes have themselves

An object and a class have a table of their own, and assigning to either writes that table and
nothing else.  So after any assignments each table holds, under each name, what was assigned
there last, or what it held before if nothing was.

An object inherits no values: it has its own, and the methods of its class.  The values of a
class are inherited: what a class has under a name is what the nearest class up from it has
itself.  Assigning to a class is therefore seen from those classes that come to it, on their
way up, before any other class that has the name, and from no others.

## Main definitions

* `Holder`, `Assignment` — what can be assigned to, and an assignment.
* `Store.own?`, `Store.put`, `Store.assigned` — own tables, and assigning to them.
* `lastAssigned?`, `Store.lastOf?` — what was assigned last.
* `Store.NearestClass` — the nearest class up from a class that has something.
* `Store.Reaches` — a class comes to another one before any that has a name.
* `Store.SameShape` — two stores differ in own tables at most.
* `Store.Founded` — classes, methods and objects refer to what is there.

## Main results

* `Store.own?_assigned` — what is in a table after any assignments.
* `Store.Founded.static?_assigned` — what a class has after any assignments.
* `Store.static?_put` — what each class has after one more assignment to a class.
-/

namespace LoxLang

/-! ### Assignments -/

/-- What can be assigned to under a name. -/
inductive Holder where
  /-- An object. -/
  | object (o : ObjectId)
  /-- A class. -/
  | classRef (k : ClassId)
  deriving DecidableEq

/-- The value that refers to an object or a class. -/
def Holder.value : Holder → Value
  | object o => .object o
  | classRef k => .classRef k

/-- An assignment of a value to a name of an object or a class. -/
structure Assignment where
  /-- What is assigned to. -/
  holder : Holder
  /-- The name. -/
  name : Token
  /-- The value. -/
  value : Value

/-- Whether an assignment is to a name of an object or a class. -/
def Assignment.isTo (a : Assignment) (h : Holder) (x : String) : Bool :=
  a.holder = h && a.name.lexeme = x

/-- The value that was last assigned to a name of an object or a class. -/
def lastAssigned? (as : List Assignment) (h : Holder) (x : String) : Option Value :=
  (as.filter (·.isTo h x)).getLast?.map Assignment.value

variable {as : List Assignment} {a : Assignment} {h h' : Holder} {x y : String} {v : Value}

theorem Assignment.isTo_iff : a.isTo h x ↔ a.holder = h ∧ a.name.lexeme = x := by
  simp [isTo]

theorem lastAssigned?_concat :
    lastAssigned? (as ++ [a]) h x
      = if a.isTo h x then some a.value else lastAssigned? as h x := by
  rw [lastAssigned?, List.filter_append]
  by_cases ha : a.isTo h x <;> simp [ha, lastAssigned?]

/-- What was assigned to something is found among the assignments to it. -/
theorem lastAssigned?_filter (as : List Assignment) (h : Holder) (x : String) :
    lastAssigned? (as.filter (·.holder = h)) h x = lastAssigned? as h x := by
  have hboth : ∀ a : Assignment, (a.isTo h x && decide (a.holder = h)) = a.isTo h x := by
    intro a
    by_cases ha : a.holder = h <;> simp [Assignment.isTo, ha]
  simp only [lastAssigned?, List.filter_filter, hboth]

namespace Store

variable {s s' : Store} {k c d : ClassId} {o : ObjectId}

/-! ### Own tables -/

/-- The object or class is there. -/
def Has (s : Store) : Holder → Prop
  | .object o => o < s.objects.size
  | .classRef k => k < s.classes.size

/-- What an object or a class has itself under a name. -/
def own? (s : Store) : Holder → String → Option Value
  | .object o, x => s.field? o x
  | .classRef k, x => s.classes[k]?.bind fun c => c.statics.find? x

/-- The method that a class declares itself under a name. -/
def ownMethod? (s : Store) (k : ClassId) (x : String) : Option ClosureId :=
  s.classes[k]?.bind fun c => c.methods.find? x

/-- Assigns to a name of an object or a class. -/
def put (s : Store) : Holder → String → Value → Store
  | .object o, x, v => s.setField o x v
  | .classRef k, x, v => s.setStatic k x v

/-- The store after some assignments, one after the other. -/
def assigned (s : Store) (as : List Assignment) : Store :=
  as.foldl (fun s a => s.put a.holder a.name.lexeme a.value) s

/-- What an object or a class was last given under a name: the value that was last assigned,
and if there is none then what it had before. -/
def lastOf? (s : Store) (as : List Assignment) (h : Holder) (x : String) : Option Value :=
  (lastAssigned? as h x).or (s.own? h x)

theorem assigned_concat (s : Store) (as : List Assignment) (a : Assignment) :
    s.assigned (as ++ [a]) = (s.assigned as).put a.holder a.name.lexeme a.value := by
  simp [assigned]

/-- Assigning writes one table, under one name. -/
theorem own?_put (hh : h = h' → s.Has h) (x : String) (v : Value) (y : String) :
    (s.put h x v).own? h' y = if h = h' ∧ x = y then some v else s.own? h' y := by
  cases h with
  | object o =>
    cases h' with
    | classRef k' => simp [put, own?, setField]
    | object o' =>
      simp only [put, own?, field?, setField, Array.getElem?_modify, Holder.object.injEq]
      by_cases ho : o = o'
      · subst ho
        have hthere : o < s.objects.size := hh rfl
        simp [Array.getElem?_eq_getElem hthere, Table.find?_insert]
      · simp [ho]
  | classRef k =>
    cases h' with
    | object o' => simp [put, own?, field?, setStatic]
    | classRef k' =>
      simp only [put, own?, setStatic, Array.getElem?_modify, Holder.classRef.injEq]
      by_cases hk : k = k'
      · subst hk
        have hthere : k < s.classes.size := hh rfl
        simp [Array.getElem?_eq_getElem hthere, Table.find?_insert]
      · simp [hk]

/-! ### What assigning leaves alone -/

/-- Two stores differ at most in what objects and classes have themselves. -/
structure SameShape (s s' : Store) : Prop where
  /-- There are as many classes and objects. -/
  sizes : s'.classes.size = s.classes.size ∧ s'.objects.size = s.objects.size
  /-- Classes have the same names, superclasses and methods. -/
  classes : ∀ k : ClassId, s'.classes[k]?.map (fun c => (c.name, c.superclass, c.methods))
    = s.classes[k]?.map fun c => (c.name, c.superclass, c.methods)
  /-- Objects are of the same classes. -/
  objects : ∀ o : ObjectId, s'.objects[o]?.map Instance.classId
    = s.objects[o]?.map Instance.classId
  /-- All else is the same. -/
  others : (s'.frames, s'.closures, s'.natives) = (s.frames, s.closures, s.natives)

theorem SameShape.refl (s : Store) : s.SameShape s := ⟨⟨rfl, rfl⟩, fun _ => rfl, fun _ => rfl, rfl⟩

theorem SameShape.trans {s'' : Store} (h : s.SameShape s') (h' : s'.SameShape s'') :
    s.SameShape s'' where
  sizes := ⟨h'.sizes.1.trans h.sizes.1, h'.sizes.2.trans h.sizes.2⟩
  classes k := (h'.classes k).trans (h.classes k)
  objects o := (h'.objects o).trans (h.objects o)
  others := h'.others.trans h.others

theorem SameShape.symm (h : s.SameShape s') : s'.SameShape s where
  sizes := ⟨h.sizes.1.symm, h.sizes.2.symm⟩
  classes k := (h.classes k).symm
  objects o := (h.objects o).symm
  others := h.others.symm

theorem sameShape_put (s : Store) (h : Holder) (x : String) (v : Value) :
    s.SameShape (s.put h x v) := by
  cases h with
  | object o =>
    refine { SameShape.refl s with sizes := ⟨rfl, Array.size_modify⟩, objects := fun o' => ?_ }
    simp only [put, setField, Array.getElem?_modify]
    by_cases ho : o = o' <;> simp [ho, Function.comp_def]
  | classRef k =>
    refine { SameShape.refl s with sizes := ⟨Array.size_modify, rfl⟩, classes := fun k' => ?_ }
    simp only [put, setStatic, Array.getElem?_modify]
    by_cases hk : k = k' <;> simp [hk, Function.comp_def]

theorem sameShape_assigned (s : Store) (as : List Assignment) : s.SameShape (s.assigned as) := by
  induction as using List.reverseRecOn with
  | nil => exact .refl s
  | append_singleton as a ih =>
    rw [assigned_concat]
    exact ih.trans (sameShape_put _ _ _ _)

namespace SameShape

variable (hs : s.SameShape s')
include hs

theorem has_iff : s'.Has h ↔ s.Has h := by
  cases h <;> simp [Has, hs.sizes]

theorem superclass?_eq : s'.superclass? = s.superclass? := by
  funext k
  have hk := congrArg (Option.bind · fun t => t.2.1) (hs.classes k)
  simpa [superclass?, Option.bind_map, Function.comp_def] using hk

theorem lineage_eq (k : ClassId) : s'.lineage k = s.lineage k := by
  rw [lineage, lineage, lineageFrom_eq_walk, lineageFrom_eq_walk, hs.superclass?_eq, hs.sizes.1]

theorem ownMethod?_eq (k : ClassId) (x : String) : s'.ownMethod? k x = s.ownMethod? k x := by
  have hk := congrArg (Option.bind · fun t => t.2.2.find? x) (hs.classes k)
  simpa [ownMethod?, Option.bind_map, Function.comp_def] using hk

theorem className_eq (k : ClassId) : s'.className k = s.className k := by
  have hk := congrArg (Option.map fun t => t.1) (hs.classes k)
  simp only [Option.map_map, Function.comp_def] at hk
  exact congrArg (Option.getD · "") hk

theorem closures_eq : s'.closures = s.closures := congrArg (fun t => t.2.1) hs.others

/-- An object is of the same class in stores of the same shape. -/
theorem exists_object {i : Instance}
    (hi : s.objects[o]? = some i) : ∃ i', s'.objects[o]? = some i' ∧ i'.classId = i.classId := by
  have ho := hs.objects o
  rw [hi] at ho
  exact Option.map_eq_some_iff.mp ho

end SameShape

/-- What is in a table after any assignments was assigned last, or it was there before. -/
theorem own?_assigned (hh : s.Has h) (as : List Assignment) (x : String) :
    (s.assigned as).own? h x = s.lastOf? as h x := by
  induction as using List.reverseRecOn with
  | nil => rfl
  | append_singleton as a ih =>
    -- nothing comes or goes by assigning, so what is assigned to is still there
    have hthere : a.holder = h → (s.assigned as).Has a.holder := by
      rintro rfl
      exact (s.sameShape_assigned as).has_iff.mpr hh
    rw [assigned_concat, own?_put hthere, ih, lastOf?, lastOf?, lastAssigned?_concat]
    by_cases ha : a.isTo h x
    · rw [if_pos (Assignment.isTo_iff.mp ha), if_pos ha, Option.some_or]
    · rw [if_neg fun hto => ha (Assignment.isTo_iff.mpr hto), if_neg ha]

/-! ### The nearest class -/

/-- A way comes to a class before any that has something of its own. -/
def ComesTo {α : Type} (own : ClassId → Option α) (way : List ClassId) (k : ClassId) : Prop :=
  ∃ nearer further, way = nearer ++ k :: further ∧ ∀ c ∈ nearer, own c = none

/-- The nearest class up from a class that has something of its own, and what it has. -/
def NearestClass {α : Type} (s : Store) (k : ClassId) (own : ClassId → Option α) (c : ClassId)
    (b : α) : Prop :=
  ComesTo own (s.lineage k) c ∧ own c = some b

/-- A class comes to another one, on its way up, before any other class that has a name. -/
def Reaches (s : Store) (d k : ClassId) (x : String) : Prop :=
  ComesTo (fun c => s.own? (.classRef c) x) (s.lineage d) k

section Ways

variable {α : Type} {own : ClassId → Option α} {b : α} {way : List ClassId}

theorem comesTo_cons : ComesTo own (c :: way) k ↔ c = k ∨ own c = none ∧ ComesTo own way k := by
  constructor
  · rintro ⟨nearer, further, hway, hnearer⟩
    rcases List.cons_eq_append_iff.mp hway with ⟨-, hhead⟩ | ⟨nearer', rfl, hrest⟩
    · exact .inl (List.cons.inj hhead).1.symm
    · exact .inr ⟨hnearer c List.mem_cons_self, nearer', further, hrest,
        fun c' hc' => hnearer c' (List.mem_cons_of_mem c hc')⟩
  · rintro (rfl | ⟨hown, nearer, further, rfl, hnearer⟩)
    · exact ⟨[], way, rfl, by simp⟩
    · exact ⟨c :: nearer, further, rfl, List.forall_mem_cons.mpr ⟨hown, hnearer⟩⟩

theorem findSome?_lineage_eq_some_iff :
    (s.lineage k).findSome? own = some b ↔ ∃ c, s.NearestClass k own c b := by
  rw [List.findSome?_eq_some_iff]
  constructor
  · rintro ⟨nearer, c, further, hway, hown, hnearer⟩
    exact ⟨c, ⟨nearer, further, hway, hnearer⟩, hown⟩
  · rintro ⟨c, ⟨nearer, further, hway, hnearer⟩, hown⟩
    exact ⟨nearer, c, further, hway, hown, hnearer⟩

/-- What a class is given is found first on the ways that come to it, and on no others. -/
theorem findSome?_update (own : ClassId → Option α) (k : ClassId) (b : α) (way : List ClassId) :
    ComesTo own way k ∧ way.findSome? (Function.update own k (some b)) = some b
      ∨ ¬ComesTo own way k
        ∧ way.findSome? (Function.update own k (some b)) = way.findSome? own := by
  induction way with
  | nil => exact .inr ⟨by simp [ComesTo], rfl⟩
  | cons c way ih =>
    rw [comesTo_cons, List.findSome?_cons, List.findSome?_cons]
    by_cases hc : c = k
    · subst hc
      exact .inl ⟨.inl rfl, by simp⟩
    · rw [Function.update_of_ne hc]
      -- what another class has of its own hides all that comes after it
      cases hown : own c with
      | some a => exact .inr ⟨by simp [hc], rfl⟩
      | none => simpa [hc] using ih

end Ways

theorem static?_eq (s : Store) (k : ClassId) (x : String) :
    s.static? k x = (s.lineage k).findSome? fun c => s.own? (.classRef c) x := rfl

theorem method?_eq (s : Store) (k : ClassId) (x : String) :
    s.method? k x = (s.lineage k).findSome? fun c => s.ownMethod? c x := rfl

theorem SameShape.method?_eq (hs : s.SameShape s') (k : ClassId) (x : String) :
    s'.method? k x = s.method? k x := by
  simp only [Store.method?_eq, hs.lineage_eq, hs.ownMethod?_eq]

/-- Assigning to a class is seen from those classes that come to it before any other class that
has the name. -/
theorem static?_put (hk : s.Has (.classRef k)) (x : String) (v : Value) (d : ClassId) :
    s.Reaches d k x ∧ (s.put (.classRef k) x v).static? d x = some v
      ∨ ¬s.Reaches d k x ∧ (s.put (.classRef k) x v).static? d x = s.static? d x := by
  -- the ways up are as before, and one class has something new of its own
  have hown : (fun c => (s.put (.classRef k) x v).own? (.classRef c) x)
      = Function.update (fun c => s.own? (.classRef c) x) k (some v) := by
    funext c
    rw [own?_put fun _ => hk]
    by_cases hc : c = k
    · subst hc
      simp
    · simp [Function.update_of_ne hc, Ne.symm hc]
  rw [static?_eq, static?_eq, (s.sameShape_put (.classRef k) x v).lineage_eq, hown]
  exact findSome?_update _ k v (s.lineage d)

/-- Assigning to a name is not seen under another one. -/
theorem static?_put_of_ne (hk : s.Has (.classRef k)) (hxy : x ≠ y) (v : Value) (d : ClassId) :
    (s.put (.classRef k) x v).static? d y = s.static? d y := by
  simp only [static?_eq, (s.sameShape_put (.classRef k) x v).lineage_eq, own?_put fun _ => hk]
  simp [hxy]

/-! ### Hierarchies -/

/-- Classes inherit from older ones, their methods are there, and so are the classes of
objects. -/
structure Founded (s : Store) : Prop where
  /-- Classes inherit from older ones. -/
  older : s.Older
  /-- Methods are there. -/
  methods : ∀ {k : ClassId} {x : String} {c : ClosureId}, s.ownMethod? k x = some c →
    ∃ closure, s.closures[c]? = some closure
  /-- The classes of objects are there. -/
  instances : ∀ {o : ObjectId} {i : Instance}, s.objects[o]? = some i →
    s.Has (.classRef i.classId)

/-- All classes up from a class are there. -/
theorem Founded.has_of_mem_lineage (h : s.Founded) (hk : s.Has (.classRef k))
    (hc : c ∈ s.lineage k) : s.Has (.classRef c) := by
  rw [lineage, lineageFrom_eq_walk] at hc
  exact Nat.lt_of_le_of_lt (le_of_mem_walk (h.older _ _) hc) hk

theorem Founded.sameShape (h : s.Founded) (hs : s.SameShape s') : s'.Founded where
  older := by
    rw [Older, hs.superclass?_eq]
    exact h.older
  methods hc := by
    rw [hs.ownMethod?_eq] at hc
    rw [hs.closures_eq]
    exact h.methods hc
  instances hi := by
    obtain ⟨i, hi, hclass⟩ := hs.symm.exists_object hi
    rw [← hclass]
    exact hs.has_iff.mpr (h.instances hi)

/-- A method that is found is there. -/
theorem Founded.exists_of_method? (h : s.Founded) {m : ClosureId} (hm : s.method? k x = some m) :
    ∃ closure, s.closures[m]? = some closure := by
  obtain ⟨c, -, hown⟩ := findSome?_lineage_eq_some_iff.mp hm
  exact h.methods hown

/-- What a class has after any assignments: what the nearest class up from it was last given. -/
theorem Founded.static?_assigned (h : s.Founded) (hk : s.Has (.classRef k))
    (as : List Assignment) (x : String) :
    (s.assigned as).static? k x
      = (s.lineage k).findSome? fun c => s.lastOf? as (.classRef c) x := by
  rw [static?_eq, (s.sameShape_assigned as).lineage_eq, ← List.head?_filterMap,
    ← List.head?_filterMap]
  refine congrArg List.head? (List.filterMap_congr fun c hc => ?_)
  exact own?_assigned (h.has_of_mem_lineage hk hc) as x

end Store

end LoxLang
