import LoxLang.Proofs.Machine.Sequence
import LoxLang.Proofs.Store.Lineage

/-!
# Assigning through shared frames

Frames are made within frames that are there already, so they form a forest, and the chains of
many frames run through the same ones.  A name can be found in two ways: by searching a chain for
the nearest frame that holds it, or by counting frames from the innermost on.

Assigning by search rebinds the name in the nearest frame that holds it and does nothing else.
So the name reads differently afterwards from those frames for which the rebound frame is the
nearest holder, and from no others; and counting to that frame reads and assigns the same.

## Main definitions

* `FrameAct`, `Store.built` — what can be done to frames, and the forests that come of it.
* `Store.Nearest` — the nearest frame around a frame that holds a name.
* `Store.Rebinds` — two stores differ in what one frame holds under one name.
* `Store.AssignsOnce` — what assigning to a name from a frame does.

## Main results

* `Store.nested_built` — frames are within older ones, after any acts.
* `Store.read_define_of_holds` — what a name reads from each frame after one binding changed.
* `Store.assignsOnce_built` — **assigning hits exactly one binding of a forest.**
-/

namespace LoxLang

/-! ### Forests of frames -/

/-- Something that is done to frames. -/
inductive FrameAct where
  /-- A frame is made with no frame around it. -/
  | plant (site : Site)
  /-- A frame is made within another one. -/
  | nest (site : Site) (f : FrameId)
  /-- A name is bound in a frame, to a value or to nothing yet. -/
  | define (f : FrameId) (x : String) (slot : Slot)
  /-- A name is assigned to in the nearest frame that holds it. -/
  | assign (f : FrameId) (x : String) (v : Value)
  /-- A name is assigned to in the frame a number of steps out. -/
  | assignAt (f : FrameId) (d : Nat) (x : String) (v : Value)

/-- The store after an act.  Nothing is made within a frame that is not there, and there is
nothing left of an assignment that fails. -/
def FrameAct.on (s : Store) : FrameAct → Store
  | plant site => (s.newFrame site none).2
  | nest site f => if f < s.frames.size then (s.newFrame site (some f)).2 else s
  | define f x slot => s.define f x slot
  | assign f x v => (s.assign? f x v).getD s
  | assignAt f d x v => (s.assignAt? f d x v).getD s

namespace Store

/-- The frames that some acts make, one after the other, where there were none. -/
def built (acts : List FrameAct) : Store := acts.foldl FrameAct.on {}

/-- Frames are within older ones. -/
def Nested (s : Store) : Prop := ∀ f p : FrameId, s.parent? f = some p → p < f

variable {s s' : Store} {e f g : FrameId} {x y : String} {v : Value} {d : Nat} {slot : Slot}

theorem parent?_define (s : Store) (f : FrameId) (x : String) (slot : Slot) (g : FrameId) :
    (s.define f x slot).parent? g = s.parent? g := by
  simp only [parent?, define, Array.getElem?_modify]
  by_cases hf : f = g
  · cases s.frames[g]? <;> simp [hf]
  · simp [hf]

theorem parent?_newFrame (s : Store) (site : Site) (parent : Option FrameId) (g : FrameId) :
    (s.newFrame site parent).2.parent? g
      = if g = s.frames.size then parent else s.parent? g := by
  simp only [parent?, newFrame, Array.getElem?_push]
  by_cases hg : g = s.frames.size <;> simp [hg]

theorem Nested.define (h : s.Nested) (f : FrameId) (x : String) (slot : Slot) :
    (s.define f x slot).Nested := by
  intro g p hp
  rw [parent?_define] at hp
  exact h g p hp

theorem Nested.newFrame (h : s.Nested) (site : Site) {parent : Option FrameId}
    (hparent : ∀ p ∈ parent, p < s.frames.size) : (s.newFrame site parent).2.Nested := by
  intro g p hp
  rw [parent?_newFrame] at hp
  by_cases hg : g = s.frames.size
  · rw [if_pos hg] at hp
    rw [hg]
    exact hparent p hp
  · rw [if_neg hg] at hp
    exact h g p hp

/-- An assignment defines a name in some frame, or it fails. -/
theorem Nested.getD_map_define (h : s.Nested) (found : Option FrameId) (x : String)
    (slot : Slot) : ((found.map fun g => s.define g x slot).getD s).Nested := by
  cases found with
  | none => exact h
  | some g => exact h.define g x slot

/-- No act puts a frame into one that is not older. -/
theorem nested_on (h : s.Nested) (act : FrameAct) : (act.on s).Nested := by
  cases act with
  | plant site => exact h.newFrame site (by simp)
  | nest site f =>
    simp only [FrameAct.on]
    split
    · next hf => exact h.newFrame site (by simpa using hf)
    · exact h
  | define f x slot => exact h.define f x slot
  | assign f x v => exact h.getD_map_define _ x (some v)
  | assignAt f d x v => exact h.getD_map_define _ x (some v)

/-- Frames are within older ones, after any acts. -/
theorem nested_built (acts : List FrameAct) : (built acts).Nested := by
  have hempty : ({} : Store).Nested := by
    intro f p hp
    simp [parent?] at hp
  unfold built
  generalize ({} : Store) = s at hempty
  induction acts generalizing s with
  | nil => exact hempty
  | cons act acts ih => exact ih _ (nested_on hempty act)

/-! ### Chains -/

/-- What is not there is in no frame. -/
theorem parent?_eq_none_of_size_le (h : s.frames.size ≤ f) : s.parent? f = none := by
  simp [parent?, Array.getElem?_eq_none h]

/-- A chain goes on with the chain of the next frame. -/
theorem Nested.chain_eq (h : s.Nested) (e : FrameId) :
    s.chain e = e :: ((s.parent? e).map s.chain).getD [] := by
  rw [chain, chainFrom_eq_walk]
  cases hp : s.parent? e with
  | none => cases s.frames.size <;> simp [walk, hp]
  | some p =>
    have he : e < s.frames.size := by
      by_contra hge
      rw [parent?_eq_none_of_size_le (Nat.le_of_not_lt hge)] at hp
      cases hp
    obtain ⟨n, hn⟩ := Nat.exists_eq_succ_of_ne_zero (Nat.ne_zero_of_lt he)
    have hle : p ≤ n := Nat.le_of_lt_succ (hn ▸ Nat.lt_trans (h e p hp) he)
    -- the bound of the walk is one less, but it is not reached anyway
    have hbound : walk s.parent? n p = walk s.parent? (n + 1) p :=
      walk_congr (h _ _) (Nat.le_succ_of_le hle) hle fun _ _ => rfl
    simp [walk, hn, hp, chain, chainFrom_eq_walk, hbound]

/-- A chain is the whole way out of its first frame. -/
theorem Nested.isWholeWay_chain (h : s.Nested) (e : FrameId) :
    IsWholeWay s.parent? e (s.chain e) := by
  by_cases he : e ≤ s.frames.size
  · rw [chain, chainFrom_eq_walk]
    exact isWholeWay_walk (h _ _) he
  · have hp := parent?_eq_none_of_size_le (s := s) (Nat.le_of_not_le he)
    rw [h.chain_eq, hp]
    simp [IsWholeWay, hp]

/-- Counting frames is counting along the chain. -/
theorem Nested.ancestor?_eq (h : s.Nested) (e : FrameId) (d : Nat) :
    s.ancestor? e d = (s.chain e)[d]? := by
  induction d generalizing e with
  | zero => simp [ancestor?, h.chain_eq e]
  | succ d ih =>
    rw [ancestor?, h.chain_eq e, List.getElem?_cons_succ]
    cases s.parent? e with
    | none => rfl
    | some p => exact ih p

theorem chain_define (s : Store) (f : FrameId) (x : String) (slot : Slot) (e : FrameId) :
    (s.define f x slot).chain e = s.chain e := by
  have hparent : (s.define f x slot).parent? = s.parent? := by
    funext g
    exact parent?_define s f x slot g
  have hsize : (s.define f x slot).frames.size = s.frames.size := by simp [define]
  rw [chain, chain, chainFrom_eq_walk, chainFrom_eq_walk, hparent, hsize]

/-! ### The nearest holder -/

/-- The nearest frame around a frame that holds a name: the frame is a number of steps out,
and none of those before it holds the name. -/
structure Nearest (s : Store) (e : FrameId) (x : String) (d : Nat) (f : FrameId) : Prop where
  /-- How far out the frame is. -/
  place : (s.chain e)[d]? = some f
  /-- It holds the name. -/
  holds : (s.slot? f x).isSome
  /-- None before it does. -/
  first : ∀ i < d, ∀ g ∈ (s.chain e)[i]?, s.slot? g x = none

theorem holder?_eq_some_iff : s.holder? e x = some f ↔ ∃ d, s.Nearest e x d f := by
  constructor
  · intro h
    obtain ⟨hslot, d, hd, hfirst⟩ := exists_of_holder? h
    exact ⟨d, hd, hslot, hfirst⟩
  · rintro ⟨d, hplace, hholds, hfirst⟩
    obtain ⟨hd, hf⟩ := List.getElem?_eq_some_iff.mp hplace
    refine List.find?_eq_some_iff_getElem.mpr ⟨hholds, d, hd, hf, fun i hi => ?_⟩
    simp [hfirst i hi _ (List.getElem?_eq_getElem (by omega))]

theorem holder?_eq_none_iff : s.holder? e x = none ↔ ∀ g ∈ s.chain e, s.slot? g x = none := by
  simp [holder?, List.find?_eq_none]

/-- What holds a name is there. -/
theorem getElem?_of_holds (h : (s.slot? f x).isSome) : ∃ fr, s.frames[f]? = some fr := by
  obtain ⟨fr, hfr, -⟩ := isSome_slot?.mp h
  exact ⟨fr, hfr⟩

/-- Where a name was held already, binding it anew changes one binding. -/
theorem slot?_define_of_holds (h : (s.slot? f x).isSome) (slot : Slot) (g : FrameId)
    (y : String) :
    (s.define f x slot).slot? g y = if f = g ∧ x = y then some slot else s.slot? g y := by
  obtain ⟨fr, hfr⟩ := getElem?_of_holds h
  rw [slot?_define]
  by_cases hgy : f = g ∧ x = y
  · obtain ⟨rfl, rfl⟩ := hgy
    simp [hfr]
  · rw [if_neg hgy, if_neg hgy]

/-- Where a name was held already, binding it anew makes no other frame hold anything. -/
theorem holder?_define_of_holds (h : (s.slot? f x).isSome) (slot : Slot) (e : FrameId)
    (y : String) : (s.define f x slot).holder? e y = s.holder? e y := by
  rw [holder?, holder?, chain_define]
  congr 1
  funext g
  rw [slot?_define_of_holds h]
  by_cases hgy : f = g ∧ x = y
  · obtain ⟨rfl, rfl⟩ := hgy
    simp [h]
  · rw [if_neg hgy]

/-- What a name reads from each frame after one binding changed. -/
theorem read_define_of_holds (h : (s.slot? f x).isSome) (v : Value) (e : FrameId) (y : String) :
    (s.define f x (some v)).read e y
      = if x = y ∧ s.holder? e x = some f then .value v else s.read e y := by
  rw [read, read, holder?_define_of_holds h]
  cases hholder : s.holder? e y with
  | none =>
    by_cases hy : x = y
    · subst hy
      simp [hholder]
    · simp [hy]
  | some g =>
    simp only [slot?_define_of_holds h]
    by_cases hy : x = y
    · subst hy
      by_cases hg : f = g
      · subst hg
        simp [hholder, NameReading.ofSlot?]
      · simp [hholder, hg, Ne.symm hg]
    · simp [hy]

/-! ### Names on the machine -/

variable {m : Machine} {name : Token}

/-- Searching for a name to assign to; the machine stays what it is if there is none. -/
theorem assignName_byName :
    assignName .byName name v m
      = (m.store.assign? m.current name.lexeme v).elim (.error (.at .undefinedVariable name) m)
        fun s => .ok () { m with store := s } := by
  cases h : m.store.holder? m.current name.lexeme with
  | none =>
    rw [assignName_of_error (f := .at .undefinedVariable name)
      (by simp [Naming.byName, holderAt, h]), assign?, h]
    rfl
  | some g =>
    change (ofExcept (m.store.holderAt m.current name) >>= _) m = _
    rw [holderAt, h, assign?, h]
    rfl

/-- Counting to the frame to assign in; the machine stays what it is if there are not enough. -/
theorem assignName_byDistance (hd : m.distances.find? name.position = some d) :
    assignName .byDistance name v m
      = (m.store.assignAt? m.current d name.lexeme v).elim (.error (.beyondGlobals d) m)
        fun s => .ok () { m with store := s } := by
  cases h : m.store.ancestor? m.current d with
  | none =>
    rw [assignName_of_error (f := .beyondGlobals d) (by simp [Naming.byDistance, hd, h]),
      assignAt?, h]
    rfl
  | some g =>
    change (ofExcept (Naming.byDistance.target m name) >>= _) m = _
    simp only [Naming.byDistance, hd, h, assignAt?]
    rfl

theorem readName_byName :
    readName .byName name m = ofExcept ((m.store.read m.current name.lexeme).valueAt name) m := rfl

theorem readName_byDistance (hd : m.distances.find? name.position = some d) :
    readName .byDistance name m
      = (m.store.readAt? m.current d name.lexeme).elim (.error (.beyondGlobals d) m)
        fun r => ofExcept (r.valueAt name) m := by
  change ofExcept (Naming.byDistance.value m name) m = _
  simp only [Naming.byDistance, hd]
  cases m.store.readAt? m.current d name.lexeme with
  | none => rfl
  | some r => rfl

/-! ### Assigning -/

/-- Two stores differ in what one frame holds under one name, which is a value in the second.
The frame held the name before, in the same place among its names. -/
structure Rebinds (s : Store) (f : FrameId) (x : String) (v : Value) (s' : Store) : Prop where
  /-- The frame held the name. -/
  holds : (s.slot? f x).isSome
  /-- Frames hold what they held, but for the one name of the one frame. -/
  slots : ∀ g y, s'.slot? g y = if f = g ∧ x = y then some (some v) else s.slot? g y
  /-- Frames are within the same frames, are activations of the same constructs, and have the
  same names in the same order. -/
  frames : ∀ g : FrameId, s'.frames[g]?.map (fun fr => (fr.parent, fr.site, fr.slots.keys))
    = s.frames[g]?.map fun fr => (fr.parent, fr.site, fr.slots.keys)
  /-- All that is not a frame is the same. -/
  others : (s'.closures, s'.natives, s'.classes, s'.objects)
    = (s.closures, s.natives, s.classes, s.objects)

theorem rebinds_define (h : (s.slot? f x).isSome) (v : Value) :
    s.Rebinds f x v (s.define f x (some v)) where
  holds := h
  slots := slot?_define_of_holds h (some v)
  frames g := by
    rw [getElem?_define]
    by_cases hg : f = g
    · subst hg
      obtain ⟨fr, hfr, hx⟩ := isSome_slot?.mp h
      have hkeys : x ∈ fr.slots.keys := (fr.slots.contains_iff x).mp hx
      simp [hfr, Table.keys_insert, hkeys]
    · rw [if_neg hg]
  others := rfl

/-- What assigning to a name from a frame does. -/
structure AssignsOnce (s : Store) (e : FrameId) (x : String) (v : Value) : Prop where
  /-- The chain of the frame is the way out of it up to a frame that is in no other. -/
  whole : IsWholeWay s.parent? e (s.chain e)
  /-- Assigning fails if no frame of the chain holds the name, and only then. -/
  fails_iff : s.assign? e x v = none ↔ ∀ g ∈ s.chain e, s.slot? g x = none
  /-- If it fails, it leaves the machine as it was; and reading the name fails as well. -/
  failing : s.assign? e x v = none → ∀ (m : Machine) (name : Token), m.store = s →
    m.current = e → name.lexeme = x →
      assignName .byName name v m = .error (.at .undefinedVariable name) m
        ∧ readName .byName name m = .error (.at .undefinedVariable name) m
  /-- Otherwise it rebinds the name in the nearest frame that holds it.  From the frames for
  which that one is the nearest holder, the name has the value afterwards; from all others it
  reads as before, and so does every other name. -/
  rebinds : ∀ {d : Nat} {f : FrameId}, s.Nearest e x d f → ∃ s', s.assign? e x v = some s'
    ∧ s.Rebinds f x v s'
    ∧ (∀ e₂, (∃ d₂, s.Nearest e₂ x d₂ f) ∧ s'.read e₂ x = .value v
      ∨ (¬∃ d₂, s.Nearest e₂ x d₂ f) ∧ s'.read e₂ x = s.read e₂ x)
    ∧ (∀ e₂, s.read e₂ x ≠ .value v →
      (s'.read e₂ x = .value v ↔ ∃ d₂, s.Nearest e₂ x d₂ f))
    ∧ ∀ e₂ y, y ≠ x → s'.read e₂ y = s.read e₂ y
  /-- To count to the nearest frame that holds the name reads and assigns the same, and fails
  in the same way if the name has no value yet. -/
  counts : ∀ {d : Nat} {f : FrameId}, s.Nearest e x d f →
    s.readAt? e d x = some (s.read e x) ∧ s.assignAt? e d x v = s.assign? e x v
    ∧ ∀ (m : Machine) (name : Token), m.store = s → m.current = e → name.lexeme = x →
      m.distances.find? name.position = some d →
        readName .byDistance name m = readName .byName name m
          ∧ assignName .byDistance name v m = assignName .byName name v m
  /-- To count beyond the last frame of the chain fails, and leaves the machine as it was. -/
  beyond : ∀ {d : Nat}, (s.chain e).length ≤ d →
    s.readAt? e d x = none ∧ s.assignAt? e d x v = none
    ∧ ∀ (m : Machine) (name : Token), m.store = s → m.current = e → name.lexeme = x →
      m.distances.find? name.position = some d →
        readName .byDistance name m = .error (.beyondGlobals d) m
          ∧ assignName .byDistance name v m = .error (.beyondGlobals d) m

theorem read_of_holder?_eq_none (h : s.holder? e x = none) : s.read e x = .undefined := by
  rw [read, h]

theorem assign?_of_nearest (h : s.Nearest e x d f) :
    s.assign? e x v = some (s.define f x (some v)) := by
  rw [assign?, holder?_eq_some_iff.mpr ⟨d, h⟩]
  rfl

theorem Nested.readAt?_of_nearest (hs : s.Nested) (h : s.Nearest e x d f) :
    s.readAt? e d x = some (s.read e x) := by
  rw [readAt?, hs.ancestor?_eq, h.place, read, holder?_eq_some_iff.mpr ⟨d, h⟩]
  rfl

theorem Nested.assignAt?_of_nearest (hs : s.Nested) (h : s.Nearest e x d f) :
    s.assignAt? e d x v = some (s.define f x (some v)) := by
  rw [assignAt?, hs.ancestor?_eq, h.place]
  rfl

/-- There are as many frames to count as the chain has. -/
theorem Nested.ancestor?_eq_none (hs : s.Nested) (h : (s.chain e).length ≤ d) :
    s.ancestor? e d = none := by
  rw [hs.ancestor?_eq, List.getElem?_eq_none h]

/-- Rebinding a name is seen from the frames for which the frame is its nearest holder. -/
theorem read_of_rebound (h : (s.slot? f x).isSome) (v : Value) (e₂ : FrameId) :
    (∃ d₂, s.Nearest e₂ x d₂ f) ∧ (s.define f x (some v)).read e₂ x = .value v
      ∨ (¬∃ d₂, s.Nearest e₂ x d₂ f) ∧ (s.define f x (some v)).read e₂ x = s.read e₂ x := by
  rw [← holder?_eq_some_iff, read_define_of_holds h]
  by_cases hf : s.holder? e₂ x = some f
  · left
    simp [hf]
  · right
    simp [hf]

/-- **Assigning hits exactly one binding of a forest.**  However frames were made within each
other, defined in and assigned to, assigning to a name from any of them fails if no frame of its
chain holds the name, and then it changes nothing.  Otherwise it rebinds the name in the nearest
frame that does, which is seen from those frames that have the same nearest holder and from no
others.  To count to that frame has the same effect, and to count beyond the last frame fails. -/
theorem assignsOnce_built (acts : List FrameAct) (e : FrameId) (x : String) (v : Value) :
    (built acts).AssignsOnce e x v := by
  have hnested := nested_built acts
  generalize built acts = s at hnested
  constructor
  case whole => exact hnested.isWholeWay_chain e
  case fails_iff => rw [← holder?_eq_none_iff, assign?, Option.map_eq_none_iff]
  case failing =>
    intro hfails m name hs he hx
    subst hs he hx
    have hnone := Option.map_eq_none_iff.mp hfails
    rw [assignName_byName, hfails, readName_byName, read_of_holder?_eq_none hnone]
    exact ⟨rfl, rfl⟩
  case rebinds =>
    intro d f hnear
    have hreads := read_of_rebound hnear.holds v
    refine ⟨_, assign?_of_nearest hnear, rebinds_define hnear.holds v, hreads, ?_, ?_⟩
    · intro e₂ hother
      rcases hreads e₂ with ⟨hsame, hread⟩ | ⟨hnot, hread⟩
      · exact iff_of_true hread hsame
      · exact iff_of_false (by rwa [hread]) hnot
    · intro e₂ y hy
      rw [read_define_of_holds hnear.holds, if_neg fun hxy => hy hxy.1.symm]
  case counts =>
    intro d f hnear
    have hread := hnested.readAt?_of_nearest hnear
    have hassign := hnested.assignAt?_of_nearest (v := v) hnear
    have hsearch := assign?_of_nearest (v := v) hnear
    refine ⟨hread, hassign.trans hsearch.symm, ?_⟩
    intro m name hs he hx hd
    subst hs he hx
    rw [readName_byDistance hd, hread, assignName_byDistance hd, hassign, assignName_byName,
      hsearch]
    exact ⟨rfl, rfl⟩
  case beyond =>
    intro d hlength
    have hnone := hnested.ancestor?_eq_none hlength
    have hread : s.readAt? e d x = none := by simp [readAt?, hnone]
    have hassign : s.assignAt? e d x v = none := by simp [assignAt?, hnone]
    refine ⟨hread, hassign, ?_⟩
    intro m name hs he hx hd
    subst hs he hx
    rw [readName_byDistance hd, hread, assignName_byDistance hd, hassign]
    exact ⟨rfl, rfl⟩

-- two frames share a third; one of them comes to hold a name of its own before it is assigned to
example :
    let s := built [.plant .globals, .nest (.block 0) 0, .nest (.block 1) 0,
      .define 0 "a" none, .define 1 "a" (some .nil), .assign 2 "a" (.bool true),
      .assign 1 "a" (.text "b")]
    [0, 1, 2].map (s.read · "a")
      = [.value (.bool true), .value (.text "b"), .value (.bool true)] := by
  decide

end Store

end LoxLang
