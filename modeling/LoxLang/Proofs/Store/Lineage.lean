import LoxLang.Proofs.Store.Chain
import Mathlib.Data.List.Chain

/-!
# Ways that end

The frames around a frame and the classes that a class inherits from are found by walking
from one to the next.  A walk has a bound, and what it finds is the whole way if each step
leads to something older: the way then ends before the bound is reached, and it comes nowhere
twice.  While the store grows, ways remain what they are, and so do the methods that are found
on them.

## Main definitions

* `walk` — the way from somewhere, up to a bound.
* `IsWholeWay` — the way from somewhere as far as it goes.
* `Store.superclass?` — the class that a class inherits from.
* `Store.Older` — classes inherit from older ones.
* `Store.SameDispatch` — the classes of a store have the same methods in another one.

## Main results

* `isWholeWay_walk` — a walk to older things finds the whole way.
* `Store.Older.sameDispatch` — methods remain what they are while the store grows.
-/

namespace LoxLang

/-! ### Walks -/

/-- The way from `a` along `next?`, with `n` steps at most. -/
def walk (next? : Nat → Option Nat) : (n : Nat) → Nat → List Nat
  | 0, a => [a]
  | n + 1, a =>
      match next? a with
      | none => [a]
      | some b => a :: walk next? n b

/-- The way from `a` as far as it goes: each step leads to what is next, there is nothing next
to the last, and the way comes nowhere twice. -/
def IsWholeWay (next? : Nat → Option Nat) (a : Nat) (way : List Nat) : Prop :=
  way.head? = some a ∧ way.IsChain (fun b c => next? b = some c)
    ∧ (∀ z ∈ way.getLast?, next? z = none) ∧ way.Nodup

instance (next? : Nat → Option Nat) (a : Nat) (way : List Nat) :
    Decidable (IsWholeWay next? a way) :=
  inferInstanceAs (Decidable (_ ∧ _ ∧ _ ∧ _))

section Walk

variable {next? next?' : Nat → Option Nat} {n n' a : Nat}

theorem exists_walk_eq_cons (next? : Nat → Option Nat) (n a : Nat) :
    ∃ rest, walk next? n a = a :: rest := by
  cases n with
  | zero => exact ⟨[], rfl⟩
  | succ n =>
    rw [walk]
    split
    · exact ⟨[], rfl⟩
    · exact ⟨_, rfl⟩

theorem isChain_walk (next? : Nat → Option Nat) (n a : Nat) :
    (walk next? n a).IsChain fun b c => next? b = some c := by
  induction n generalizing a with
  | zero => exact .singleton a
  | succ n ih =>
    rw [walk]
    split
    · exact .singleton a
    · next b hb =>
      have hrest := ih b
      obtain ⟨rest, heq⟩ := exists_walk_eq_cons next? n b
      rw [heq] at hrest ⊢
      exact .cons_cons hb hrest

/-- Where each step leads down, a bound that is high enough is not reached. -/
theorem getLast?_walk (hlt : ∀ {b c}, next? b = some c → c < b) (hn : a ≤ n) :
    ∀ z ∈ (walk next? n a).getLast?, next? z = none := by
  induction n generalizing a with
  | zero =>
    intro z hz
    have hz : a = z := by simpa [walk] using hz
    refine Option.eq_none_iff_forall_ne_some.mpr fun c hc => ?_
    have := hlt hc
    omega
  | succ n ih =>
    intro z hz
    rw [walk] at hz
    split at hz
    · next hnone =>
      cases hz
      exact hnone
    · next b hb =>
      have hb' := hlt hb
      rw [List.getLast?_cons] at hz
      obtain ⟨rest, heq⟩ := exists_walk_eq_cons next? n b
      have hlast : z ∈ (walk next? n b).getLast? := by
        rw [heq] at hz ⊢
        rw [List.getLast?_cons] at hz ⊢
        exact hz
      exact ih (by omega) z hlast

/-- A walk to older things finds the whole way. -/
theorem isWholeWay_walk (hlt : ∀ {b c}, next? b = some c → c < b) (hn : a ≤ n) :
    IsWholeWay next? a (walk next? n a) := by
  have hchain := isChain_walk next? n a
  refine ⟨?_, hchain, getLast?_walk hlt hn, ?_⟩
  · obtain ⟨rest, heq⟩ := exists_walk_eq_cons next? n a
    rw [heq]
    rfl
  · -- along the way everything is older than what comes before it
    have hdown : (walk next? n a).IsChain (· > ·) := hchain.imp fun _ _ h => hlt h
    exact (List.isChain_iff_pairwise.mp hdown).imp fun h => Nat.ne_of_gt h

theorem le_of_mem_walk (hlt : ∀ {b c}, next? b = some c → c < b) {b : Nat}
    (hb : b ∈ walk next? n a) : b ≤ a := by
  induction n generalizing a with
  | zero => exact Nat.le_of_eq (List.mem_singleton.mp hb)
  | succ n ih =>
    rw [walk] at hb
    split at hb
    · exact Nat.le_of_eq (List.mem_singleton.mp hb)
    · next c hc =>
      rcases List.mem_cons.mp hb with rfl | hb
      · exact Nat.le_refl b
      · exact Nat.le_of_lt (Nat.lt_of_le_of_lt (ih hb) (hlt hc))

/-- A way depends neither on the bound nor on what is newer than its start. -/
theorem walk_congr (hlt : ∀ {b c}, next? b = some c → c < b) (hn : a ≤ n) (hn' : a ≤ n')
    (hsame : ∀ b ≤ a, next?' b = next? b) : walk next?' n' a = walk next? n a := by
  induction n generalizing a n' with
  | zero =>
    -- nothing is older than the first, so the way ends there
    have hnone : next? a = none := by
      refine Option.eq_none_iff_forall_ne_some.mpr fun c hc => ?_
      have := hlt hc
      omega
    cases n' with
    | zero => rfl
    | succ n' => rw [walk, walk, hsame a (Nat.le_refl a), hnone]
  | succ n ih =>
    cases hnext : next? a with
    | none =>
      cases n' with
      | zero => rw [walk, walk, hnext]
      | succ n' => rw [walk, walk, hsame a (Nat.le_refl a), hnext]
    | some b =>
      have hb := hlt hnext
      cases n' with
      | zero => omega
      | succ n' =>
        rw [walk, walk, hsame a (Nat.le_refl a), hnext]
        dsimp only
        rw [ih (by omega) (by omega) fun c hc => hsame c (by omega)]

end Walk

/-! ### Frames -/

namespace Store

variable {s s' : Store}

theorem chainFrom_eq_walk (s : Store) (n : Nat) (f : FrameId) :
    s.chainFrom n f = walk s.parent? n f := by
  induction n generalizing f with
  | zero => rfl
  | succ n ih =>
    rw [chainFrom, walk]
    cases s.parent? f with
    | none => rfl
    | some p =>
      dsimp only
      rw [ih]

/-- If every frame is chained to the global one, then frames are in older ones. -/
theorem parent?_lt {g : FrameId}
    (h : ∀ {f : FrameId} {fr : Frame}, s.frames[f]? = some fr → ∃ sites, s.Chained g f sites)
    {f p : FrameId} (hp : s.parent? f = some p) : p < f := by
  unfold parent? at hp
  simp only [Option.bind_eq_bind, Option.bind_eq_some_iff] at hp
  obtain ⟨fr, hfr, hparent⟩ := hp
  obtain ⟨sites, hchain⟩ := h hfr
  cases hchain with
  | root hf hnone =>
    cases hfr.symm.trans hf
    cases hparent.symm.trans hnone
  | link hf hsome hlt _ =>
    cases hfr.symm.trans hf
    cases hparent.symm.trans hsome
    exact hlt

/-! ### Classes -/

/-- The class that a class inherits from. -/
def superclass? (s : Store) (k : ClassId) : Option ClassId := do (← s.classes[k]?).superclass

theorem lineageFrom_eq_walk (s : Store) (n : Nat) (k : ClassId) :
    s.lineageFrom n k = walk s.superclass? n k := by
  induction n generalizing k with
  | zero => rfl
  | succ n ih =>
    rw [lineageFrom, walk]
    unfold superclass?
    cases s.classes[k]? with
    | none => rfl
    | some c =>
      cases hsuper : c.superclass with
      | none => simp [hsuper]
      | some p =>
        simp only [hsuper, Option.bind_eq_bind, Option.bind_some]
        rw [ih]
        rfl

/-- What a class inherits and has depends on the classes of the store alone. -/
theorem lineage_congr {s s' : Store} (h : s'.classes = s.classes) (k : ClassId) :
    s'.lineage k = s.lineage k := by
  have hsuper : s'.superclass? = s.superclass? := by
    funext k
    rw [superclass?, superclass?, h]
  rw [lineage, lineage, lineageFrom_eq_walk, lineageFrom_eq_walk, hsuper, h]

theorem method?_congr {s s' : Store} (h : s'.classes = s.classes) (k : ClassId) (name : String) :
    s'.method? k name = s.method? k name := by
  rw [method?, method?, lineage_congr h, h]

theorem static?_congr {s s' : Store} (h : s'.classes = s.classes) (k : ClassId) (name : String) :
    s'.static? k name = s.static? k name := by
  rw [static?, static?, lineage_congr h, h]

/-- Classes inherit from older ones. -/
def Older (s : Store) : Prop := ∀ k k', s.superclass? k = some k' → k' < k

/-- The classes of a store are also in another one, where they inherit from the same classes
and have the same methods, their own ones and those that are found for them. -/
def SameDispatch (s s' : Store) : Prop :=
  ∀ k c, s.classes[k]? = some c →
    (∃ c', s'.classes[k]? = some c' ∧ c'.superclass = c.superclass ∧ c'.methods = c.methods)
      ∧ s'.lineage k = s.lineage k ∧ ∀ name, s'.method? k name = s.method? k name

theorem SameDispatch.refl (s : Store) : s.SameDispatch s := fun _ c hc =>
  ⟨⟨c, hc, rfl, rfl⟩, rfl, fun _ => rfl⟩

theorem SameDispatch.trans {s'' : Store} (h : s.SameDispatch s') (h' : s'.SameDispatch s'') :
    s.SameDispatch s'' := by
  intro k c hc
  obtain ⟨⟨c', hc', hsuper, hmethods⟩, hlineage, hmethod⟩ := h k c hc
  obtain ⟨⟨c'', hc'', hsuper', hmethods'⟩, hlineage', hmethod'⟩ := h' k c' hc'
  exact ⟨⟨c'', hc'', hsuper'.trans hsuper, hmethods'.trans hmethods⟩, hlineage'.trans hlineage,
    fun name => (hmethod' name).trans (hmethod name)⟩

/-- The lineage of a class is the whole way. -/
theorem Older.isWholeWay_lineage (h : s.Older) {k : ClassId} (hk : k < s.classes.size) :
    IsWholeWay s.superclass? k (s.lineage k) := by
  rw [lineage, lineageFrom_eq_walk]
  exact isWholeWay_walk (h _ _) (Nat.le_of_lt hk)

/-- The method of a class is that of the nearest class of its lineage which declares one. -/
theorem method?_eq_some_iff (s : Store) (k : ClassId) (name : String) (c : ClosureId) :
    s.method? k name = some c
      ↔ ∃ nearer k' rest, s.lineage k = nearer ++ k' :: rest
        ∧ (∃ object, s.classes[k']? = some object ∧ object.methods.find? name = some c)
        ∧ ∀ k'' ∈ nearer, ∀ object, s.classes[k'']? = some object →
          object.methods.find? name = none := by
  rw [method?, List.findSome?_eq_some_iff]
  simp only [Option.bind_eq_bind, Option.bind_eq_some_iff, Option.bind_eq_none_iff]

/-- While the store grows, a class keeps its lineage and its methods. -/
theorem Older.sameDispatch (h : s.Older) (he : s.Extends s') : s.SameDispatch s' := by
  intro k c hc
  have hk : k < s.classes.size := (Array.getElem?_eq_some_iff.mp hc).1
  obtain ⟨c', hc', hsuper, hmethods⟩ := he.classes hc
  have hk' : k < s'.classes.size := (Array.getElem?_eq_some_iff.mp hc').1
  -- the lineage leads to older classes only, and these are in both stores
  have hclass : ∀ b ≤ k, ∃ o o', s.classes[b]? = some o ∧ s'.classes[b]? = some o'
      ∧ o'.superclass = o.superclass ∧ o'.methods = o.methods := by
    intro b hb
    have hlt : b < s.classes.size := Nat.lt_of_le_of_lt hb hk
    obtain ⟨o', ho', hrest⟩ := he.classes (Array.getElem?_eq_getElem hlt)
    exact ⟨s.classes[b], o', Array.getElem?_eq_getElem hlt, ho', hrest⟩
  have hlineage : s'.lineage k = s.lineage k := by
    rw [lineage, lineage, lineageFrom_eq_walk, lineageFrom_eq_walk]
    refine walk_congr (h _ _) (Nat.le_of_lt hk) (Nat.le_of_lt hk') fun b hb => ?_
    obtain ⟨o, o', ho, ho', hsame, -⟩ := hclass b hb
    simp [superclass?, ho, ho', hsame]
  refine ⟨⟨c', hc', hsuper, hmethods⟩, hlineage, fun name => ?_⟩
  rw [method?, method?, hlineage, ← List.head?_filterMap, ← List.head?_filterMap]
  refine congrArg List.head? (List.filterMap_congr fun b hb => ?_)
  rw [lineage, lineageFrom_eq_walk] at hb
  obtain ⟨o, o', ho, ho', -, hsame⟩ := hclass b (le_of_mem_walk (h _ _) hb)
  simp [ho, ho', hsame]

end Store

end LoxLang
