import LoxLang.Machine.Eval
import LoxLang.Proofs.Program.Renaming
import LoxLang.Proofs.Store.Binding
import LoxLang.Proofs.Store.Lineage

/-!
# Renamed stores

In a renamed store the frames hold the new names, and the functions are renamed.  All else,
and the place of everything, is the same.  Whatever is asked of a store or done to it can be
asked of the renamed store, or done to it, with the new names.

## Main definitions

* `Table.mapKeys` — a table with other keys.
* `Renaming.frame`, `Renaming.closure`, `Renaming.store`, `Renaming.machine` — what lives in
  the store, renamed, and a machine with a renamed store.

## Main results

* `Renaming.slot?_store`, `Renaming.define_store` — the names of a frame.
* `Renaming.store_eq_self` — what a renaming does not concern stays the same.
-/

namespace LoxLang

/-! ### Tables with other keys -/

namespace Table

variable {κ α : Type} [DecidableEq κ]

/-- A table with other keys, in the same order. -/
def mapKeys (f : κ → κ) (t : Table κ α) : Table κ α := ⟨t.entries.map fun e => (f e.1, e.2)⟩

theorem search_map_keys {f : κ → κ} (hf : Function.Injective f) (k : κ) (es : List (κ × α)) :
    search (f k) (es.map fun e => (f e.1, e.2)) = search k es := by
  induction es with
  | nil => rfl
  | cons e es ih =>
    obtain ⟨k₀, a₀⟩ := e
    simp only [List.map_cons, search, ih, hf.eq_iff]

theorem find?_mapKeys {f : κ → κ} (hf : Function.Injective f) (t : Table κ α) (k : κ) :
    (t.mapKeys f).find? (f k) = t.find? k := search_map_keys hf k t.entries

theorem place_map_keys {f : κ → κ} (hf : Function.Injective f) (k : κ) (a : α)
    (es : List (κ × α)) :
    place (f k) a (es.map fun e => (f e.1, e.2))
      = (place k a es).map fun e => (f e.1, e.2) := by
  induction es with
  | nil => rfl
  | cons e es ih =>
    obtain ⟨k₀, a₀⟩ := e
    by_cases h : k₀ = k
    · simp [place, h]
    · simp [place, h, ih, hf.ne h]

theorem mapKeys_insert {f : κ → κ} (hf : Function.Injective f) (t : Table κ α) (k : κ) (a : α) :
    (t.insert k a).mapKeys f = (t.mapKeys f).insert (f k) a :=
  congrArg Table.mk (place_map_keys hf k a t.entries).symm

theorem mapKeys_eq_self {f : κ → κ} {t : Table κ α} (h : ∀ k, t.contains k → f k = k) :
    t.mapKeys f = t := by
  have hself : t.entries.map (fun e => (f e.1, e.2)) = t.entries.map id := by
    refine List.map_congr_left fun e he => ?_
    have hkey := h e.1 ((t.contains_iff e.1).mpr (List.mem_map_of_mem he))
    exact Prod.ext hkey rfl
  rw [mapKeys, hself, List.map_id]

end Table

namespace Renaming

/-! ### What lives in the store -/

/-- A frame that holds the new names. -/
def frame (ρ : Renaming) (fr : Frame) : Frame :=
  { fr with slots := fr.slots.mapKeys (ρ.key fr.site) }

/-- A closure with renamed parameters and a renamed body. -/
def closure (ρ : Renaming) (c : Closure) : Closure :=
  { c with
    params := c.params.map (ρ.declare c.site)
    body := stmtsRename ρ c.body c.site }

/-- A renamed store. -/
def store (ρ : Renaming) (s : Store) : Store :=
  { s with frames := s.frames.map ρ.frame, closures := s.closures.map ρ.closure }

/-- A machine with a renamed store. -/
def machine (ρ : Renaming) (m : Machine) : Machine := { m with store := ρ.store m.store }

variable (ρ : Renaming) (s : Store)

@[simp] theorem frames_getElem? (f : FrameId) :
    (ρ.store s).frames[f]? = s.frames[f]?.map ρ.frame := by simp [store]

@[simp] theorem closures_getElem? (c : ClosureId) :
    (ρ.store s).closures[c]? = s.closures[c]?.map ρ.closure := by simp [store]

@[simp] theorem parent?_store (f : FrameId) : (ρ.store s).parent? f = s.parent? f := by
  simp only [Store.parent?, frames_getElem?]
  cases s.frames[f]? <;> rfl

@[simp] theorem ancestor?_store (f : FrameId) (d : Nat) :
    (ρ.store s).ancestor? f d = s.ancestor? f d := by
  induction d generalizing f with
  | zero => rfl
  | succ d ih => simp only [Store.ancestor?, parent?_store, ih]

/-- The frames of a renamed store are chained in the same way. -/
theorem chained_store {s : Store} {g f : FrameId} {sites : List Site}
    (h : s.Chained g f sites) : (ρ.store s).Chained g f sites := by
  have hframe : ∀ {f : FrameId} {fr : Frame}, s.frames[f]? = some fr →
      (ρ.store s).frames[f]? = some (ρ.frame fr) := by
    intro f fr hfr
    rw [frames_getElem?, hfr, Option.map_some]
  induction h with
  | root h hp =>
    have hroot := Store.Chained.root (hframe h) hp
    exact hroot
  | link h hp hlt _ ih =>
    have hlink := Store.Chained.link (hframe h) hp hlt ih
    exact hlink

/-! ### Names in frames -/

variable {ρ s} {f : FrameId} {site : Site} {slot : Slot}

/-- A frame of a renamed store holds under the new name what it held before. -/
theorem slot?_store (hsite : s.site? f = some site) (x : String) :
    (ρ.store s).slot? f (ρ.key site x) = s.slot? f x := by
  obtain ⟨fr, hfr, rfl⟩ := Option.map_eq_some_iff.mp hsite
  simp only [Store.slot?, frames_getElem?, hfr, Option.map_some]
  exact Table.find?_mapKeys (ρ.key fr.site).injective fr.slots x

variable (ρ s) in
@[simp] theorem slot?_store_this (f : FrameId) :
    (ρ.store s).slot? f "this" = s.slot? f "this" := by
  cases hsite : s.site? f with
  | none =>
    rw [Store.site?, Option.map_eq_none_iff] at hsite
    simp [Store.slot?, hsite]
  | some site =>
    rw [← slot?_store hsite "this", ρ.key_this]

/-- Binding a name in a renamed store. -/
theorem define_store {x y : String} (hy : ∀ site, s.site? f = some site → ρ.key site x = y) :
    (ρ.store s).define f y slot = ρ.store (s.define f x slot) := by
  have hframes : (ρ.store s).frames.modify f
        (fun fr => { fr with slots := fr.slots.insert y slot })
      = (s.frames.modify f fun fr => { fr with slots := fr.slots.insert x slot }).map
          ρ.frame := by
    refine Array.ext_getElem? fun g => ?_
    rw [Array.getElem?_modify, Array.getElem?_map, Array.getElem?_modify, frames_getElem?]
    -- the name is bound in one frame, and its construct tells the new name
    split
    · next heq =>
      subst heq
      cases hfr : s.frames[f]? with
      | none => rfl
      | some fr =>
        have hkey := hy fr.site (by simp [Store.site?, hfr])
        simp only [Option.map_some, frame, Table.mapKeys_insert (ρ.key fr.site).injective, hkey]
    · rfl
  simp only [Store.define, store] at hframes ⊢
  rw [hframes]

/-! ### What is done to a renamed store -/

variable (ρ s)

theorem newFrame_store (site : Site) (parent : Option FrameId) :
    (ρ.store s).newFrame site parent
      = ((s.newFrame site parent).1, ρ.store (s.newFrame site parent).2) := by
  simp only [Store.newFrame, store, Array.size_map, Array.map_push]
  rfl

theorem newClosure_store (c : Closure) :
    (ρ.store s).newClosure (ρ.closure c)
      = ((s.newClosure c).1, ρ.store (s.newClosure c).2) := by
  simp [Store.newClosure, store, Array.map_push]

theorem addClosures_store (cs : List Closure) :
    (ρ.store s).addClosures (cs.map ρ.closure) = ρ.store (s.addClosures cs) := by
  simp [Store.addClosures, store]

theorem bind_store (c : Closure) (receiver : Value) :
    (ρ.store s).bind (ρ.closure c) receiver
      = ((s.bind c receiver).1, ρ.store (s.bind c receiver).2) := by
  have hnew := newFrame_store ρ s c.home (some c.frame)
  have hthis : (ρ.store (s.newFrame c.home (some c.frame)).2).define s.frames.size "this"
        (some receiver)
      = ρ.store ((s.newFrame c.home (some c.frame)).2.define s.frames.size "this"
          (some receiver)) :=
    define_store fun site _ => ρ.key_this site
  have hclosure := newClosure_store ρ
    ((s.newFrame c.home (some c.frame)).2.define s.frames.size "this" (some receiver))
    { c with frame := s.frames.size }
  calc (ρ.store s).bind (ρ.closure c) receiver
      = (((ρ.store s).newFrame c.home (some c.frame)).2.define
          ((ρ.store s).newFrame c.home (some c.frame)).1 "this" (some receiver)).newClosure
            { ρ.closure c with frame := ((ρ.store s).newFrame c.home (some c.frame)).1 } := rfl
    _ = ((ρ.store (s.newFrame c.home (some c.frame)).2).define s.frames.size "this"
          (some receiver)).newClosure (ρ.closure { c with frame := s.frames.size }) := by
        rw [hnew]
        rfl
    _ = ((s.bind c receiver).1, ρ.store (s.bind c receiver).2) := by
        rw [hthis, hclosure]
        rfl

/-! ### What is asked of a renamed store -/

theorem classes_store : (ρ.store s).classes = s.classes := rfl

@[simp] theorem method?_store (k : ClassId) (x : String) :
    (ρ.store s).method? k x = s.method? k x := Store.method?_congr (classes_store ρ s) k x

@[simp] theorem static?_store (k : ClassId) (x : String) :
    (ρ.store s).static? k x = s.static? k x := Store.static?_congr (classes_store ρ s) k x

@[simp] theorem arity?_store (v : Value) : (ρ.store s).arity? v = s.arity? v := by
  have hlength : ∀ c : ClosureId, ((ρ.store s).closures[c]?.map fun c => (c.params.length : Int))
      = s.closures[c]?.map fun c => (c.params.length : Int) := by
    intro c
    rw [closures_getElem?, Option.map_map]
    cases s.closures[c]? <;> simp [closure]
  cases v with
  | closure c => exact hlength c
  | classRef k =>
    simp only [Store.arity?, method?_store, hlength]
  | nil | bool | number | text | native | object => rfl

@[simp] theorem text_store (v : Value) : (ρ.store s).text v = s.text v := by
  cases v with
  | closure c =>
    simp only [Store.text, closures_getElem?, Option.map_map]
    rfl
  | nil | bool | number | text | native | classRef | object => rfl

/-! ### Renamed functions -/

theorem closure_rename (f : FunctionDecl) (frame : FrameId) :
    (f.rename ρ).closure frame = ρ.closure (f.closure frame) := by
  cases f
  rfl

theorem method_rename (f : FunctionDecl) (frame : FrameId) (className : Token) :
    (f.rename ρ).method frame className = ρ.closure (f.method frame className) := by
  obtain ⟨name, params, body⟩ := f
  simp only [FunctionDecl.method, closure, FunctionDecl.rename, FunctionDecl.params,
    List.isEmpty_map]
  rfl

/-! ### What a renaming does not concern -/

variable {ρ s}

/-- A store stays the same if its frames and its closures do. -/
theorem store_eq_self (hframes : ∀ fr ∈ s.frames, ρ.frame fr = fr)
    (hclosures : ∀ c ∈ s.closures, ρ.closure c = c) : ρ.store s = s := by
  have hf : s.frames.map ρ.frame = s.frames.map id := Array.map_congr_left hframes
  have hc : s.closures.map ρ.closure = s.closures.map id := Array.map_congr_left hclosures
  rw [store, hf, hc, Array.map_id, Array.map_id]

theorem frame_eq_self {fr : Frame} (h : ∀ x, fr.slots.contains x → ρ.key fr.site x = x) :
    ρ.frame fr = fr := by
  rw [frame, Table.mapKeys_eq_self h]

theorem closure_eq_self {c : Closure}
    (hparams : ∀ t ∈ c.params, ρ.key c.site t.lexeme = t.lexeme)
    (hd : ∀ d ∈ stmtsDeclarations c.body c.site, ρ.Spares d)
    (hu : ∀ u ∈ stmtsAccesses c.body, ρ.use u.2 = u.2.lexeme) : ρ.closure c = c := by
  have hself : c.params.map (ρ.declare c.site) = c.params.map id :=
    List.map_congr_left fun t ht => declare_eq_self (hparams t ht)
  rw [closure, hself, List.map_id, stmtsRename_eq_self c.body c.site hd hu]

@[simp] theorem refl_machine (m : Machine) : Renaming.refl.machine m = m := by
  have hstore : Renaming.refl.store m.store = m.store :=
    store_eq_self (fun _ _ => frame_eq_self fun _ _ => rfl)
      fun _ _ => closure_eq_self (fun _ _ => rfl) (fun _ _ => rfl) fun _ _ => rfl
  rw [machine, hstore]

@[simp] theorem refl_program (program : Program) : program.rename .refl = program :=
  stmtsRename_eq_self program .globals (fun _ _ => rfl) fun _ _ => rfl

end Renaming

end LoxLang
