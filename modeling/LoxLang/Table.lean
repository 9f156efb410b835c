/-!
# Tables

A table is a finite association of keys to values that remembers the order in
which its keys first came.  Storing under a key that is already present replaces
the value and keeps the key's place; a new key goes to the end.  Frames, scopes,
method tables, fields and the record of resolved names are all tables, and the
order matters wherever their contents are listed.

## Main definitions

* `Table` — the type, an ordered list of entries.
* `Table.find?`, `Table.contains`, `Table.size`, `Table.keys` — the views.
* `Table.insert`, `Table.modify` — replace in place or append; change in place.

## Main results

* `Table.find?_insert` — looking up after storing.
* `Table.keys_insert` — the order of the keys after storing.
* `Table.insert_insert_self`, `Table.insert_insert_comm` — storing twice.

## References

The tables in the reference's `Environment`, `Resolver`, `LoxClass` and `LoxInstance`.
-/

namespace LoxLang

universe u v

/-- An association of keys to values, in the order in which the keys came. -/
structure Table (κ : Type u) (α : Type v) where
  /-- The entries, oldest key first. -/
  entries : List (κ × α)
  deriving DecidableEq, Repr

namespace Table

variable {κ : Type u} {α : Type v} [DecidableEq κ]

/-- The table without entries. -/
def empty : Table κ α := ⟨[]⟩

instance : Inhabited (Table κ α) := ⟨empty⟩

/-- The value of the first entry with the key `k`. -/
def search (k : κ) : List (κ × α) → Option α
  | [] => none
  | (k', a) :: es => if k' = k then some a else search k es

/-- Replaces the value of the first entry with the key `k`, or appends a new
entry when there is none. -/
def place (k : κ) (a : α) : List (κ × α) → List (κ × α)
  | [] => [(k, a)]
  | (k', a') :: es => if k' = k then (k', a) :: es else (k', a') :: place k a es

/-- The value stored under a key. -/
def find? (t : Table κ α) (k : κ) : Option α := search k t.entries

/-- Whether something is stored under a key. -/
def contains (t : Table κ α) (k : κ) : Bool := (t.find? k).isSome

/-- Stores a value: an existing key keeps its place, a new one goes last. -/
def insert (t : Table κ α) (k : κ) (a : α) : Table κ α := ⟨place k a t.entries⟩

/-- Changes the value under a key, if there is one. -/
def modify (t : Table κ α) (k : κ) (f : α → α) : Table κ α :=
  match t.find? k with
  | some a => t.insert k (f a)
  | none => t

/-- The keys, oldest first. -/
def keys (t : Table κ α) : List κ := t.entries.map Prod.fst

/-- The number of entries. -/
def size (t : Table κ α) : Nat := t.entries.length

/-- The table that results from storing the given entries one after the other. -/
def ofList (es : List (κ × α)) : Table κ α :=
  es.foldl (fun t e => t.insert e.1 e.2) empty

/-! ### Looking up -/

@[simp] theorem find?_empty (k : κ) : (empty : Table κ α).find? k = none := rfl

theorem search_place (k k' : κ) (a : α) (es : List (κ × α)) :
    search k' (place k a es) = if k = k' then some a else search k' es := by
  induction es with
  | nil => rfl
  | cons e es ih =>
    obtain ⟨k₀, a₀⟩ := e
    by_cases h₀ : k₀ = k
    · subst h₀
      by_cases h : k₀ = k' <;> simp [place, search, h]
    · by_cases h : k₀ = k'
      · subst h
        simp [place, search, h₀, Ne.symm h₀]
      · simp [place, search, h₀, h, ih]

/-- Storing changes what is found under one key only. -/
theorem find?_insert (t : Table κ α) (k k' : κ) (a : α) :
    (t.insert k a).find? k' = if k = k' then some a else t.find? k' :=
  search_place k k' a t.entries

@[simp] theorem find?_insert_self (t : Table κ α) (k : κ) (a : α) :
    (t.insert k a).find? k = some a := by
  simp [find?_insert]

theorem find?_insert_of_ne (t : Table κ α) {k k' : κ} (a : α) (h : k ≠ k') :
    (t.insert k a).find? k' = t.find? k' := by
  simp [find?_insert, h]

theorem search_map {β : Type v} (f : α → β) (k : κ) (es : List (κ × α)) :
    search k (es.map fun (k', a) => (k', f a)) = (search k es).map f := by
  induction es with
  | nil => rfl
  | cons e es ih =>
    obtain ⟨k₀, a₀⟩ := e
    by_cases h : k₀ = k <;> simp [search, h, ih]

theorem contains_insert (t : Table κ α) (k k' : κ) (a : α) :
    (t.insert k a).contains k' = (decide (k = k') || t.contains k') := by
  by_cases h : k = k' <;> simp [contains, find?_insert, h]

@[simp] theorem contains_modify (t : Table κ α) (k k' : κ) (f : α → α) :
    (t.modify k f).contains k' = t.contains k' := by
  unfold modify
  split
  · next a h =>
    by_cases hk : k = k'
    · subst hk
      simp [contains, h]
    · simp [contains_insert, hk]
  · rfl

theorem mem_of_search {k : κ} {a : α} {es : List (κ × α)} (h : search k es = some a) :
    (k, a) ∈ es := by
  induction es with
  | nil => cases h
  | cons e es ih =>
    obtain ⟨k₀, a₀⟩ := e
    by_cases hk : k₀ = k
    · have ha : a₀ = a := by simpa [search, hk] using h
      simp [hk, ha]
    · exact List.mem_cons_of_mem _ (ih (by simpa [search, hk] using h))

/-! ### The order of the keys -/

theorem search_eq_none_iff (k : κ) (es : List (κ × α)) :
    search k es = none ↔ k ∉ es.map Prod.fst := by
  induction es with
  | nil => simp [search]
  | cons e es ih =>
    obtain ⟨k₀, a₀⟩ := e
    by_cases h : k₀ = k
    · simp [search, h]
    · simp [search, h, ih, Ne.symm h]

/-- A key is found exactly when it is one of the keys. -/
theorem contains_iff (t : Table κ α) (k : κ) : t.contains k ↔ k ∈ t.keys := by
  have h := search_eq_none_iff k t.entries
  rw [contains, find?, keys, Option.isSome_iff_ne_none]
  exact ⟨fun hs => Decidable.not_not.mp fun hn => hs (h.mpr hn), fun hm hn => h.mp hn hm⟩

theorem map_fst_place (k : κ) (a : α) (es : List (κ × α)) :
    (place k a es).map Prod.fst
      = if k ∈ es.map Prod.fst then es.map Prod.fst else es.map Prod.fst ++ [k] := by
  induction es with
  | nil => simp [place]
  | cons e es ih =>
    obtain ⟨k₀, a₀⟩ := e
    by_cases h : k₀ = k
    · subst h
      simp [place]
    · have hk : ¬ k = k₀ := Ne.symm h
      by_cases hm : k ∈ es.map Prod.fst
      · simp only [List.mem_map] at hm
        simp [place, h, hk, ih, hm]
      · simp only [List.mem_map] at hm
        simp [place, h, hk, ih, hm]

/-- Storing under a known key keeps the list of keys; a new key goes last. -/
theorem keys_insert (t : Table κ α) (k : κ) (a : α) :
    (t.insert k a).keys = if k ∈ t.keys then t.keys else t.keys ++ [k] :=
  map_fst_place k a t.entries

/-- Storing again what is already there changes nothing. -/
theorem insert_eq_self (t : Table κ α) {k : κ} {a : α} (h : t.find? k = some a) :
    t.insert k a = t := by
  obtain ⟨es⟩ := t
  have key : ∀ es : List (κ × α), search k es = some a → place k a es = es := by
    intro es
    induction es with
    | nil => simp [search]
    | cons e es ih =>
      obtain ⟨k₀, a₀⟩ := e
      by_cases h₀ : k₀ = k
      · subst h₀
        intro hs
        simp_all [search, place]
      · intro hs
        simp only [search, h₀, if_false] at hs
        simp [place, h₀, ih hs]
  exact congrArg Table.mk (key es h)

/-- A new key goes last. -/
theorem entries_insert_of_not_contains {t : Table κ α} {k : κ} (h : t.contains k = false)
    (a : α) : (t.insert k a).entries = t.entries ++ [(k, a)] := by
  obtain ⟨es⟩ := t
  have hnone : search k es = none := Option.not_isSome_iff_eq_none.mp (Bool.not_eq_true _ ▸ h)
  show place k a es = es ++ [(k, a)]
  clear h
  induction es with
  | nil => rfl
  | cons e es ih =>
    obtain ⟨k₀, a₀⟩ := e
    by_cases h₀ : k₀ = k
    · simp [search, h₀] at hnone
    · rw [search, if_neg h₀] at hnone
      rw [place, if_neg h₀, ih hnone]
      rfl

/-- A table of entries with different keys has them all. -/
theorem find?_ofList {es : List (κ × α)} (h : (es.map Prod.fst).Nodup) (k : κ) :
    (ofList es).find? k = search k es := by
  -- each entry is found in what came before it, or it is the first under its key
  have hfold : ∀ (es : List (κ × α)) (t : Table κ α), (es.map Prod.fst).Nodup →
      (es.foldl (fun t e => t.insert e.1 e.2) t).find? k = (search k es).or (t.find? k) := by
    intro es
    induction es with
    | nil => exact fun t _ => rfl
    | cons e es ih =>
      obtain ⟨k₀, a₀⟩ := e
      intro t h
      obtain ⟨hfresh, h⟩ := List.nodup_cons.mp h
      rw [List.foldl_cons, ih _ h, find?_insert, search]
      by_cases hk : k₀ = k
      · subst hk
        have hnone := (search_eq_none_iff k₀ es).mpr hfresh
        simp [hnone]
      · simp [hk]
  rw [ofList, hfold es _ h]
  simp

/-! ### Storing twice -/

theorem place_place_self (k : κ) (x y : α) (es : List (κ × α)) :
    place k y (place k x es) = place k y es := by
  induction es with
  | nil => simp [place]
  | cons e es ih => by_cases h : e.1 = k <;> simp [place, h, ih]

/-- Of two values that are stored under one key the second remains. -/
theorem insert_insert_self (t : Table κ α) (k : κ) (x y : α) :
    (t.insert k x).insert k y = t.insert k y :=
  congrArg Table.mk (place_place_self k x y t.entries)

theorem place_place_comm {k l : κ} (hne : k ≠ l) (x y : α) {es : List (κ × α)}
    (h : k ∈ es.map Prod.fst) : place k x (place l y es) = place l y (place k x es) := by
  induction es with
  | nil => cases h
  | cons e es ih =>
    by_cases hk : e.1 = k
    · have hl : e.1 ≠ l := hk ▸ hne
      simp [place, hk, hne]
    · have hmem : k ∈ es.map Prod.fst := by
        rw [List.map_cons, List.mem_cons] at h
        exact h.resolve_left (Ne.symm hk)
      by_cases hl : e.1 = l
      · simp [place, hl, hne.symm]
      · simp [place, hk, hl, ih hmem]

/-- A key that is present keeps its place, so it does not matter when its value is replaced. -/
theorem insert_insert_comm {t : Table κ α} {k l : κ} (hne : k ≠ l) (x y : α)
    (h : t.contains k) : (t.insert l y).insert k x = (t.insert k x).insert l y :=
  congrArg Table.mk (place_place_comm hne x y ((t.contains_iff k).mp h))

/-- To change what was just stored is to store what it is changed to. -/
theorem modify_insert_self (t : Table κ α) (k : κ) (a : α) (g : α → α) :
    (t.insert k a).modify k g = t.insert k (g a) := by
  rw [modify, find?_insert_self]
  exact t.insert_insert_self k a (g a)

end Table

end LoxLang
