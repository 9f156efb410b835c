import LoxLang.Proofs.Machine.Preservation
import LoxLang.Proofs.Program.Tokens
import LoxLang.Proofs.Scope.Walk

/-!
# Names are looked up where the analysis looked for them

When a running program looks up a name, the frames around it are activations of exactly
those constructs whose scopes were open when the analysis visited the name.  At the
distance that was recorded there is a frame, therefore, and it is an activation of the
construct in whose scope the name was found.

Whether that is so can be decided, so that a look-up can be guarded by it.

## Main definitions

* `Visit.Mirrored`, `Mirrors` — the frames of a machine mirror the scopes of a visit.
* `Naming.guarded` — look-ups that fail unless a condition holds.
* `Naming.within` — look-ups that fail unless the machine is where the name occurs.
* `Rules`, `Blamed` — what the stages before running make sure of, and the faults that
  remain.

## Main results

* `mirrors_of_checked` — where a name occurs, frames mirror scopes.
* `laws_of_visits` — the rules give what running a program needs.
-/

namespace LoxLang

/-- The frames of a machine mirror the scopes of a visit: their chain has the same
constructs, with the global frame at its end; the recorded distance is that of the visit;
and at this distance there is an activation of the scope that had declared the name. -/
def Visit.Mirrored (v : Visit) (m : Machine) : Prop :=
  (m.store.chain m.current).map m.store.site? = v.sites.map some
    ∧ (m.store.chain m.current).getLast? = some m.globals
    ∧ m.distances.find? v.name.position = v.distance
    ∧ ∀ d ∈ v.distance, ∃ s ∈ v.scopes[d]?, s.names.contains v.name.lexeme
      ∧ (m.store.ancestor? m.current d).bind m.store.site? = some s.site

/-- A name was visited, and the frames of a machine mirror the scopes of the visit. -/
def Mirrors (vs : List Visit) (m : Machine) (t : Token) : Prop :=
  ∃ v ∈ vs, v.name = t ∧ v.Mirrored m

instance (v : Visit) (m : Machine) : Decidable (v.Mirrored m) :=
  inferInstanceAs (Decidable (_ ∧ _ ∧ _ ∧ _))

instance (vs : List Visit) (m : Machine) (t : Token) : Decidable (Mirrors vs m t) :=
  inferInstanceAs (Decidable (∃ v ∈ vs, _))

/-- Look-ups that fail at once unless a condition holds. -/
def Naming.guarded (naming : Naming) (P : Machine → Token → Prop) [∀ m t, Decidable (P m t)] :
    Naming where
  value m t := if P m t then naming.value m t else .error .dangling
  target m t := if P m t then naming.target m t else .error .dangling

open Classical in
/-- Look-ups that fail unless the machine is where the name occurs. -/
noncomputable def Naming.within (naming : Naming) (R : Occurrence → Prop) (D : Distances) :
    Naming :=
  naming.guarded fun m t => ∃ p, m.At R D p ∧ R ⟨p, .name t⟩

/-- What the stages before running make sure of. -/
structure Rules (vs : List Visit) (ts : List Token) (o : Occurrence) : Prop where
  /-- The analysis has checked what occurs. -/
  checked : o.Checked vs
  /-- It was written with known tokens. -/
  written : o.item.WrittenIn ts
  /-- The constructs around it are different. -/
  nodup : o.place.sites.Nodup

/-- The rules for more visits and more tokens. -/
theorem Rules.mono {vs vs' : List Visit} {ts ts' : List Token} {o : Occurrence}
    (h : Rules vs ts o) (hvs : vs ⊆ vs') (hts : ts ⊆ ts') : Rules vs' ts' o :=
  ⟨h.checked.mono hvs, h.written.mono hts, h.nodup⟩

/-- The faults that remain: the bounds are reached, or a known token is to blame. -/
def Blamed (ts : List Token) (f : Fault) : Prop :=
  f = .overflow ∨ f = .endless ∨ ∃ cause t, f = .at cause t ∧ t ∈ ts

/-! ### Distances and scopes -/

/-- No distance means that no scope had declared the name. -/
theorem Visit.distance_eq_none_iff (v : Visit) :
    v.distance = none ↔ ∀ s ∈ v.scopes, s.names.contains v.name.lexeme = false := by
  unfold distance
  rw [List.findIdx?_eq_none_iff]

/-- A distance leads to a scope that had declared the name. -/
theorem Visit.exists_scope {v : Visit} {d : Nat} (h : v.distance = some d) :
    ∃ s, v.scopes[d]? = some s ∧ s.names.contains v.name.lexeme := by
  obtain ⟨hd, hs, -⟩ := List.findIdx?_eq_some_iff_getElem.mp h
  exact ⟨v.scopes[d], List.getElem?_eq_getElem hd, hs⟩

variable {vs : List Visit} {ts : List Token} {R : Occurrence → Prop} {D : Distances}
  {m : Machine} {p : Place} {t : Token}

/-- Where a name occurs that was visited, frames mirror scopes. -/
theorem mirrors_of_checked (hD : ∀ v ∈ vs, D.find? v.name.position = v.distance)
    (hm : m.At R D p) (ht : Occurrence.Checked vs ⟨p, .name t⟩) : Mirrors vs m t := by
  obtain ⟨v, hv, hname, hsites⟩ := ht
  have hchain : m.store.Chained m.globals m.current v.sites := hsites ▸ hm.chained
  refine ⟨v, hv, hname, hchain.map_site?_chain, hchain.getLast?_chain, ?_, ?_⟩
  · rw [hm.distances_eq]
    exact hD v hv
  · intro d hd
    obtain ⟨s, hs, hdeclares⟩ := v.exists_scope hd
    -- the global frame comes behind those of the scopes, so `d` is inside the chain
    have hlt : d < v.scopes.length := (List.getElem?_eq_some_iff.mp hs).1
    have hsite : v.sites[d]? = some s.site := by
      rw [Visit.sites, List.getElem?_append_left (by simpa using hlt), List.getElem?_map, hs]
      rfl
    obtain ⟨f, hf, hfsite⟩ := hchain.ancestor?_eq_some
      (d := d) (by rw [Visit.sites, List.length_append, List.length_map]; omega)
    exact ⟨s, hs, hdeclares, by rw [hf, Option.bind_some, hfsite, hsite]⟩

/-! ### Look-ups by distance -/

theorem knows_of_valueAt {r : NameReading} {v : Value}
    (h : ∀ w, r = .value w → m.Knows R w) (hv : r.valueAt t = .ok v) : m.Knows R v := by
  cases r with
  | undefined => cases hv
  | uninitialized => cases hv
  | value w =>
    cases hv
    exact h v rfl

theorem error_of_valueAt {r : NameReading} {f : Fault} (h : r.valueAt t = .error f) :
    ∃ cause : RuntimeCause, cause.IsPlain ∧ f = .at cause t := by
  cases r with
  | undefined =>
    cases h
    exact ⟨_, ⟨by simp, by simp⟩, rfl⟩
  | uninitialized =>
    cases h
    exact ⟨_, ⟨by simp, by simp⟩, rfl⟩
  | value w => cases h

/-- What is read from the slot of a frame is sound. -/
theorem knows_of_ofSlot? (hm : m.Ok R D) {f : FrameId} {name : String} {v : Value}
    (h : NameReading.ofSlot? (m.store.slot? f name) = .value v) : m.Knows R v := by
  cases hslot : m.store.slot? f name with
  | none => simp [hslot, NameReading.ofSlot?] at h
  | some slot =>
    cases slot with
    | none => simp [hslot, NameReading.ofSlot?] at h
    | some w =>
      simp only [hslot, NameReading.ofSlot?, NameReading.value.injEq] at h
      exact h ▸ hm.sound.slot? hslot

/-- The value of a name is sound, wherever it is looked up. -/
theorem knows_of_byDistance (hm : m.Ok R D) {v : Value}
    (h : Naming.byDistance.value m t = .ok v) : m.Knows R v := by
  unfold Naming.byDistance at h
  dsimp only at h
  split at h
  · refine knows_of_valueAt (fun w hw => ?_) h
    unfold Store.read at hw
    split at hw
    · cases hw
    · exact knows_of_ofSlot? hm hw
  · split at h
    · cases h
    · next r hr =>
      refine knows_of_valueAt (fun w hw => ?_) h
      obtain ⟨f, -, rfl⟩ := Option.map_eq_some_iff.mp hr
      exact knows_of_ofSlot? hm hw

/-- A look-up fails at the name, or because there are not enough frames. -/
theorem error_of_byDistance {f : Fault} (h : Naming.byDistance.value m t = .error f) :
    (∃ cause : RuntimeCause, cause.IsPlain ∧ f = .at cause t)
      ∨ ∃ d, m.distances.find? t.position = some d ∧ m.store.ancestor? m.current d = none
        ∧ f = .beyondGlobals d := by
  unfold Naming.byDistance at h
  dsimp only at h
  split at h
  · exact .inl (error_of_valueAt h)
  · next d hd =>
    split at h
    · next hread =>
      cases h
      exact .inr ⟨d, hd, Option.map_eq_none_iff.mp hread, rfl⟩
    · exact .inl (error_of_valueAt h)

/-- Likewise for the frame of a name that is assigned to. -/
theorem error_of_byDistance_target {f : Fault} (h : Naming.byDistance.target m t = .error f) :
    (∃ cause : RuntimeCause, cause.IsPlain ∧ f = .at cause t)
      ∨ ∃ d, m.distances.find? t.position = some d ∧ m.store.ancestor? m.current d = none
        ∧ f = .beyondGlobals d := by
  unfold Naming.byDistance at h
  dsimp only at h
  split at h
  · unfold Store.holderAt at h
    split at h
    · cases h
      exact .inl ⟨_, ⟨by simp, by simp⟩, rfl⟩
    · cases h
  · next d hd =>
    split at h
    · next hancestor =>
      cases h
      exact .inr ⟨d, hd, hancestor, rfl⟩
    · cases h

/-- Where frames mirror scopes, there are enough frames. -/
theorem Mirrors.ancestor?_ne_none (h : Mirrors vs m t) {d : Nat}
    (hd : m.distances.find? t.position = some d) : m.store.ancestor? m.current d ≠ none := by
  obtain ⟨v, -, rfl, -, -, hdistance, hscope⟩ := h
  obtain ⟨s, -, -, hsite⟩ := hscope d (hdistance.symm.trans hd)
  intro hnone
  rw [hnone] at hsite
  cases hsite

/-! ### The laws -/

/-- An operator between operands fails on its operands, or because it is no such operator. -/
theorem error_of_applyBinary {operator : Token} {v w : Value} {f : Fault}
    (h : applyBinary operator v w = .error f) :
    (∃ cause : RuntimeCause, cause.IsPlain ∧ f = .at cause operator)
      ∨ operator.kind.isBinary = false ∧ f = .notAnOperator operator.kind := by
  unfold applyBinary at h
  split at h
  · cases h
  · cases h
  · cases h
  · unfold addValues at h
    split at h <;> cases h
    exact .inl ⟨_, ⟨by simp, by simp⟩, rfl⟩
  · split at h
    · unfold applyNumeric at h
      split at h <;> cases h
      refine .inr ⟨?_, rfl⟩
      cases hk : operator.kind <;> simp_all [TokenKind.isBinary]
    · cases h
      exact .inl ⟨_, ⟨by simp, by simp⟩, rfl⟩

/-- The token that is blamed where something occurs is a known one. -/
theorem mem_of_token? {i : Item} (hi : i.WrittenIn ts) (ht : i.token? = some t) : t ∈ ts := by
  cases i with
  | binary operator =>
    cases ht
    exact hi.1
  | name | unary | call | property =>
    cases ht
    exact hi
  | «break» | «continue» | «return» | opens => cases ht

/-- The rules give what running a program needs, however names are looked up where frames
do not mirror scopes. -/
theorem laws_of_visits {n' : Naming} (hD : ∀ v ∈ vs, D.find? v.name.position = v.distance)
    (hvalue : ∀ m t, Mirrors vs m t → n'.value m t = Naming.byDistance.value m t)
    (htarget : ∀ m t, Mirrors vs m t → n'.target m t = Naming.byDistance.target m t) :
    Laws (Rules vs ts) (Blamed ts) D .byDistance n' where
  value {m p t} hm ht := by
    have hmirrors := mirrors_of_checked hD hm ht.1
    refine ⟨hvalue m t hmirrors, fun v hv => knows_of_byDistance hm.toOk hv, fun f hf => ?_⟩
    rcases error_of_byDistance hf with ⟨cause, -, rfl⟩ | ⟨d, hd, hnone, -⟩
    · exact .inr (.inr ⟨cause, t, rfl, ht.2⟩)
    · exact absurd hnone (hmirrors.ancestor?_ne_none hd)
  target {m p t} hm ht := by
    have hmirrors := mirrors_of_checked hD hm ht.1
    refine ⟨htarget m t hmirrors, fun f hf => ?_⟩
    rcases error_of_byDistance_target hf with ⟨cause, -, rfl⟩ | ⟨d, hd, hnone, -⟩
    · exact .inr (.inr ⟨cause, t, rfl, ht.2⟩)
    · exact absurd hnone (hmirrors.ancestor?_ne_none hd)
  blame {o t cause} ho ht _ := .inr (.inr ⟨cause, t, rfl, mem_of_token? ho.2 ht⟩)
  binary {p operator v w f} ho hf := by
    obtain ⟨hmem, hkind⟩ := ho.2
    rcases error_of_applyBinary hf with ⟨cause, -, rfl⟩ | ⟨hnot, -⟩
    · exact .inr (.inr ⟨cause, operator, rfl, hmem⟩)
    · exact absurd hkind (by rw [hnot]; exact Bool.false_ne_true)
  overflow := .inl rfl
  endless := .inr (.inl rfl)
  breaks ho := ho.1
  continues ho := ho.1
  returns ho := ho.1

/-- Look-ups may be guarded by what holds wherever a name occurs. -/
theorem Laws.guarded {A : Fault → Prop} {n : Naming} (laws : Laws R A D n n)
    {P : Machine → Token → Prop} [∀ m t, Decidable (P m t)]
    (hP : ∀ {m : Machine} {p : Place} {t : Token}, m.At R D p → R ⟨p, .name t⟩ → P m t) :
    Laws R A D n (n.guarded P) :=
  { laws with
    value := fun hm ht => ⟨if_pos (hP hm ht), (laws.value hm ht).2⟩
    target := fun hm ht => ⟨if_pos (hP hm ht), (laws.target hm ht).2⟩ }

/-- A program looks names up only where they occur. -/
theorem Laws.within {A : Fault → Prop} {n : Naming} (laws : Laws R A D n n) :
    Laws R A D n (n.within R D) := by
  classical exact laws.guarded fun {_ p _} hm ht => ⟨p, hm, ht⟩

end LoxLang
