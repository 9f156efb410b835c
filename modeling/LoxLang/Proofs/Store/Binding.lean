import LoxLang.Proofs.Machine.Soundness
import LoxLang.Proofs.Program.Declaration

/-!
# Names in frames

A name is never removed from a frame, so what is bound stays bound.  A store is tidy if
frames hold only names that their constructs declare, and if the names that a closure uses
are bound where the closure was made.  It does not matter what the names are bound to, but
only a variable without an initializer may be bound to nothing.

## Main definitions

* `Store.Bound` — a name is bound in a frame or in one around it, which is an activation of
  the construct that declares it.
* `Store.Keeps` — how a store grows in which names stay bound.
* `MayHold` — what the activation of a construct may hold under a name.
* `Closure.Tidy`, `Store.Tidy` — frames hold what is declared, and closures use what is bound.

## Main results

* `Store.Tidy.define`, `Store.Tidy.bind` and the like — what is done to a tidy store leaves
  it tidy.
* `Store.holder?_eq` — the frame that holds a name, if it can only be one.
-/

namespace LoxLang

/-! ### Names stay bound -/

namespace Store

/-- A name is bound in a frame or in one around it, by an activation of its construct. -/
inductive Bound (s : Store) (b : Binding) : FrameId → Prop
  /-- The frame holds the name. -/
  | here {f : FrameId} (hsite : s.site? f = some b.1) (h : (s.slot? f b.2).isSome) : Bound s b f
  /-- The name is bound outside of the frame. -/
  | outer {f p : FrameId} (hp : s.parent? f = some p) (h : Bound s b p) : Bound s b f

/-- One store has grown out of another, and frames hold the names that they held. -/
structure Keeps (s s' : Store) : Prop extends s.Extends s' where
  /-- A frame keeps its names. -/
  slots : ∀ {f : FrameId} {x : String}, (s.slot? f x).isSome → (s'.slot? f x).isSome

variable {s s' s'' : Store} {f g : FrameId} {x y : String} {slot : Slot}

theorem Keeps.refl (s : Store) : s.Keeps s := ⟨.refl s, id⟩

theorem Keeps.trans (h : s.Keeps s') (h' : s'.Keeps s'') : s.Keeps s'' :=
  ⟨h.toExtends.trans h'.toExtends, fun hs => h'.slots (h.slots hs)⟩

theorem isSome_slot? : (s.slot? f x).isSome ↔ ∃ fr, s.frames[f]? = some fr
    ∧ fr.slots.contains x := by
  unfold slot? Table.contains
  cases s.frames[f]? <;> simp

/-- The frames after a name has been bound. -/
theorem getElem?_define : (s.define f x slot).frames[g]?
    = if f = g then s.frames[g]?.map fun fr => { fr with slots := fr.slots.insert x slot }
      else s.frames[g]? := by
  rw [define, Array.getElem?_modify]

theorem keeps_define (s : Store) (f : FrameId) (x : String) (slot : Slot) :
    s.Keeps (s.define f x slot) := by
  refine ⟨s.extends_define f x slot, fun {g y} h => ?_⟩
  rw [isSome_slot?] at h ⊢
  obtain ⟨fr, hfr, hy⟩ := h
  rw [getElem?_define, hfr]
  split
  · exact ⟨_, rfl, by simp [Table.contains_insert, hy]⟩
  · exact ⟨fr, rfl, hy⟩

/-- What has just been bound is bound. -/
theorem bound_define {site : Site} (hf : s.site? f = some site) :
    (s.define f x slot).Bound (site, x) f := by
  obtain ⟨fr, hfr, rfl⟩ := Option.map_eq_some_iff.mp hf
  have hframe : (s.define f x slot).frames[f]?
      = some { fr with slots := fr.slots.insert x slot } := by
    rw [getElem?_define, if_pos rfl, hfr]
    rfl
  refine .here ?_ (isSome_slot?.mpr ⟨_, hframe, by simp [Table.contains_insert]⟩)
  rw [site?, hframe]
  rfl

theorem keeps_pushFrame (s : Store) (fr : Frame) :
    s.Keeps { s with frames := s.frames.push fr } := by
  refine ⟨s.extends_pushFrame fr, fun {g y} h => ?_⟩
  rw [isSome_slot?] at h ⊢
  obtain ⟨fr', hfr, hy⟩ := h
  obtain ⟨hlt, -⟩ := Array.getElem?_eq_some_iff.mp hfr
  exact ⟨fr', by rw [Array.getElem?_push_lt hlt, ← Array.getElem?_eq_getElem hlt, hfr], hy⟩

theorem Extends.site?_eq (h : s.Extends s') {site : Site} (hsite : s.site? f = some site) :
    s'.site? f = some site := by
  obtain ⟨fr, hfr, rfl⟩ := Option.map_eq_some_iff.mp hsite
  obtain ⟨fr', hfr', heq, -⟩ := h.frames hfr
  rw [site?, hfr', Option.map_some, heq]

theorem Extends.parent?_eq (h : s.Extends s') (hparent : s.parent? f = some g) :
    s'.parent? f = some g := by
  obtain ⟨fr, hfr, hg⟩ := Option.bind_eq_some_iff.mp hparent
  obtain ⟨fr', hfr', -, heq⟩ := h.frames hfr
  rw [parent?, hfr', ← hg, ← heq]
  rfl

/-- A store that grows in other parts than its frames. -/
theorem Extends.keeps (h : s.Extends s') (hframes : s'.frames = s.frames) : s.Keeps s' := by
  refine ⟨h, fun {g y} hslot => ?_⟩
  rw [slot?, hframes]
  exact hslot

/-- Puts closures into the store. -/
def addClosures (s : Store) (cs : List Closure) : Store :=
  { s with closures := s.closures ++ cs.toArray }

theorem addClosures_addClosures (s : Store) (cs cs' : List Closure) :
    (s.addClosures cs).addClosures cs' = s.addClosures (cs ++ cs') := by
  simp [addClosures]

theorem newClosure_eq (s : Store) (c : Closure) : (s.newClosure c).2 = s.addClosures [c] := by
  simp [newClosure, addClosures]

theorem extends_addClosures (s : Store) (cs : List Closure) : s.Extends (s.addClosures cs) :=
  { Extends.refl s with
    closures := fun {c closure} h => by
      obtain ⟨hlt, -⟩ := Array.getElem?_eq_some_iff.mp h
      rw [addClosures, Array.getElem?_append_left hlt, h] }

/-- A closure was there before, or it is new. -/
theorem getElem?_addClosures {cs : List Closure} {c : ClosureId} {closure : Closure}
    (h : (s.addClosures cs).closures[c]? = some closure) :
    s.closures[c]? = some closure ∨ closure ∈ cs := by
  rw [addClosures, Array.getElem?_append] at h
  split at h
  · exact .inl h
  · rw [List.getElem?_toArray] at h
    exact .inr (List.mem_of_getElem? h)

theorem Bound.mono {b : Binding} (h : s.Bound b f) (hk : s.Keeps s') : s'.Bound b f := by
  induction h with
  | here hsite h => exact .here (hk.site?_eq hsite) (hk.slots h)
  | outer hp _ ih => exact .outer (hk.parent?_eq hp) ih

end Store

/-! ### Tidy stores -/

/-- A variable is declared without an initializer. -/
def Declaration.IsBare (d : Declaration) : Prop := d.kind = .variable ∧ d.initializer = none

/-- What the activation of a construct may hold under a name: the construct declares the name,
and if it is bound to nothing, it is a variable that was declared without an initializer. -/
structure MayHold (ds : List Declaration) (site : Site) (x : String) (slot : Slot) : Prop where
  /-- The construct declares the name. -/
  declared : DeclaredAt ds site x
  /-- It may be bound to nothing. -/
  bare : slot = none → ∃ d ∈ ds, d.site = site ∧ d.name.lexeme = x ∧ d.IsBare

/-- A name that is declared may have a value. -/
theorem DeclaredAt.mayHold {ds : List Declaration} {site : Site} {x : String}
    (h : DeclaredAt ds site x) (v : Value) : MayHold ds site x (some v) := ⟨h, nofun⟩

/-- The names that a closure declares are known, and those it uses are bound. -/
structure Closure.Tidy (ds : List Declaration) (w : Access → Token → List Binding → Prop)
    (s : Store) (closure : Closure) : Prop where
  /-- Its parameters are declared. -/
  params : ∀ t ∈ closure.params, DeclaredAt ds closure.site t.lexeme
  /-- What its body declares is declared. -/
  body : stmtsDeclarations closure.body closure.site ⊆ ds
  /-- If it is bound to a value, then around methods. -/
  home : ∃ k, closure.home = .receiver k
  /-- If it is called when it is read, then without arguments. -/
  getter : closure.isGetter → closure.params = []
  /-- What its body uses is bound where it was made. -/
  uses : ∃ env, (∀ b ∈ env, s.Bound b closure.frame)
    ∧ stmtsScoped w closure.body closure.site
        (closure.params.map (fun t => (closure.site, t.lexeme)) ++ env)

/-- Frames hold only what their constructs declare, and closures use what is bound. -/
structure Store.Tidy (ds : List Declaration) (w : Access → Token → List Binding → Prop)
    (s : Store) : Prop where
  /-- The names that frames hold. -/
  names : ∀ {f : FrameId} {fr : Frame} {x : String} {slot : Slot}, s.frames[f]? = some fr →
    fr.slots.find? x = some slot → MayHold ds fr.site x slot
  /-- The closures. -/
  closures : ∀ {c : ClosureId} {closure : Closure}, s.closures[c]? = some closure →
    closure.Tidy ds w s

variable {ds : List Declaration} {w : Access → Token → List Binding → Prop} {s s' : Store}
  {f : FrameId} {x : String} {slot : Slot}

theorem Closure.Tidy.mono {closure : Closure} (h : closure.Tidy ds w s) (hk : s.Keeps s') :
    closure.Tidy ds w s' := by
  obtain ⟨env, hbound, hscoped⟩ := h.uses
  exact { h with uses := ⟨env, fun b hb => (hbound b hb).mono hk, hscoped⟩ }

namespace Store.Tidy

/-- A store with new closures and with names that are declared. -/
theorem grow (h : s.Tidy ds w) (hk : s.Keeps s')
    (hnames : ∀ {f : FrameId} {fr : Frame} {x : String} {slot : Slot},
      s'.frames[f]? = some fr → fr.slots.find? x = some slot → MayHold ds fr.site x slot)
    (hclosures : ∀ {c : ClosureId} {closure : Closure}, s'.closures[c]? = some closure →
      s.closures[c]? = some closure ∨ closure.Tidy ds w s') : s'.Tidy ds w :=
  ⟨hnames, fun hc => (hclosures hc).elim (fun hc => (h.closures hc).mono hk) id⟩

/-- A store that grows in other parts than its frames and closures. -/
theorem of_extends (h : s.Tidy ds w) (he : s.Extends s') (hframes : s'.frames = s.frames)
    (hclosures : s'.closures = s.closures) : s'.Tidy ds w :=
  h.grow (he.keeps hframes) (by rw [hframes]; exact h.names)
    (by rw [hclosures]; exact .inl)

theorem pushFrame (h : s.Tidy ds w) {fr : Frame}
    (hnames : ∀ x slot, fr.slots.find? x = some slot → MayHold ds fr.site x slot) :
    Store.Tidy ds w { s with frames := s.frames.push fr } := by
  refine h.grow (s.keeps_pushFrame fr) (fun {f fr' x slot} hfr hx => ?_) .inl
  rw [Array.getElem?_push] at hfr
  split at hfr
  · cases hfr
    exact hnames x slot hx
  · exact h.names hfr hx

theorem newFrame (h : s.Tidy ds w) (site : Site) (parent : Option FrameId) :
    (s.newFrame site parent).2.Tidy ds w :=
  h.pushFrame fun _ _ hx => nomatch hx

/-- The names after one has been bound where it is declared. -/
theorem names_define (h : s.Tidy ds w)
    (hx : ∀ site, s.site? f = some site → MayHold ds site x slot) {g : FrameId} {fr : Frame}
    {y : String} {slot' : Slot} (hfr : (s.define f x slot).frames[g]? = some fr)
    (hy : fr.slots.find? y = some slot') : MayHold ds fr.site y slot' := by
  rw [getElem?_define] at hfr
  split at hfr
  · next heq =>
    subst heq
    obtain ⟨fr', hfr', rfl⟩ := Option.map_eq_some_iff.mp hfr
    dsimp only at hy ⊢
    rw [Table.find?_insert] at hy
    split at hy
    · next heq =>
      cases hy
      exact heq ▸ hx fr'.site (by simp [site?, hfr'])
    · exact h.names hfr' hy
  · exact h.names hfr hy

theorem define (h : s.Tidy ds w)
    (hx : ∀ site, s.site? f = some site → MayHold ds site x slot) :
    (s.define f x slot).Tidy ds w :=
  h.grow (s.keeps_define f x slot) (h.names_define hx) .inl

/-- What a frame holds is what its construct may hold. -/
theorem mayHold (h : s.Tidy ds w) (hx : s.slot? f x = some slot) {site : Site}
    (hsite : s.site? f = some site) : MayHold ds site x slot := by
  obtain ⟨fr, hfr, hx⟩ := Option.bind_eq_some_iff.mp hx
  rw [site?, hfr, Option.map_some, Option.some.injEq] at hsite
  exact hsite ▸ h.names hfr hx

/-- A name that a frame holds is declared by its construct. -/
theorem of_slot? (h : s.Tidy ds w) (hx : (s.slot? f x).isSome) {site : Site}
    (hsite : s.site? f = some site) : DeclaredAt ds site x := by
  obtain ⟨slot, hslot⟩ := Option.isSome_iff_exists.mp hx
  exact (h.mayHold hslot hsite).declared

/-- A new closure, whose names are bound. -/
theorem newClosure (h : s.Tidy ds w) {closure : Closure} (hc : closure.Tidy ds w s) :
    (s.newClosure closure).2.Tidy ds w := by
  have hk : s.Keeps (s.newClosure closure).2 := (s.extends_newClosure closure).keeps rfl
  refine h.grow hk h.names fun {c closure'} hc' => ?_
  simp only [Store.newClosure, Array.getElem?_push] at hc'
  split at hc'
  · cases hc'
    exact .inr (hc.mono hk)
  · exact .inl hc'

/-- New closures that are declared under a name: they may use the name. -/
theorem declare (h : s.Tidy ds w) (he : s.Extends s') (hframes : s'.frames = s.frames)
    {cs : List Closure} (hcs : s'.closures = (s.addClosures cs).closures)
    (hx : ∀ site, s.site? f = some site → MayHold ds site x slot)
    (htidy : ∀ closure ∈ cs, closure.Tidy ds w (s'.define f x slot)) :
    (s'.define f x slot).Tidy ds w := by
  have hdefine : (s'.define f x slot).frames = (s.define f x slot).frames := by
    simp only [Store.define, hframes]
  refine h.grow ((he.keeps hframes).trans (s'.keeps_define f x slot)) ?_ fun {c closure} hc => ?_
  · rw [hdefine]
    exact h.names_define hx
  · have hc' : (s.addClosures cs).closures[c]? = some closure := hcs ▸ hc
    exact (getElem?_addClosures hc').imp_right (htidy closure)

/-- A method that is bound: its frame holds `this`, and it uses what it used before. -/
theorem bind (h : s.Tidy ds w) {c : ClosureId} {closure : Closure}
    (hc : s.closures[c]? = some closure) (receiver : Value) :
    (s.bind closure receiver).2.Tidy ds w := by
  have hclosure := h.closures hc
  obtain ⟨k, hk⟩ := hclosure.home
  obtain ⟨env, hbound, hscoped⟩ := hclosure.uses
  rw [bind_eq]
  refine (h.pushFrame fun x slot hx => ?_).newClosure
    { hclosure with uses := ⟨env, fun b hb => ?_, hscoped⟩ }
  · rw [Table.find?_insert] at hx
    split at hx
    · next heq =>
      cases hx
      exact DeclaredAt.mayHold (.inr (.inl ⟨k, hk, heq.symm⟩)) receiver
    · cases hx
  · refine .outer ?_ ((hbound b hb).mono (s.keeps_pushFrame _))
    rw [parent?, Array.getElem?_push_size]
    rfl

end Store.Tidy

/-! ### The frame that holds a name -/

namespace Store

variable {s : Store} {f g : FrameId} {x : String} {sites : List Site}

/-- Frames are counted along the chain. -/
theorem Chained.ancestor?_eq (h : s.Chained g f sites) (d : Nat) :
    s.ancestor? f d = (s.chain f)[d]? := by
  have hfrom : ∀ n, f ≤ n → s.ancestor? f d = (s.chainFrom n f)[d]? := by
    induction h generalizing d with
    | root h hp =>
      intro n _
      cases n <;> cases d <;> simp [chainFrom, ancestor?, parent?, h, hp]
    | @link f p fr sites h hp hlt hrest ih =>
      intro n hn
      cases n with
      | zero => exact absurd (Nat.lt_of_lt_of_le hlt hn) (Nat.not_lt_zero p)
      | succ n =>
        have hparent : s.parent? f = some p := by simp [parent?, h, hp]
        rw [chainFrom, hparent]
        cases d with
        | zero => rfl
        | succ d =>
          rw [ancestor?, hparent]
          exact ih d n (Nat.le_of_lt_succ (Nat.lt_of_lt_of_le hlt hn))
  exact hfrom _ (Nat.le_of_lt h.lt_size)

/-- A name that is bound around a frame is held by a frame of its chain. -/
theorem Bound.exists_ancestor? {b : Binding} (h : s.Bound b f) :
    ∃ d f', s.ancestor? f d = some f' ∧ s.site? f' = some b.1 ∧ (s.slot? f' b.2).isSome := by
  induction h with
  | @here f hsite h => exact ⟨0, f, rfl, hsite, h⟩
  | @outer f p hp _ ih =>
    obtain ⟨d, f', hf', hheld⟩ := ih
    exact ⟨d + 1, f', by rw [ancestor?, hp]; exact hf', hheld⟩

theorem Bound.isSome_holder? {site : Site} (h : s.Bound (site, x) f)
    (hchain : s.Chained g f sites) : (s.holder? f x).isSome := by
  obtain ⟨d, f', hf', -, hx⟩ := h.exists_ancestor?
  rw [hchain.ancestor?_eq] at hf'
  rw [holder?, List.find?_isSome]
  exact ⟨f', List.mem_of_getElem? hf', hx⟩

/-- A frame of a chain is an activation of the construct at its place. -/
theorem Chained.exists_site (h : s.Chained g f sites) {j : Nat} {f' : FrameId}
    (hj : (s.chain f)[j]? = some f') : ∃ site, sites[j]? = some site ∧ s.site? f' = some site := by
  have hmap : ((s.chain f).map s.site?)[j]? = (sites.map some)[j]? := by rw [h.map_site?_chain]
  rw [List.getElem?_map, List.getElem?_map, hj, Option.map_some] at hmap
  obtain ⟨site, hsite, heq⟩ := Option.map_eq_some_iff.mp hmap.symm
  exact ⟨site, hsite, heq.symm⟩

/-- If a construct has a single activation in the chain, then this holds what is bound. -/
theorem Bound.isSome_slot? {site : Site} (h : s.Bound (site, x) f)
    (hchain : s.Chained g f sites) (hsites : sites.Nodup) {d : Nat} {f' : FrameId}
    (hf' : s.ancestor? f d = some f') (hsite : s.site? f' = some site) :
    (s.slot? f' x).isSome := by
  obtain ⟨j, f'', hf'', hsite'', hx⟩ := h.exists_ancestor?
  rw [hchain.ancestor?_eq] at hf' hf''
  obtain ⟨σ, hd, hσ⟩ := hchain.exists_site hf'
  obtain ⟨σ', hj, hσ'⟩ := hchain.exists_site hf''
  cases hsite.symm.trans hσ
  cases hsite''.symm.trans hσ'
  have hdj : d = j := (List.getElem?_inj (List.getElem?_eq_some_iff.mp hd).1 hsites).mp
    (hd.trans hj.symm)
  rw [hdj, hf''] at hf'
  exact Option.some.inj hf' ▸ hx

/-- The frame that holds a name is the first of the chain that does. -/
theorem exists_of_holder? {f' : FrameId} (h : s.holder? f x = some f') :
    (s.slot? f' x).isSome ∧ ∃ j : Nat, (s.chain f)[j]? = some f'
      ∧ ∀ i < j, ∀ f'' ∈ (s.chain f)[i]?, s.slot? f'' x = none := by
  obtain ⟨hslot, j, hj, rfl, hfirst⟩ := List.find?_eq_some_iff_getElem.mp h
  refine ⟨hslot, j, List.getElem?_eq_getElem hj, fun i hi f'' hf'' => ?_⟩
  obtain ⟨_, rfl⟩ := List.getElem?_eq_some_iff.mp hf''
  simpa using hfirst i hi

/-- The frame that holds a name, if it can only be one of the chain. -/
theorem holder?_eq (hg : g ∈ s.chain f) (h : ∀ f', s.holder? f x = some f' → f' = g) :
    s.holder? f x = if (s.slot? g x).isSome then some g else none := by
  cases hholder : s.holder? f x with
  | none =>
    have hnone := List.find?_eq_none.mp hholder g hg
    rw [if_neg hnone]
  | some f' =>
    have hsome := List.find?_some hholder
    rw [h f' hholder] at hsome ⊢
    rw [if_pos hsome]

theorem read_eq (hg : g ∈ s.chain f) (h : ∀ f', s.holder? f x = some f' → f' = g) :
    s.read f x = .ofSlot? (s.slot? g x) := by
  rw [read, holder?_eq hg h]
  cases hslot : s.slot? g x with
  | none => rfl
  | some slot => simp [hslot]

/-- Nothing is around the outermost frame, so it holds a name itself. -/
theorem Chained.holder?_root (h : s.Chained g f sites) :
    s.holder? g x = if (s.slot? g x).isSome then some g else none := by
  have hroot : s.parent? g = none := by
    induction h with
    | root h hp => simp [parent?, h, hp]
    | link _ _ _ _ ih => exact ih
  have hchain : s.chain g = [g] := by
    unfold chain
    cases s.frames.size with
    | zero => rfl
    | succ n => rw [chainFrom, hroot]
  rw [holder?, hchain, List.find?_singleton]

theorem Chained.read_root (h : s.Chained g f sites) : s.read g x = .ofSlot? (s.slot? g x) := by
  rw [read, h.holder?_root]
  cases hslot : s.slot? g x with
  | none => rfl
  | some slot => simp [hslot]

end Store

end LoxLang
