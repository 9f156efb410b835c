import LoxLang.Proofs.Interpreter.Bindings
import LoxLang.Proofs.Machine.Receivers
import LoxLang.Proofs.Scope.Receiver

/-!
# What `this` stands for

In every session, `this` stands for the object to which the method around it is bound, in the
call in which it is read.  That is so wherever the bound method went before it was called, and
also in functions that were made in a method and are called later.  A class that is called
gives its new object, and so does a method that initializes objects.

## Main definitions

* `Machine.Seat` — a machine that looks up `this` is in a call of a method.
* `ThisBound` — `this` is the object to which the method around it is bound.

## Main results

* `Reached.receptive` — stores are receptive in every session.
* `Reached.this_bound` — **`this` stands for the receiver of the method around it.**
-/

namespace LoxLang

/-- A machine that looks up `this` is in a call of a method.  Around the word stand the function
`j`, which is a method of the class `k`, and within it no other class.  The frame `g` is the
activation of `j` on the way out from the current frame, and it is within the frame `f`. -/
def Machine.Seat (runs : List Run) (m : Machine) (t : Token) (g f : FrameId) : Prop :=
  t.lexeme = "this" ∧ ∃ r ∈ runs, ∃ v ∈ r.visits, v.name = t ∧ ∃ inner j k outer,
    v.scopes.map Scope.site = inner ++ .function j :: .receiver k :: outer
      ∧ (∀ site ∈ inner, ∀ l, site ≠ .receiver l)
      ∧ m.distances.find? t.position = some (inner.length + 1)
      ∧ m.store.ancestor? m.current inner.length = some g ∧ m.store.site? g = some (.function j)
      ∧ m.store.parent? g = some f ∧ m.store.site? f = some (.receiver k)

/-- The word `this` is looked up in a call of a method. -/
def ThisSeated (runs : List Run) (m : Machine) (t : Token) : Prop :=
  t.kind = .kwThis → ∃ g f, m.Seat runs t g f

/-- The store is receptive.  The word `this` is looked up in a call of a method, which is bound
to an object, and its value is this object. -/
def ThisBound (runs : List Run) (m : Machine) (t : Token) : Prop :=
  m.store.Receptive ∧ (t.kind = .kwThis → ∃ g f c o, m.Seat runs t g f ∧ m.store.Activates g c
    ∧ m.store.BoundTo c o ∧ Naming.byDistance.value m t = .ok (.object o))

noncomputable instance (runs : List Run) (m : Machine) (t : Token) :
    Decidable (ThisSeated runs m t) := Classical.propDecidable _

noncomputable instance (runs : List Run) (m : Machine) (t : Token) :
    Decidable (ThisBound runs m t) := Classical.propDecidable _

variable {depth rounds : Nat} {runs : List Run} {i : Interpreter} {r : Run} {m : Machine}
  {t : Token} {v : Visit} {program : Program} {g f : FrameId}

/-! ### Where `this` is looked up -/

/-- The frame one step further out. -/
theorem Store.ancestor?_succ (s : Store) (f : FrameId) (d : Nat) :
    s.ancestor? f (d + 1) = (s.ancestor? f d).bind s.parent? := by
  induction d generalizing f with
  | zero => cases hp : s.parent? f <;> simp [ancestor?, hp]
  | succ d ih =>
    rw [ancestor?, ancestor?]
    cases s.parent? f with
    | none => rfl
    | some p => exact ih p

/-- The analysis looks for `this` in methods. -/
theorem Run.inMethod (hv : v ∈ r.visits) (hkind : v.name.kind = .kwThis) :
    InMethod (v.scopes.map Scope.site) := by
  cases h : r.program? with
  | none => simp [visits, h] at hv
  | some program =>
    rw [visits_eq h] at hv
    exact Analysis.seated_ofProgram _ (Interpreter.derives_of_read h).wellFormed v hv hkind

/-- Frames mirror the text, so that a machine which looks up `this` is in a call of a method. -/
theorem Machine.LooksUp.exists_seat (h : m.LooksUp runs t) (hkind : t.kind = .kwThis) :
    ∃ g f, m.Seat runs t g f := by
  obtain ⟨m₀, next, p, k, site, env, h, hm, hat, ht, hw⟩ := h
  obtain ⟨v, hv, rfl, hchain, hsites, hdistance⟩ := ht.exists_visit h.find?_distances hat
  obtain ⟨r, hr, hvr⟩ := List.mem_flatMap.mp hv
  have hlexeme : v.name.lexeme = "this" := Lexed.lexeme_eq_this (Run.name_mem_tokens hvr) hkind
  obtain ⟨inner, j, k, outer, heq, hinner, hd⟩ := (Run.inMethod hvr hkind).exists_distance
    (proper_of_mem_visits (List.Subset.refl _) v hv) name_ne_this_of_mem hlexeme
  have hall : v.sites = inner ++ .function j :: .receiver k :: (outer ++ [.globals]) := by
    rw [Visit.sites, heq, List.append_assoc]
    rfl
  rw [hall] at hchain
  obtain ⟨g, hg, hgsite⟩ := hchain.ancestor?_eq_some
    (d := inner.length) (by rw [List.length_append, List.length_cons]; omega)
  obtain ⟨f, hf, hfsite⟩ := hchain.ancestor?_eq_some
    (d := inner.length + 1) (by rw [List.length_append, List.length_cons, List.length_cons]; omega)
  rw [List.getElem?_append_right (Nat.le_refl _), Nat.sub_self] at hgsite
  rw [List.getElem?_append_right (Nat.le_add_right _ 1), Nat.add_sub_cancel_left] at hfsite
  rw [Store.ancestor?_succ, hg, Option.bind_some] at hf
  exact ⟨g, f, hlexeme, r, hr, v, hvr, rfl, inner, j, k, outer, heq, hinner, hdistance.trans hd,
    hg, hgsite, hf, hfsite⟩

/-- In a receptive store, the method is bound to an object, and `this` is this object. -/
theorem Machine.Seat.exists_boundTo (h : m.Seat runs t g f) (hm : m.store.Receptive) :
    ∃ c o, m.store.Activates g c ∧ m.store.BoundTo c o
      ∧ Naming.byDistance.value m t = .ok (.object o) := by
  obtain ⟨hlexeme, r, -, v, -, rfl, inner, j, k, outer, -, -, hd, hg, hgsite, hf, hfsite⟩ := h
  obtain ⟨c, o, hactivates, hbound, hthis⟩ := hm.exists_boundTo hgsite hf hfsite
  refine ⟨c, o, hactivates, hbound, ?_⟩
  have hancestor : m.store.ancestor? m.current (inner.length + 1) = some f := by
    rw [Store.ancestor?_succ, hg, Option.bind_some, hf]
  simp only [Naming.byDistance, hd, Store.readAt?, hancestor, hlexeme, Option.map_some, hthis]
  rfl

/-- Looking names up with either guard is the same in receptive stores. -/
theorem Naming.sameIn_thisBound (runs : List Run) :
    Naming.SameIn sparesThis Store.Receptive (Naming.byDistance.guarded (ThisSeated runs))
      (Naming.byDistance.guarded (ThisBound runs)) := by
  refine .of_receptive fun m t hm => ?_
  have hiff : ThisBound runs m t ↔ ThisSeated runs m t := by
    refine ⟨fun h hkind => ?_, fun h => ⟨hm, fun hkind => ?_⟩⟩
    · obtain ⟨g, f, -, -, hseat, -⟩ := h.2 hkind
      exact ⟨g, f, hseat⟩
    · obtain ⟨g, f, hseat⟩ := h hkind
      obtain ⟨c, o, hbound⟩ := hseat.exists_boundTo hm
      exact ⟨g, f, c, o, hseat, hbound⟩
  simp only [Naming.guarded, hiff, and_self]

/-! ### Receptive stores -/

/-- No text declares or uses a name that is written like `this`. -/
theorem Run.obeys_sparesThis (hprogram : r.program? = some program) :
    ∀ s ∈ program, s.Obeys sparesThis := by
  have hadmits : sparesThis.Admits program.declarations (stmtsAccesses program)
      (stmtsExposed .empty program) := by
    refine ⟨fun d hd => ?_, fun u hu hthis => ?_, fun _ _ => trivial⟩
    · rw [← declarations_eq hprogram] at hd
      exact name_ne_this hd
    · obtain ⟨hmem, hkind⟩ := (Interpreter.derives_of_read hprogram).used u hu
      have hkeyword := Lexed.keyword?_eq_none (List.mem_append_left _ hmem) hkind
      rw [hthis] at hkeyword
      cases hkeyword
  exact obey_of_stmts hadmits

/-- The only frame before any text is the global one. -/
theorem Store.receptive_initial (clock : Clock) : (Machine.initial clock).store.Receptive := by
  have hsite : ∀ {f : FrameId} {site : Site},
      (Machine.initial clock).store.site? f = some site → site = .globals := by
    intro f site h
    cases f with
    | zero =>
      cases h
      rfl
    | succ f => cases h
  refine ⟨fun c closure hc => ?_, fun h => ?_, fun h => ?_⟩
  · cases hc
  · cases hsite h
  · cases hsite h

/-- Running a text changes a receptive store in steps. -/
theorem Run.steps (hr : r.before.machine.store.Receptive) :
    r.before.machine.store.Steps sparesThis r.result.1.machine.store := by
  rcases r.machine_cases with heq | ⟨program, hprogram, -, hends⟩
  · rw [heq]
  · have hsame : Naming.SameIn sparesThis _ r.before.limits.naming _ :=
      .of_receptive fun _ _ _ => ⟨rfl, rfl⟩
    exact (Store.Receptive.kept.runProgram_stays hsame (Run.obeys_sparesThis hprogram)
      (m := { r.before.machine with
        distances := (Analysis.ofProgram program r.before.machine.distances).distances })
      hr).2 _ hends

/-- Stores are receptive in every session. -/
theorem Reached.receptive (h : Reached depth rounds runs i) : i.machine.store.Receptive := by
  induction h with
  | start h =>
    show Store.Receptive _
    rw [(Interpreter.start_eq_ok h).1]
    exact Store.receptive_initial _
  | @take runs i r _ hr ih =>
    rw [← hr.before_eq.1] at ih
    exact Store.Receptive.kept.steps ih (Run.steps ih)
  | meanwhile _ _ _ _ ih => exact ih

/-! ### Sessions -/

/-- **`this` stands for the receiver of the method around it.**

A run in which every look-up of `this` is guarded by its value being the object to which the
method around it is bound, in the call in which it is read, is the same run.  Bound methods stay
bound to their objects.  Stores are receptive all along, and on every machine with such a store a
method is bound to the object it was found at, a class that is called gives a new object to which
the method that initializes it was bound, and this method itself gives the object it is bound
to. -/
theorem Reached.this_bound (h : Reached depth rounds runs i) (hr : i.Takes r) :
    let limits : Limits :=
      { depth, rounds, naming := Naming.byDistance.guarded (ThisBound (runs ++ [r])) }
    { r.before with limits }.process r.source r.line = ({ r.result.1 with limits }, r.result.2)
      ∧ r.result.2 ≠ .aborted .dangling
      ∧ r.before.machine.store.Receptive ∧ r.result.1.machine.store.Receptive
      ∧ (∀ c o, r.before.machine.store.BoundTo c o → r.result.1.machine.store.BoundTo c o)
      ∧ ∀ (m : Machine) (limits : Limits) (d : Nat), m.store.Receptive → m.Dispatches limits d := by
  intro limits
  have hbefore : r.before.machine.store.Receptive := hr.before_eq.1 ▸ h.receptive
  refine ⟨Run.process_eq ?_, h.ne_dangling hr, hbefore, (h.take hr).receptive, fun c o hbound => ?_,
    fun m limits d hm => hm.dispatches limits d⟩
  · intro program hprogram analysis m hclean
    let seated : Limits :=
      { depth, rounds, naming := Naming.byDistance.guarded (ThisSeated (runs ++ [r])) }
    have hseated : runProgram seated program m = runProgram r.before.limits program m :=
      h.runProgram_guarded hr hprogram hclean fun _ _ h hkind => h.exists_seat hkind
    have hsame : Naming.SameIn sparesThis Store.Receptive seated.naming limits.naming :=
      Naming.sameIn_thisBound (runs ++ [r])
    have hstays := Store.Receptive.kept.runProgram_stays hsame (Run.obeys_sparesThis hprogram)
      (m := m) hbefore
    exact hstays.1.trans hseated
  · exact hbound.mono (Run.steps hbefore)

/-- A method that is inherited, bound to one object and kept by another, makes a function that
gives its receiver; and a method that initializes objects, called again, returns early. -/
theorem Reached.this_bound_kept_elsewhere :
    let r := (Interpreter.terminal 40 1).entry
      ("class A \x7b init(x) \x7b this.x = x; return; \x7d"
        ++ " me(p) \x7b return fun() \x7b return this; \x7d; \x7d \x7d"
        ++ " class B < A \x7b\x7d var b = B(\"v\"); var c = B(\"w\"); c.me = b.me;") 1
    let r' := r.result.1.entry "print c.me(nil)().x; print b.init(\"z\").x; print b.x;" 1
    let limits : Limits :=
      { depth := 40, rounds := 1, naming := Naming.byDistance.guarded (ThisBound ([r] ++ [r'])) }
    r'.result.1.machine.output = "v\nz\nz\n"
      ∧ { r'.before with limits }.process r'.source r'.line
        = ({ r'.result.1 with limits }, r'.result.2) := by
  intro r r' limits
  have hreached : Reached 40 1 [r] r.result.1 := (Reached.terminal 40 1).take (.entry r.source 1)
  have houtput : r'.result.1.machine.output = "v\nz\nz\n" := by decide +kernel
  have htakes : r.result.1.Takes r' := .entry r'.source 1
  exact ⟨houtput, (hreached.this_bound htakes).1⟩

end LoxLang
