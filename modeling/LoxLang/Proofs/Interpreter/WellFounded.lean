import LoxLang.Proofs.Interpreter.Session
import LoxLang.Proofs.Machine.Effects
import LoxLang.Proofs.Store.Lineage

/-!
# Ways out of frames and up from classes

In every session, the way out of each frame ends at the global frame, and the way up from
each class ends at a class that inherits from none.  That is so between texts and whenever a
name is looked up, whatever classes were declared, declared anew or assigned to.  Look-ups
by walking and the search for methods therefore come to an end.

A class that is there keeps its superclass and its methods, so the method that is found for it
under a name is always the same.

## Main definitions

* `Machine.WellFounded` — ways out of frames and up from classes end.
* `Interpreter.Next` — an interpreter takes one more text, or something happens between texts.

## Main results

* `Reached.heap_wellFounded` — **ways end in every session, and what is found on them does
  not change.**
-/

namespace LoxLang

/-- The way out of each frame ends at the global frame, and classes inherit from older ones, so
that the way up from each class ends as well.  No way comes anywhere twice. -/
def Machine.WellFounded (m : Machine) : Prop :=
  (∀ f < m.store.frames.size, IsWholeWay m.store.parent? f (m.store.chain f)
      ∧ (m.store.chain f).getLast? = some m.globals)
    ∧ ∀ k < m.store.classes.size, IsWholeWay m.store.superclass? k (m.store.lineage k)
      ∧ ∀ k' ∈ m.store.superclass? k, k' < k

instance (m : Machine) : Decidable m.WellFounded := inferInstanceAs (Decidable (_ ∧ _))

/-- What may happen to an interpreter in a session. -/
inductive Interpreter.Next (i : Interpreter) : Interpreter → Prop
  /-- It takes one more text. -/
  | take {r : Run} (hr : i.Takes r) : i.Next r.result.1
  /-- Something happens between texts. -/
  | meanwhile (log : Log) (output : String) (clock : Clock) :
      i.Next (i.meanwhile log output clock)

variable {depth rounds : Nat} {runs : List Run} {i : Interpreter} {r : Run} {m : Machine}
  {R : Occurrence → Prop}

/-! ### Sound machines -/

theorem Store.Sound.older {g : FrameId} {s : Store} (h : s.Sound R g) : s.Older := by
  intro k k' hk'
  unfold Store.superclass? at hk'
  simp only [Option.bind_eq_bind, Option.bind_eq_some_iff] at hk'
  obtain ⟨c, hc, hsuper⟩ := hk'
  exact h.superclasses hc hsuper

/-- A sound machine is well-founded, since frames and classes refer to older ones. -/
theorem Store.Sound.wellFounded (h : m.store.Sound R m.globals) : m.WellFounded := by
  refine ⟨fun f hf => ?_, fun k hk => ⟨h.older.isWholeWay_lineage hk, h.older k⟩⟩
  obtain ⟨sites, hchain⟩ := h.frames (Array.getElem?_eq_getElem hf)
  refine ⟨?_, hchain.getLast?_chain⟩
  rw [Store.chain, Store.chainFrom_eq_walk]
  exact isWholeWay_walk (Store.parent?_lt h.frames) (Nat.le_of_lt hf)

theorem Machine.WellFounded.older (h : m.WellFounded) : m.store.Older := by
  intro k k' hk'
  have hk : k < m.store.classes.size := by
    refine Nat.lt_of_not_le fun hle => ?_
    simp [Store.superclass?, Array.getElem?_eq_none hle] at hk'
  exact (h.2 k hk).2 k' hk'

/-! ### Sessions -/

/-- Taking a text lets the store grow. -/
theorem Run.extends (r : Run) : r.before.machine.store.Extends r.result.1.machine.store := by
  rcases r.machine_cases with heq | ⟨program, -, -, hends⟩
  · rw [heq]
    exact .refl _
  · exact (((Traced.any r.before.limits.naming).runProgram_does program).changes hends).grown

/-- In every session, all that a program does may be guarded by well-foundedness. -/
theorem Reached.process_wellFounded (h : Reached depth rounds runs i) (hr : i.Takes r) :
    let limits : Limits :=
      { depth, rounds, naming := Naming.byDistance.guarded fun m _ => m.WellFounded }
    { r.before with limits }.process r.source r.line
      = ({ r.result.1 with limits }, r.result.2) := by
  intro limits
  obtain ⟨hsession, hlimits⟩ := h.session_before hr
  refine Run.process_eq ?_
  intro program hprogram analysis m hclean
  have hanalyzed := hsession.analyzed hprogram
  -- the laws hold of the frames that mirror scopes, whose machine is sound
  have laws : Laws _ (Blamed ((runs ++ [r]).flatMap Run.tokens)) m.distances
      Naming.byDistance Naming.byDistance :=
    laws_of_visits hanalyzed.find?_distances (fun _ _ _ => rfl) fun _ _ _ => rfl
  have hguarded : Laws _ _ m.distances (Limits.mk depth rounds .byDistance).naming limits.naming :=
    laws.guarded fun hm _ => hm.sound.wellFounded
  rw [hlimits]
  exact (hguarded.runProgram_runs program hanalyzed.at_top
    (Run.rules_of_clean_append runs hprogram hclean)).1

/-- Whatever texts are taken, classes keep their superclasses and their methods. -/
theorem Reached.sameDispatch (h : Reached depth rounds runs i) {j : Interpreter}
    (hj : Relation.ReflTransGen Interpreter.Next i j) :
    i.machine.store.SameDispatch j.machine.store := by
  suffices hall : (∃ runs', Reached depth rounds runs' j)
      ∧ i.machine.store.SameDispatch j.machine.store from hall.2
  induction hj with
  | refl => exact ⟨⟨runs, h⟩, .refl _⟩
  | tail _ hnext ih =>
    obtain ⟨⟨runs', hreached⟩, hsame⟩ := ih
    cases hnext with
    | @take r hr =>
      refine ⟨⟨_, hreached.take hr⟩, hsame.trans ?_⟩
      rw [← hr.before_eq.1]
      have hsound := hreached.session.1.at_top.sound
      rw [← hr.before_eq.1] at hsound
      exact hsound.older.sameDispatch r.extends
    | meanwhile log output clock => exact ⟨⟨_, hreached.meanwhile log output clock⟩, hsame⟩

/-- **Ways end in every session, and what is found on them does not change.**

Ways end before and after each text, and wherever a name is looked up: a run in which every
look-up is guarded by that is the same run.  The method that is found for a class is that of
the nearest class up from it which declares one.  It remains the same whatever texts are
taken, and already within a text, whatever is evaluated, executed or called. -/
theorem Reached.heap_wellFounded (h : Reached depth rounds runs i) :
    i.machine.WellFounded
      ∧ (∀ r, i.Takes r →
        let limits : Limits :=
          { depth, rounds, naming := Naming.byDistance.guarded fun m _ => m.WellFounded }
        { r.before with limits }.process r.source r.line
            = ({ r.result.1 with limits }, r.result.2)
          ∧ r.result.2 ≠ .aborted .dangling)
      ∧ (∀ k name c, i.machine.store.method? k name = some c
        ↔ ∃ nearer k' rest, i.machine.store.lineage k = nearer ++ k' :: rest
          ∧ (∃ object, i.machine.store.classes[k']? = some object
            ∧ object.methods.find? name = some c)
          ∧ ∀ k'' ∈ nearer, ∀ object, i.machine.store.classes[k'']? = some object →
            object.methods.find? name = none)
      ∧ (∀ j, Relation.ReflTransGen Interpreter.Next i j →
        i.machine.store.SameDispatch j.machine.store)
      ∧ ∀ d m m', m.WellFounded →
        (∃ e, EndsIn (eval i.limits d e) m m') ∨ (∃ s, EndsIn (exec i.limits d s) m m')
            ∨ (∃ c vs, EndsIn (invoke i.limits d c vs) m m') →
          m.store.SameDispatch m'.store := by
  refine ⟨h.session.1.at_top.sound.wellFounded,
    fun r hr => ⟨h.process_wellFounded hr, h.ne_dangling hr⟩,
    i.machine.store.method?_eq_some_iff, fun j hj => h.sameDispatch hj, ?_⟩
  intro d m m' hm hend
  have hdoes := (Traced.any i.limits.naming).evaluates d
  rcases hend with ⟨e, he⟩ | ⟨s, hs⟩ | ⟨c, vs, hc⟩
  · exact hm.older.sameDispatch ((hdoes.eval e).changes he).grown
  · exact hm.older.sameDispatch ((hdoes.exec s).changes hs).grown
  · exact hm.older.sameDispatch ((hdoes.invoke c vs).changes hc).grown

/-- A class is declared anew, and so is the class it inherits from; an older object keeps the
method of its own class. -/
theorem Reached.heap_wellFounded_declared_anew :
    let r := (Interpreter.terminal 30 1).entry
      ("class A \x7b m() \x7b return fun() \x7b return \"old\"; \x7d; \x7d \x7d\n"
        ++ "class B < A \x7b\x7d var b = B();") 1
    let i := r.result.1
    let r' := i.entry "class A \x7b\x7d class C < B \x7b\x7d class B < C \x7b\x7d print b.m();" 1
    Reached 30 1 [r] i ∧ i.machine.WellFounded ∧ r'.result.1.machine.output = "old\n"
      ∧ i.machine.store.lineage 1 = [1, 0]
      ∧ r'.result.1.machine.store.lineage 4 = [4, 3, 1, 0]
      ∧ i.machine.store.SameDispatch r'.result.1.machine.store := by
  intro r i r'
  have hreached : Reached 30 1 [r] i := (Reached.terminal 30 1).take (.entry r.source 1)
  obtain ⟨hfounded, -, -, hsame, -⟩ := hreached.heap_wellFounded
  have hnext : i.Next r'.result.1 := .take (.entry r'.source 1)
  exact ⟨hreached, hfounded, by decide +kernel, by decide +kernel, by decide +kernel,
    hsame _ (.single hnext)⟩

end LoxLang
