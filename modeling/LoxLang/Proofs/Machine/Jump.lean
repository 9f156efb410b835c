import LoxLang.Proofs.Machine.Mirror

/-!
# Jumps

A statement ends by a jump only if the jump stands in it, in the same function, and for
`break` and `continue` in the same loop.  Loops take the jumps that concern them, and what
is left for the call of a function are the returns of its own body.

Where every jump stands in what it is to leave, no jump is left over.

## Main definitions

* `Yields` — what holds of the results of an action, whatever the machine.
* `Completion.JumpsFrom` — a statement ends because of what occurs in it.
* `Occurrence.JumpFits` — a jump stands in what it is to leave.

## Main results

* `exec_yields`, `runAll_yields` — statements end because of what occurs in them.
* `exec_while_yields` — no jump but a return leaves a loop.
* `laws_of_jumps` — jumps that fit give no faults.
-/

namespace LoxLang

/-! ### Results -/

/-- Whatever the machine, the results of an action satisfy `Q`. -/
def Yields {α : Type} (x : EvalM α) (Q : α → Prop) : Prop :=
  ∀ m a m', x m = .ok a m' → Q a

namespace Yields

variable {α β : Type} {x : EvalM α} {Q Q' : α → Prop} {P : β → Prop}

theorem mono (h : Yields x Q) (hQ : ∀ a, Q a → Q' a) : Yields x Q' := fun m a m' hx =>
  hQ a (h m a m' hx)

theorem pure {a : α} (h : Q a) : Yields (Pure.pure a) Q := by
  rintro m _ _ ⟨⟩
  exact h

theorem throw (f : Fault) : Yields (MonadExcept.throw f) Q := by
  rintro m a m' ⟨⟩

/-- Actions that follow each other. -/
theorem bind {k : α → EvalM β} (h : Yields x Q) (hk : ∀ a, Q a → Yields (k a) P) :
    Yields (x >>= k) P := by
  intro m b m' hb
  simp only [Bind.bind, EStateM.bind] at hb
  cases hx : x m with
  | ok a m₁ =>
    rw [hx] at hb
    exact hk a (h m a m₁ hx) m₁ b m' hb
  | error f m₁ =>
    rw [hx] at hb
    cases hb

/-- An action after one whose result does not matter. -/
theorem after {k : α → EvalM β} (hk : ∀ a, Yields (k a) P) : Yields (x >>= k) P :=
  bind (Q := fun _ => True) (fun _ _ _ _ => trivial) fun a _ => hk a

/-- An action in another frame. -/
theorem inFrame (f : FrameId) (h : Yields x Q) : Yields (inFrame f x) Q := by
  intro m a m' ha
  rw [inFrame_eq] at ha
  cases hx : x { m with current := f } with
  | ok b m₁ =>
    rw [hx] at ha
    cases ha
    exact h _ _ _ hx
  | error e m₁ =>
    rw [hx] at ha
    cases ha

end Yields

/-! ### Where jumps come from -/

/-- A statement at a place ends because of what occurs in it: a jump stands in the same
function, and unless it is a return, in the same loop. -/
def Completion.JumpsFrom (occs : List Occurrence) (p : Place) : Completion → Prop
  | .normal => True
  | .returned keyword _ =>
      ∃ o ∈ occs, o.item = .return keyword ∧ o.place.function = p.function
  | .broke keyword =>
      ∃ o ∈ occs, o.item = .break keyword ∧ o.place.function = p.function
        ∧ o.place.loops = p.loops
  | .continued keyword =>
      ∃ o ∈ occs, o.item = .continue keyword ∧ o.place.function = p.function
        ∧ o.place.loops = p.loops

/-- What a part ends by, the whole may end by. -/
theorem Completion.JumpsFrom.mono {occs occs' : List Occurrence} {p q : Place} {c : Completion}
    (h : c.JumpsFrom occs q) (hsub : occs ⊆ occs') (hfunction : q.function = p.function)
    (hloops : q.loops = p.loops) : c.JumpsFrom occs' p := by
  cases c with
  | normal => trivial
  | returned keyword v =>
    obtain ⟨o, ho, hitem, hplace⟩ := h
    exact ⟨o, hsub ho, hitem, hplace.trans hfunction⟩
  | broke keyword =>
    obtain ⟨o, ho, hitem, hplace, hdepth⟩ := h
    exact ⟨o, hsub ho, hitem, hplace.trans hfunction, hdepth.trans hloops⟩
  | continued keyword =>
    obtain ⟨o, ho, hitem, hplace, hdepth⟩ := h
    exact ⟨o, hsub ho, hitem, hplace.trans hfunction, hdepth.trans hloops⟩

variable {limits : Limits} {d : Nat} {p : Place}

/-- Statements in order end because of what occurs in one of them. -/
theorem runAll_yields {run : Stmt → EvalM Completion}
    (h : ∀ s, Yields (run s) (Completion.JumpsFrom (s.occurrences p) p)) (ss : List Stmt) :
    Yields (runAll run ss) (Completion.JumpsFrom (stmtsOccurrences ss p) p) := by
  induction ss with
  | nil => exact .pure trivial
  | cons s ss ih =>
    rw [runAll]
    refine (h s).bind fun c hc => ?_
    have hjump : c.JumpsFrom (stmtsOccurrences (s :: ss) p) p :=
      hc.mono (List.subset_append_left _ _) rfl rfl
    cases c with
    | normal => exact ih.mono fun c hc => hc.mono (List.subset_append_right _ _) rfl rfl
    | returned | broke | continued => exact .pure hjump

/-- A loop ends normally, or returns as one of its rounds does. -/
theorem repeatWhile_yields {condition : EvalM Bool} {round : EvalM Completion}
    {increment : EvalM Unit} {Q : Completion → Prop} (h : Yields round Q) (n : Nat) :
    Yields (repeatWhile condition round increment n) fun c =>
      c = .normal ∨ ∃ keyword v, c = .returned keyword v ∧ Q c := by
  induction n with
  | zero => exact .throw _
  | succ n ih =>
    rw [repeatWhile]
    refine .after fun holds => ?_
    cases holds with
    | false => exact .pure (.inl rfl)
    | true =>
      refine h.bind fun c hc => ?_
      cases c with
      | broke keyword => exact .pure (.inl rfl)
      | returned keyword v => exact .pure (.inr ⟨keyword, v, rfl, hc⟩)
      -- both go on with the increment and the next round
      | normal | continued => exact .after fun _ => ih

/-- A loop statement ends normally, or returns as its body does. -/
theorem exec_while_yields {Q : Completion → Prop} {body : Stmt}
    (h : Yields (exec limits d body) Q) (condition : Expr) (increment : Option Expr) :
    Yields (exec limits (d + 1) (.while condition body increment)) fun c =>
      c = .normal ∨ ∃ keyword v, c = .returned keyword v ∧ Q c := by
  cases increment <;>
  · rw [exec]
    exact repeatWhile_yields h _

/-- A statement ends because of what occurs in it. -/
theorem exec_yields (limits : Limits) (d : Nat) (s : Stmt) (p : Place) :
    Yields (exec limits d s) (Completion.JumpsFrom (s.occurrences p) p) := by
  induction d generalizing s p with
  | zero =>
    rw [exec]
    exact .throw _
  | succ d ih =>
    cases s with
    | expression e =>
      rw [exec]
      exact .after fun _ => .pure trivial
    | print e =>
      rw [exec]
      exact .after fun _ => .after fun _ => .after fun _ => .pure trivial
    | var name initializer =>
      cases initializer with
      | none =>
        rw [exec]
        exact .after fun _ => .pure trivial
      | some e =>
        rw [exec]
        exact .after fun _ => .after fun _ => .pure trivial
    | block position body =>
      rw [exec]
      refine .after fun _ => .after fun f => .inFrame f ?_
      refine (runAll_yields (fun s => ih s (p.scope (.block position))) body).mono fun c hc => ?_
      exact hc.mono (List.subset_cons_self _ _) rfl rfl
    | ifElse c t e =>
      have hthen : Yields (exec limits d t)
          (Completion.JumpsFrom ((Stmt.ifElse c t e).occurrences p) p) := by
        refine (ih t p).mono fun c hc => hc.mono ?_ rfl rfl
        cases e <;> simp [Stmt.occurrences]
      cases e with
      | none =>
        rw [exec]
        refine .after fun v => ?_
        cases v.truthy with
        | true => exact hthen
        | false => exact .pure trivial
      | some e =>
        rw [exec]
        refine .after fun v => ?_
        cases v.truthy with
        | true => exact hthen
        | false => exact (ih e p).mono fun c hc => hc.mono (by simp [Stmt.occurrences]) rfl rfl
    | «while» c body increment =>
      refine (exec_while_yields (ih body p.loop) c increment).mono ?_
      -- the loop has taken the other jumps, whose places are one loop further in
      rintro _ (rfl | ⟨keyword, v, rfl, o, ho, hitem, hplace⟩)
      · trivial
      · refine ⟨o, ?_, hitem, hplace⟩
        cases increment <;> simp [Stmt.occurrences, ho]
    | «break» keyword =>
      rw [exec]
      exact .pure ⟨_, List.mem_singleton_self _, rfl, rfl, rfl⟩
    | «continue» keyword =>
      rw [exec]
      exact .pure ⟨_, List.mem_singleton_self _, rfl, rfl, rfl⟩
    | function f =>
      rw [exec]
      exact .after fun _ => .after fun _ => .after fun _ => .pure trivial
    | «return» keyword value =>
      cases value with
      | none =>
        rw [exec]
        exact .pure ⟨_, List.mem_singleton_self _, rfl, rfl⟩
      | some e =>
        rw [exec]
        exact .after fun _ => .pure ⟨_, List.mem_cons_self, rfl, rfl⟩
    | classDecl name superclass methods statics =>
      rw [exec]
      exact .after fun _ => .after fun _ => .pure trivial

/-! ### Jumps that fit -/

/-- A jump stands in what it is to leave. -/
def Occurrence.JumpFits (o : Occurrence) : Prop :=
  match o.item with
  | .break _ => 0 < o.place.loops
  | .continue _ => 0 < o.place.loops
  | .return _ => o.place.function.isSome
  | _ => True

/-- The analysis makes sure that jumps fit. -/
theorem Occurrence.Checked.jumpFits {vs : List Visit} {o : Occurrence} (h : o.Checked vs) :
    o.JumpFits := by
  obtain ⟨p, i⟩ := o
  cases i with
  | «break» | «continue» | «return» => exact h
  | _ => trivial

/-- A fault that is not a jump with nothing to leave. -/
def Fault.IsPlain (f : Fault) : Prop := ∀ cause token, f = .at cause token → cause.IsPlain

theorem RuntimeCause.IsPlain.fault {cause : RuntimeCause} {token : Token} (h : cause.IsPlain) :
    (Fault.at cause token).IsPlain := by
  rintro _ _ ⟨⟩
  exact h

/-- Jumps that fit give no faults. -/
theorem laws_of_jumps (D : Distances) :
    Laws Occurrence.JumpFits Fault.IsPlain D .byDistance .byDistance where
  value hm _ := by
    refine ⟨rfl, fun v hv => knows_of_byDistance hm.toOk hv, fun f hf => ?_⟩
    rcases error_of_byDistance hf with ⟨cause, hcause, rfl⟩ | ⟨d, -, -, rfl⟩
    · exact hcause.fault
    · rintro _ _ ⟨⟩
  target _ _ := by
    refine ⟨rfl, fun f hf => ?_⟩
    rcases error_of_byDistance_target hf with ⟨cause, hcause, rfl⟩ | ⟨d, -, -, rfl⟩
    · exact hcause.fault
    · rintro _ _ ⟨⟩
  blame _ _ hcause := hcause.fault
  binary _ hf := by
    rcases error_of_applyBinary hf with ⟨cause, hcause, rfl⟩ | ⟨-, rfl⟩
    · exact hcause.fault
    · rintro _ _ ⟨⟩
  overflow := by rintro _ _ ⟨⟩
  endless := by rintro _ _ ⟨⟩
  breaks ho := ho
  continues ho := ho
  returns ho := ho

end LoxLang
