import LoxLang.Program.OfTokens

/-!
# What a step of a reading does

A step of a reading takes some tokens off the front of the rest, records faults or
none, and gives a result, or it records a fault and stops.  `Reads` says this of a
step once and for all, together with what the result has to do with the tokens that
were taken.  The latter is promised only if no fault was recorded, for a reading that
goes on behind a fault gives trees that no tokens form.

A step may also stop because the bound on the depth of the descent is reached.  `Reads`
excludes it, so every statement of this form contains that the bound is large enough.

## Main definitions

* `Reads step r bound D` — the promise; `bound` is a strict bound on the number of tokens
  that are left.

## Main results

* `Reads.bind` — one step after another.
* `Reads.require`, `Reads.ifAccept`, `Reads.matchAccept` — steps that take one token.
-/

namespace LoxLang

variable {α β : Type}

/-- From `r`, a step gives a result and leaves fewer than `bound` tokens, or it stops with
a fault that it has recorded.  If no fault was recorded, the result, the state behind the
step and the tokens that were taken satisfy `D`. -/
def Reads (step : ReadM α) (r : Reading) (bound : Nat)
    (D : α → Reading → List Token → Prop) : Prop :=
  match step r with
  | .ok a r' =>
      r'.rest.length < bound ∧ r.faults.size ≤ r'.faults.size ∧
        ∃ used, r.rest = used ++ r'.rest ∧ (r'.faults.size = r.faults.size → D a r' used)
  | .error .fault r' => r'.rest <:+ r.rest ∧ r.faults.size < r'.faults.size
  | .error .tooDeep _ => False

/-- Steps that follow each other fail in the first one or in the second. -/
theorem ReadM.bind_eq_error {β : Type} {step : ReadM α} {next : α → ReadM β} {r r' : Reading}
    {stop : ReadStop} (h : (step >>= next) r = .error stop r') :
    step r = .error stop r' ∨ ∃ a r₁, step r = .ok a r₁ ∧ next a r₁ = .error stop r' := by
  simp only [Bind.bind, EStateM.bind] at h
  cases hs : step r with
  | ok a r₁ =>
    rw [hs] at h
    exact .inr ⟨a, r₁, rfl, h⟩
  | error stop' r₁ =>
    rw [hs] at h
    cases h
    exact .inl rfl

namespace Reads

variable {r : Reading} {bound : Nat} {D : α → Reading → List Token → Prop}

/-! ### Results, and one step after another -/

/-- A promise about a step, read off what the step gives. -/
theorem of_ok {step : ReadM α} {a : α} {r' : Reading} (h : step r = .ok a r')
    (hlen : r'.rest.length < bound) (hfaults : r.faults.size ≤ r'.faults.size)
    (used : List Token) (hused : r.rest = used ++ r'.rest)
    (hD : r'.faults.size = r.faults.size → D a r' used) : Reads step r bound D := by
  unfold Reads
  rw [h]
  exact ⟨hlen, hfaults, used, hused, hD⟩

/-- A step that stops with a fault keeps every promise. -/
theorem of_fault {step : ReadM α} {r' : Reading} (h : step r = .error .fault r')
    (hrest : r'.rest <:+ r.rest) (hfaults : r.faults.size < r'.faults.size) :
    Reads step r bound D := by
  unfold Reads
  rw [h]
  exact ⟨hrest, hfaults⟩

/-- A step that gives a result at once. -/
theorem pure {a : α} (hlen : r.rest.length < bound) (h : D a r []) :
    Reads (Pure.pure a) r bound D :=
  of_ok rfl hlen (Nat.le_refl _) [] rfl fun _ => h

/-- A step after another; what the first has taken comes before what the second takes. -/
theorem bind {step : ReadM α} {next : α → ReadM β} {b₁ : Nat}
    {E : β → Reading → List Token → Prop} (hstep : Reads step r b₁ D)
    (hnext : ∀ a r₁, r₁.rest.length < b₁ →
      Reads (next a) r₁ bound fun b r₂ vs => ∀ us, D a r₁ us → E b r₂ (us ++ vs)) :
    Reads (step >>= next) r bound E := by
  unfold Reads at hstep
  cases hs : step r with
  | error stop r₁ =>
    rw [hs] at hstep
    have hbind : (step >>= next) r = .error stop r₁ := by
      simp only [Bind.bind, EStateM.bind, hs]
    cases stop with
    | fault => exact of_fault hbind hstep.1 hstep.2
    | tooDeep => exact hstep.elim
  | ok a r₁ =>
    rw [hs] at hstep
    have hbind : (step >>= next) r = next a r₁ := by
      simp only [Bind.bind, EStateM.bind, hs]
    obtain ⟨hlen, hfaults, us, hus, hD⟩ := hstep
    have hn := hnext a r₁ hlen
    unfold Reads at hn
    cases hn' : next a r₁ with
    | ok b r₂ =>
      rw [hn'] at hn
      rw [hn'] at hbind
      obtain ⟨hlen₂, hfaults₂, vs, hvs, hE⟩ := hn
      refine of_ok hbind hlen₂ (Nat.le_trans hfaults hfaults₂) (us ++ vs) ?_ ?_
      · rw [hus, hvs, List.append_assoc]
      · -- if both recorded nothing, each kept its promise
        intro hclean
        exact hE (by omega) us (hD (by omega))
    | error stop r₂ =>
      rw [hn'] at hn
      rw [hn'] at hbind
      cases stop with
      | fault =>
        refine of_fault hbind ?_ (Nat.lt_of_le_of_lt hfaults hn.2)
        rw [hus]
        exact hn.1.trans (List.suffix_append us r₁.rest)
      | tooDeep => exact hn.elim

/-- A weaker promise. -/
theorem mono {step : ReadM α} {b₁ : Nat} {D₁ : α → Reading → List Token → Prop}
    (h : Reads step r b₁ D₁) (hlen : b₁ ≤ bound) (hD : ∀ a r' us, D₁ a r' us → D a r' us) :
    Reads step r bound D := by
  unfold Reads at h
  cases hs : step r with
  | ok a r' =>
    rw [hs] at h
    obtain ⟨hlen', hfaults, us, hus, hD₁⟩ := h
    exact of_ok hs (Nat.lt_of_lt_of_le hlen' hlen) hfaults us hus fun hc => hD _ _ _ (hD₁ hc)
  | error stop r' =>
    rw [hs] at h
    cases stop with
    | fault => exact of_fault hs h.1 h.2
    | tooDeep => exact h.elim

/-! ### Steps that look at the next token or take it -/

/-- A step that only looks at the state. -/
theorem look {γ : Type} {test : ReadM γ} {v : γ} {next : γ → ReadM α} (htest : test r = .ok v r)
    (h : Reads (next v) r bound D) : Reads (test >>= next) r bound D := by
  have hbind : (test >>= next) r = next v r := by simp only [Bind.bind, EStateM.bind, htest]
  unfold Reads at h ⊢
  rw [hbind]
  exact h

/-- A step that takes the next token and goes on behind it. -/
theorem take {step step' : ReadM α} {t : Token} {ts : List Token} (hrest : r.rest = t :: ts)
    (heq : step' r = step { r with rest := ts })
    (h : Reads step { r with rest := ts } bound fun a r' us => D a r' (t :: us)) :
    Reads step' r bound D := by
  unfold Reads at h
  cases hs : step { r with rest := ts } with
  | ok a r' =>
    rw [hs] at h
    obtain ⟨hlen, hfaults, us, hus, hD⟩ := h
    refine of_ok (heq.trans hs) hlen hfaults (t :: us) ?_ hD
    rw [hrest, List.cons_append]
    exact congrArg (t :: ·) hus
  | error stop r' =>
    rw [hs] at h
    cases stop with
    | fault =>
      refine of_fault (heq.trans hs) ?_ h.2
      rw [hrest]
      exact h.1.trans (List.suffix_cons t ts)
    | tooDeep => exact h.elim

/-- A step that takes the next token, records a fault and goes on promises no more than
not to go back. -/
theorem takeFaulty {step step' : ReadM α} {t : Token} {ts : List Token} {cause : SyntaxCause}
    {E : α → Reading → List Token → Prop} (hrest : r.rest = t :: ts)
    (heq : step' r = step (Reading.record { r with rest := ts } t cause))
    (h : Reads step (Reading.record { r with rest := ts } t cause) bound E) :
    Reads step' r bound D := by
  unfold Reads at h
  have hsize : (Reading.record { r with rest := ts } t cause).faults.size = r.faults.size + 1 :=
    Array.size_push _
  cases hs : step (Reading.record { r with rest := ts } t cause) with
  | ok a r' =>
    rw [hs] at h
    obtain ⟨hlen, hfaults, us, hus, hE⟩ := h
    refine of_ok (heq.trans hs) hlen (by omega) (t :: us) ?_ ?_
    · rw [hrest, List.cons_append]
      exact congrArg (t :: ·) hus
    · intro hclean
      omega
  | error stop r' =>
    rw [hs] at h
    cases stop with
    | fault =>
      refine of_fault (heq.trans hs) ?_ (by omega)
      rw [hrest]
      exact h.1.trans (List.suffix_cons t ts)
    | tooDeep => exact h.elim

/-- A token that must be there, and what follows it. -/
theorem require {kind : TokenKind} {cause : SyntaxCause} {next : Token → ReadM α}
    (h : ∀ t r₁, r₁.rest.length + 1 = r.rest.length → t.kind = kind →
      Reads (next t) r₁ bound fun a r' us => D a r' (t :: us)) :
    Reads (require kind cause >>= next) r bound D := by
  cases hr : r.rest with
  | nil =>
    have hreq : (LoxLang.require kind cause >>= next) r = LoxLang.failNext cause r := by
      simp only [Bind.bind, EStateM.bind, LoxLang.require, hr, LoxLang.failNext]
    exact of_fault hreq List.suffix_rfl (by simp [Reading.record])
  | cons t ts =>
    by_cases hk : t.kind = kind
    · refine take hr ?_ (h t _ (by rw [hr]; rfl) hk)
      simp [Bind.bind, EStateM.bind, LoxLang.require, hr, hk]
    · have hreq : (LoxLang.require kind cause >>= next) r = LoxLang.failNext cause r := by
        simp [Bind.bind, EStateM.bind, LoxLang.require, hr, hk, LoxLang.failNext]
      exact of_fault hreq List.suffix_rfl (by simp [Reading.record])

/-- A choice by a token of a kind, which is taken if it is there. -/
theorem ifAccept {kind : TokenKind} {found missing : ReadM α}
    (hfound : ∀ t r₁, r₁.rest.length + 1 = r.rest.length → t.kind = kind →
      r.nextIs kind = true → Reads found r₁ bound fun a r' us => D a r' (t :: us))
    (hmissing : r.nextIs kind = false → Reads missing r bound D) :
    Reads (accept kind >>= fun b => if b = true then found else missing) r bound D := by
  cases hr : r.rest with
  | nil =>
    have hacc : accept kind r = .ok false r := by simp only [accept, hr]
    exact look hacc (hmissing (by simp only [Reading.nextIs, hr]))
  | cons t ts =>
    by_cases hk : t.kind = kind
    · have hnext : r.nextIs kind = true := by simp [Reading.nextIs, hr, hk]
      refine take hr ?_ (hfound t _ (by rw [hr]; rfl) hk hnext)
      simp [Bind.bind, EStateM.bind, accept, hr, hk]
    · have hacc : accept kind r = .ok false r := by simp [accept, hr, hk]
      exact look hacc (hmissing (by simp [Reading.nextIs, hr, hk]))

/-- A choice by a token of one of some kinds, which is taken if it is there. -/
theorem matchAccept {kinds : List TokenKind} {next : Option Token → ReadM α}
    (hfound : ∀ t r₁, r₁.rest.length + 1 = r.rest.length → t.kind ∈ kinds →
      Reads (next (some t)) r₁ bound fun a r' us => D a r' (t :: us))
    (hmissing : Reads (next none) r bound D) :
    Reads (accept? kinds >>= next) r bound D := by
  cases hr : r.rest with
  | nil =>
    have hacc : accept? kinds r = .ok none r := by simp only [accept?, hr]
    exact look hacc hmissing
  | cons t ts =>
    by_cases hk : t.kind ∈ kinds
    · refine take hr ?_ (hfound t _ (by rw [hr]; rfl) hk)
      simp [Bind.bind, EStateM.bind, accept?, hr, hk]
    · have hacc : accept? kinds r = .ok none r := by simp [accept?, hr, hk]
      exact look hacc hmissing

/-- A choice by the beginning of a function, whose keyword is taken if it is there. -/
theorem ifStartsFunction {found missing : ReadM α}
    (hfound : ∀ t r₁, r₁.rest.length + 1 = r.rest.length → t.kind = .kwFun →
      Reads found r₁ bound fun a r' us => D a r' (t :: us))
    (hmissing : Reads missing r bound D) :
    Reads (startsFunction >>= fun b =>
      if b = true then accept .kwFun >>= fun _ => found else missing) r bound D := by
  match hr : r.rest with
  | [] => exact look (v := false) (by simp only [startsFunction, hr]) hmissing
  | [t] => exact look (v := false) (by simp only [startsFunction, hr]) hmissing
  | t :: u :: ts =>
    by_cases hk : t.kind = .kwFun ∧ u.kind = .identifier
    · have hstarts : startsFunction r = .ok true r := by simp [startsFunction, hr, hk]
      refine look hstarts (take hr ?_ (hfound t _ (by rw [hr]; rfl) hk.1))
      simp [Bind.bind, EStateM.bind, accept, hr, hk]
    · have hstarts : startsFunction r = .ok false r := by
        have hb : (t.kind == .kwFun && u.kind == .identifier) = false := by
          rw [Bool.and_eq_false_iff, beq_eq_false_iff_ne, beq_eq_false_iff_ne]
          exact Decidable.not_and_iff_or_not.mp hk
        simp only [startsFunction, hr, hb]
      exact look hstarts hmissing

end Reads

/-! ### Faults that leave the reading as it is -/

/-- Without a fault there was room in the list. -/
theorem checkRoom_reads (list : BoundedList) (length : Nat) (r : Reading) :
    Reads (checkRoom list length) r (r.rest.length + 1) fun _ _ us =>
      us = [] ∧ length < maxListed := by
  unfold checkRoom
  split
  · refine Reads.of_ok rfl (Nat.lt_succ_self _) ?_ [] rfl ?_
    · simp [Reading.record]
    · simp [Reading.record]
  · next hroom =>
    exact Reads.pure (Nat.lt_succ_self _) ⟨rfl, Nat.lt_of_not_le hroom⟩

/-- Without a fault the target of an assignment is a name or a property. -/
theorem assignTo_reads (target : Expr) (equals : Token) (value : Expr) (r : Reading) :
    Reads (assignTo target equals value) r (r.rest.length + 1) fun e _ us =>
      us = [] ∧ ((∃ name, target = .variable name ∧ e = .assign name value) ∨
        ∃ object name, target = .get object name ∧ e = .set object name value) := by
  unfold assignTo
  split
  · next name => exact Reads.pure (Nat.lt_succ_self _) ⟨rfl, .inl ⟨name, rfl, rfl⟩⟩
  · next object name =>
    exact Reads.pure (Nat.lt_succ_self _) ⟨rfl, .inr ⟨object, name, rfl, rfl⟩⟩
  · refine Reads.of_ok rfl (Nat.lt_succ_self _) ?_ [] rfl ?_
    · simp [Reading.record]
    · simp [Reading.record]

/-! ### Recovery -/

theorem skipStatement_suffix (last : Token) (ts : List Token) : skipStatement last ts <:+ ts := by
  induction ts generalizing last with
  | nil => exact List.suffix_rfl
  | cons t ts ih =>
    rw [skipStatement]
    split
    · exact List.suffix_rfl
    · exact (ih t).trans (List.suffix_cons t ts)

/-- Where reading goes on is behind where it stopped, or there is nothing left. -/
theorem resume_suffix (ts : List Token) : resume ts <:+ ts.tail := by
  cases ts with
  | nil => exact List.suffix_rfl
  | cons t ts => exact skipStatement_suffix t ts

/-- Recovery promises progress, and if there was no fault, what the declaration promised. -/
theorem recovering_reads {declaration : ReadM Stmt} {r : Reading}
    {D : Stmt → Reading → List Token → Prop} (hne : r.rest ≠ [])
    (h : Reads declaration r r.rest.length D) :
    Reads (recovering declaration) r r.rest.length fun s r' us =>
      ∃ stmt, s = some stmt ∧ D stmt r' us := by
  unfold Reads at h
  cases hd : declaration r with
  | ok stmt r' =>
    rw [hd] at h
    obtain ⟨hlen, hfaults, us, hus, hD⟩ := h
    have hrec : recovering declaration r = .ok (some stmt) r' := by simp only [recovering, hd]
    exact Reads.of_ok hrec hlen hfaults us hus fun hc => ⟨stmt, rfl, hD hc⟩
  | error stop r' =>
    rw [hd] at h
    cases stop with
    | tooDeep => exact h.elim
    | fault =>
      obtain ⟨hrest, hfaults⟩ := h
      have hrec : recovering declaration r = .ok none { r' with rest := resume r'.rest } := by
        simp only [recovering, hd]
      -- one token is left out in any case, and there was one
      have hresume : resume r'.rest <:+ r.rest :=
        (resume_suffix r'.rest).trans ((List.tail_suffix r'.rest).trans hrest)
      have hshort : (resume r'.rest).length < r.rest.length := by
        have h₁ := (resume_suffix r'.rest).length_le
        have h₂ := hrest.length_le
        have h₃ := List.length_pos_iff.mpr hne
        rw [List.length_tail] at h₁
        omega
      obtain ⟨us, hus⟩ := hresume
      refine Reads.of_ok hrec hshort (Nat.le_of_lt hfaults) us hus.symm ?_
      intro hc
      exact absurd hc (Nat.ne_of_gt hfaults)

end LoxLang
