/-!
# Doubles by their bits

A number of the language is an IEEE 754 double.  What is written for it, and when
two of them count as equal, is decided by its 64 bits alone: a sign, eleven bits
of exponent and fifty-two of fraction.

## Main definitions

* `Double` — a double taken apart: a NaN, an infinity, or `mantissa * 2 ^ power`.
* `Double.ofBits`, `Double.ofFloat` — taking bits, or a number, apart.
* `Double.whole?` — the magnitude of a double that is a whole number.
* `sameNumber` — when two numbers count as equal.

## Main results

* `sameNumber_refl`, `sameNumber_symm`, `sameNumber_trans` — it is an equivalence.

## References

The reference's `is_equal`, for numbers.
-/

namespace LoxLang

/-- A double taken apart. -/
inductive Double where
  /-- Not a number. -/
  | nan
  /-- An infinity with its sign. -/
  | infinite (negative : Bool)
  /-- The number `mantissa * 2 ^ power` with its sign.  `narrow` says that the next
  smaller double is only half as far away as the next greater one. -/
  | finite (negative : Bool) (mantissa : Nat) (power : Int) (narrow : Bool)
  deriving DecidableEq, Repr

namespace Double

/-- Takes a bit pattern apart. -/
def ofBits (bits : UInt64) : Double :=
  let n := bits.toNat
  let negative := decide (Nat.pow 2 63 ≤ n)
  let exponent : Nat := n / Nat.pow 2 52 % Nat.pow 2 11
  let fraction : Nat := n % Nat.pow 2 52
  if exponent = 2047 then
    if fraction = 0 then .infinite negative else .nan
  else if exponent = 0 then .finite negative fraction (-1074) false
  else
    .finite negative (Nat.pow 2 52 + fraction) ((exponent : Int) - 1075)
      (fraction = 0 && 1 < exponent)

/-- Takes a number apart. -/
def ofFloat (x : Float) : Double := ofBits x.toBits

/-- Whether the double is one of the two zeros. -/
def isZero : Double → Bool
  | .finite _ m _ _ => m = 0
  | _ => false

/-- The magnitude of a double that is a whole number. -/
def whole? : Double → Option Nat
  | .finite _ m q _ =>
      if 0 ≤ q then some (m * Nat.pow 2 q.toNat)
      else if m % Nat.pow 2 (-q).toNat = 0 then some (m / Nat.pow 2 (-q).toNat)
      else none
  | _ => none

end Double

/-- Numbers count as equal when they have the same bits, when both are zero, of
whatever sign, or when neither is a number. -/
def sameNumber (x y : Float) : Bool :=
  x.toBits == y.toBits ||
    ((Double.ofFloat x).isZero && (Double.ofFloat y).isZero) ||
    (Double.ofFloat x == .nan && Double.ofFloat y == .nan)

/-! ### Equality of numbers is an equivalence -/

@[simp] theorem sameNumber_refl (x : Float) : sameNumber x x := by simp [sameNumber]

theorem sameNumber_symm {x y : Float} (h : sameNumber x y) : sameNumber y x := by
  simp only [sameNumber, Bool.or_eq_true, Bool.and_eq_true, beq_iff_eq] at h ⊢
  rcases h with (h | ⟨hx, hy⟩) | ⟨hx, hy⟩
  · exact Or.inl (Or.inl h.symm)
  · exact Or.inl (Or.inr ⟨hy, hx⟩)
  · exact Or.inr ⟨hy, hx⟩

theorem sameNumber_trans {x y z : Float} (h₁ : sameNumber x y) (h₂ : sameNumber y z) :
    sameNumber x z := by
  simp only [sameNumber, Bool.or_eq_true, Bool.and_eq_true, beq_iff_eq] at h₁ h₂ ⊢
  -- equal bits are taken apart in the same way
  have hbits : ∀ {a b : Float}, a.toBits = b.toBits → Double.ofFloat a = Double.ofFloat b :=
    fun h => congrArg Double.ofBits h
  rcases h₁ with (h₁ | ⟨hx, hy⟩) | ⟨hx, hy⟩
  · rcases h₂ with (h₂ | ⟨hy', hz⟩) | ⟨hy', hz⟩
    · exact Or.inl (Or.inl (h₁.trans h₂))
    · exact Or.inl (Or.inr ⟨by rw [hbits h₁]; exact hy', hz⟩)
    · exact Or.inr ⟨by rw [hbits h₁]; exact hy', hz⟩
  · rcases h₂ with (h₂ | ⟨_, hz⟩) | ⟨hy', _⟩
    · exact Or.inl (Or.inr ⟨hx, by rw [← hbits h₂]; exact hy⟩)
    · exact Or.inl (Or.inr ⟨hx, hz⟩)
    · rw [hy'] at hy
      exact absurd hy (by simp [Double.isZero])
  · rcases h₂ with (h₂ | ⟨hy', _⟩) | ⟨_, hz⟩
    · exact Or.inr ⟨hx, by rw [← hbits h₂]; exact hy⟩
    · rw [hy] at hy'
      exact absurd hy' (by simp [Double.isZero])
    · exact Or.inr ⟨hx, hz⟩

end LoxLang
