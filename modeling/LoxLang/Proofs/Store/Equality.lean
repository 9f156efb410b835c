import LoxLang.Proofs.Decimal.Pattern
import LoxLang.Store.Object

/-!
# Equal values

Equality of values is an equivalence that never relates values of different kinds.  On all but
numbers it is identity: texts have to have the same characters, and references have to refer to
the same thing.  On numbers it is coarser than having the same bits, since there are two zeros
and many patterns that are not numbers, and what is printed does not tell apart what it relates.

## Main definitions

* `Value.Kind`, `Value.kind` — the kinds of values.

## Main results

* `Store.text_eq_of_same` — equal values are printed alike.
* `Value.same_laws` — **equality is an equivalence that keeps to kinds and bits, and printing
  respects it.**
-/

namespace LoxLang

/-- A kind of values. -/
inductive Value.Kind where
  /-- There is one value of this kind. -/
  | nil
  /-- Truth values. -/
  | bool
  /-- Numbers. -/
  | number
  /-- Texts. -/
  | text
  /-- Functions of the program. -/
  | closure
  /-- Functions that the interpreter provides. -/
  | native
  /-- Classes. -/
  | classRef
  /-- Objects. -/
  | object
  deriving DecidableEq, Repr

/-- The kind of a value. -/
def Value.kind : Value → Value.Kind
  | .nil => .nil
  | .bool _ => .bool
  | .number _ => .number
  | .text _ => .text
  | .closure _ => .closure
  | .native _ => .native
  | .classRef _ => .classRef
  | .object _ => .object

variable {v w : Value} {x y : Float}

/-! ### Kinds -/

theorem Value.isNumber_iff : v.isNumber ↔ v.kind = .number := by
  cases v <;> simp [isNumber, kind]

/-- Equality of values that are not numbers is identity. -/
theorem Value.same_iff_eq (hv : v.kind ≠ .number) : v.same w ↔ v = w := by
  rw [same_eq_beq fun h => hv (isNumber_iff.mp h.1), beq_iff_eq]

/-- Equal values are of the same kind. -/
theorem Value.kind_eq_of_same (h : v.same w) : v.kind = w.kind := by
  by_cases hv : v.kind = .number
  · have hw := isNumber_eq_of_same h
    rw [isNumber_iff.mpr hv] at hw
    rw [hv, isNumber_iff.mp hw.symm]
  · rw [(same_iff_eq hv).mp h]

/-! ### Printing -/

/-- Both zeros are printed without a sign. -/
theorem Double.text_of_isZero {d : Double} (h : d.isZero) :
    d.text = String.ofList (digitChars 0) := by
  cases d with
  | nan | infinite => simp [isZero] at h
  | finite negative m q narrow =>
    have hm : m = 0 := by simpa [isZero] using h
    have hwhole : (Double.finite negative m q narrow).whole? = some 0 := by
      simp [hm, whole?]
    simp [text, hwhole, signChars]

/-- Equal numbers are printed alike. -/
theorem numberText_eq_of_sameNumber (h : sameNumber x y) : numberText x = numberText y := by
  rw [numberText, numberText, Double.ofFloat, Double.ofFloat]
  rcases sameNumber_iff.mp h with hbits | ⟨hx, hy⟩ | ⟨hx, hy⟩
  · rw [hbits]
  · rw [Double.text_of_isZero (isZero_ofBits_iff.mpr hx),
      Double.text_of_isZero (isZero_ofBits_iff.mpr hy)]
  · rw [ofBits_eq_nan_iff.mpr hx, ofBits_eq_nan_iff.mpr hy]

/-- Equal values are printed alike. -/
theorem Store.text_eq_of_same (s : Store) (h : v.same w) : s.text v = s.text w := by
  by_cases hv : v.kind = .number
  · have hw := Value.kind_eq_of_same h
    cases v <;> simp only [Value.kind, reduceCtorEq] at hv
    cases w <;> simp only [Value.kind, reduceCtorEq] at hw
    exact numberText_eq_of_sameNumber h
  · rw [(Value.same_iff_eq hv).mp h]

/-! ### Equality -/

/-- **Equality is an equivalence that keeps to kinds and bits, and printing respects it.**
Numbers are equal if neither is a number, if both are zero, or if they have the same pattern;
which is to compare them once it is known that the first is a number.  Other values are equal
if they are the same. -/
theorem Value.same_laws :
    Equivalence (fun v w : Value => v.same w)
      ∧ (∀ v w : Value, v.same w → v.kind = w.kind)
      ∧ (∀ a b : UInt64, (number (.ofBits a)).same (number (.ofBits b))
        ↔ IsNaNPattern a ∧ IsNaNPattern b ∨ IsZeroPattern a ∧ IsZeroPattern b ∨ a = b)
      ∧ (∀ x y : Float, (number x).same (number y) = if x.isNaN then y.isNaN else x == y)
      ∧ (∀ v w : Value, v.kind ≠ .number → (v.same w ↔ v = w))
      ∧ ∀ (s : Store) (v w : Value), v.same w → s.text v = s.text w :=
  ⟨⟨same_refl, same_symm, same_trans⟩, fun _ _ => kind_eq_of_same, sameNumber_ofBits_iff,
    sameNumber_eq, fun _ _ => same_iff_eq, fun s _ _ => s.text_eq_of_same⟩

end LoxLang
