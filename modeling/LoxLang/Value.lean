import LoxLang.Decimal.Double
import LoxLang.Token

/-!
# Values

The values of the language are nil, the truth values, numbers, texts, and
references to what lives in the store: closures, native functions, classes and
objects.  References are numbers that are given out one after the other, so two of
them are equal exactly when they refer to the same thing.

## Main definitions

* `Value` — a value.
* `Value.truthy` — what counts as true in a condition.
* `Value.same` — when two values are equal.

## Main results

* `Value.same_refl`, `Value.same_symm`, `Value.same_trans` — equality of values is an
  equivalence.

## References

The reference's `is_truthy` and `is_equal`.
-/

namespace LoxLang

/-- A reference to a frame. -/
abbrev FrameId := Nat

/-- A reference to a closure. -/
abbrev ClosureId := Nat

/-- A reference to a native function. -/
abbrev NativeId := Nat

/-- A reference to a class. -/
abbrev ClassId := Nat

/-- A reference to an object. -/
abbrev ObjectId := Nat

/-- A value. -/
inductive Value where
  /-- The value of what has no value. -/
  | nil
  /-- A truth value. -/
  | bool (b : Bool)
  /-- A number. -/
  | number (x : Float)
  /-- A text. -/
  | text (s : String)
  /-- A function of the program. -/
  | closure (c : ClosureId)
  /-- A function that the interpreter provides. -/
  | native (n : NativeId)
  /-- A class. -/
  | classRef (k : ClassId)
  /-- An object. -/
  | object (o : ObjectId)
  deriving DecidableEq, Repr, Inhabited

namespace Value

/-- The value of a constant. -/
def ofLiteral : Literal → Value
  | .nil => .nil
  | .bool b => .bool b
  | .number x => .number x
  | .text s => .text s

/-- Nil and false count as false; everything else counts as true. -/
def truthy : Value → Bool
  | .nil => false
  | .bool b => b
  | _ => true

/-- Whether a value is a number. -/
def isNumber : Value → Bool
  | .number _ => true
  | _ => false

/-- Values of different kinds differ.  Numbers are equal when both are NaN, both are
zero, or both have the same bits; texts when they have the same characters, and
references when they refer to the same thing. -/
def same : Value → Value → Bool
  | .number x, .number y => sameNumber x y
  | v, w => v == w

/-! ### Equality of values is an equivalence -/

/-- Values that are not both numbers are equal exactly when they are identical. -/
theorem same_eq_beq {v w : Value} (h : ¬(v.isNumber ∧ w.isNumber)) : same v w = (v == w) := by
  cases v <;> cases w <;> simp_all [same, isNumber]

/-- Equal values are both numbers or neither is. -/
theorem isNumber_eq_of_same {v w : Value} (h : same v w) : v.isNumber = w.isNumber := by
  by_cases hn : v.isNumber ∧ w.isNumber
  · rw [hn.1, hn.2]
  · rw [same_eq_beq hn, beq_iff_eq] at h
    rw [h]

@[simp] theorem same_refl (v : Value) : same v v := by
  cases v <;> simp [same]

theorem same_symm {v w : Value} (h : same v w) : same w v := by
  by_cases hn : v.isNumber ∧ w.isNumber
  · obtain ⟨hv, hw⟩ := hn
    cases v <;> simp only [isNumber, Bool.false_eq_true] at hv
    cases w <;> simp only [isNumber, Bool.false_eq_true] at hw
    exact sameNumber_symm h
  · rw [same_eq_beq hn, beq_iff_eq] at h
    subst h
    exact same_refl v

theorem same_trans {u v w : Value} (h₁ : same u v) (h₂ : same v w) : same u w := by
  have n₁ := isNumber_eq_of_same h₁
  have n₂ := isNumber_eq_of_same h₂
  by_cases hu : u.isNumber
  · have hv : v.isNumber := n₁ ▸ hu
    have hw : w.isNumber := n₂ ▸ hv
    cases u <;> simp only [isNumber, Bool.false_eq_true] at hu
    cases v <;> simp only [isNumber, Bool.false_eq_true] at hv
    cases w <;> simp only [isNumber, Bool.false_eq_true] at hw
    exact sameNumber_trans h₁ h₂
  · have hv : ¬v.isNumber := n₁ ▸ hu
    rw [same_eq_beq fun h => hu h.1, beq_iff_eq] at h₁
    rw [same_eq_beq fun h => hv h.1, beq_iff_eq] at h₂
    subst h₁ h₂
    exact same_refl u

end Value

end LoxLang
