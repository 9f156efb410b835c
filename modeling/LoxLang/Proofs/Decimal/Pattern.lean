import LoxLang.Decimal.Double

/-!
# Numbers by their bit patterns

A number is taken apart in two ways: by the comparisons of floating point arithmetic, and into a
`Double` to be written and told apart.  Both agree on which of the 64-bit patterns are zeros and
which are not numbers.

Packing what a pattern was taken apart into gives the pattern back, unless it is not a number.
So numbers that compare as equal have the same pattern or are both zero, and to ask for
something that is not a number before comparing is all that is needed to make an equivalence of
it.

## Main definitions

* `IsNaNPattern`, `IsZeroPattern` — the patterns that are not numbers, and those of zeros.

## Main results

* `pack_unpack` — packing undoes taking apart.
* `beq_iff` — when two numbers compare as equal.
* `sameNumber_eq` — equality of numbers by comparison.
* `sameNumber_ofBits_iff` — equality of numbers by their patterns.
-/

namespace LoxLang

open Float.Model (Format UnpackedFloat)
open Float.Model.UnpackedFloat

/-- The pattern of what is not a number: whatever the sign, it lies behind that of infinity. -/
def IsNaNPattern (a : UInt64) : Prop := 0x7ff0000000000000 < a.toNat % 0x8000000000000000

/-- The patterns of the two zeros. -/
def IsZeroPattern (a : UInt64) : Prop := a = 0 ∨ a = 0x8000000000000000

instance (a : UInt64) : Decidable (IsNaNPattern a) := inferInstanceAs (Decidable (_ < _))

instance (a : UInt64) : Decidable (IsZeroPattern a) := inferInstanceAs (Decidable (_ ∨ _))

variable {a b : UInt64} {x y : Float}

theorem IsZeroPattern.not_nan (h : IsZeroPattern a) : ¬IsNaNPattern a := by
  rcases h with rfl | rfl <;> simp [IsNaNPattern]

theorem isZeroPattern_iff : IsZeroPattern a ↔ a.toNat % 0x8000000000000000 = 0 := by
  have hlt := a.toNat_lt
  rw [IsZeroPattern, ← UInt64.toNat_inj, ← UInt64.toNat_inj]
  change a.toNat = 0 ∨ a.toNat = 0x8000000000000000 ↔ _
  omega

/-! ### Doubles -/

theorem ofBits_eq_nan_iff : Double.ofBits a = .nan ↔ IsNaNPattern a := by
  have hfraction : Nat.pow 2 52 = 4503599627370496 := rfl
  have hexponent : Nat.pow 2 11 = 2048 := rfl
  rw [Double.ofBits, IsNaNPattern, hfraction, hexponent]
  split
  · split
    · simp only [reduceCtorEq, false_iff]
      omega
    · simp only [true_iff]
      omega
  · split <;> simp only [reduceCtorEq, false_iff] <;> omega

theorem isZero_ofBits_iff : (Double.ofBits a).isZero ↔ IsZeroPattern a := by
  have hfraction : Nat.pow 2 52 = 4503599627370496 := rfl
  have hexponent : Nat.pow 2 11 = 2048 := rfl
  rw [Double.ofBits, isZeroPattern_iff, hfraction, hexponent]
  split
  · split <;> simp only [Double.isZero, Bool.false_eq_true, false_iff] <;> omega
  · split <;> simp only [Double.isZero, decide_eq_true_eq] <;> omega

theorem sameNumber_iff :
    sameNumber x y ↔ x.toBits = y.toBits
      ∨ (IsZeroPattern x.toBits ∧ IsZeroPattern y.toBits)
      ∨ (IsNaNPattern x.toBits ∧ IsNaNPattern y.toBits) := by
  simp [sameNumber, Double.ofFloat, ofBits_eq_nan_iff, isZero_ofBits_iff, or_assoc]

/-! ### Taking patterns apart -/

section Fields

variable (p : BitVec Format.binary64.numBits)

theorem unpackMantissa_eq_iff (m : BitVec 52) :
    unpackMantissa p = m ↔ p.toNat % 4503599627370496 = m.toNat := by
  rw [← BitVec.toNat_inj]
  simp [unpackMantissa, BitVec.extractLsb]

theorem unpackExponent_eq_iff (e : BitVec 11) :
    unpackExponent p = e ↔ p.toNat / 4503599627370496 % 2048 = e.toNat := by
  rw [← BitVec.toNat_inj]
  simp [unpackExponent, BitVec.extractLsb, Nat.shiftRight_eq_div_pow]

theorem packComponents_unpack :
    packComponents Format.binary64 (Sign.ofBitVec (unpackSign p)) (unpackExponent p)
      (unpackMantissa p) = p := by
  have hsign : (Sign.ofBitVec (unpackSign p)).toBitVec = unpackSign p := by
    generalize unpackSign p = t
    revert t
    decide
  rw [packComponents, hsign]
  refine BitVec.eq_of_getLsbD_eq fun i hi => ?_
  unfold unpackMantissa unpackExponent unpackSign
  simp only [BitVec.getLsbD_append, BitVec.getLsbD_cast, BitVec.getLsbD_extractLsb]
  grind

end Fields

theorem exponentBias_eq : Format.binary64.exponentBias = 1023 := rfl

/-- A fraction without a leading one is packed as it is. -/
theorem pack_subnormal (s : Sign) (m : BitVec 52) (h : 0 < m.toNat) :
    pack Format.binary64 (.finite s m.toNat (0 - (1023 + 52) + 1) h)
      = packComponents Format.binary64 s 0#11 m := by
  have hlog : m.toNat.log2 < 52 := (Nat.log2_lt (Nat.ne_of_gt h)).mpr m.isLt
  have hbits : m.toNat.log2 + 1 ≠ Format.binary64.mantissaBits := by
    have h53 : Format.binary64.mantissaBits = 53 := rfl
    omega
  unfold pack
  dsimp only
  rw [exponentBias_eq, if_neg (by decide), if_neg hbits, BitVec.ofNat_toNat, BitVec.setWidth_eq]

/-- A leading one is not packed. -/
theorem pack_normal (s : Sign) (e : BitVec 11) (he : e ≠ -1#11) (m : BitVec 52)
    (h : 0 < (1#1 ++ m).toNat) :
    pack Format.binary64 (.finite s (1#1 ++ m).toNat ((e.toNat : Int) - (1023 + 52)) h)
      = packComponents Format.binary64 s e m := by
  have hlt := m.isLt
  have hm : (1#1 ++ m).toNat = 4503599627370496 + m.toNat := by
    rw [BitVec.toNat_append, ← Nat.shiftLeft_add_eq_or_of_lt hlt]
    rfl
  have hbits : (1#1 ++ m).toNat.log2 + 1 = Format.binary64.mantissaBits := by
    have hlog : (1#1 ++ m).toNat.log2 = 52 := by
      rw [Nat.log2_eq_iff (by omega)]
      omega
    rw [hlog]
    rfl
  have hbiased : ((e.toNat : Int) - (1023 + 52) + (1023 : Nat) + (52 : Nat)).toNat = e.toNat := by
    omega
  -- the exponent is not that of infinity
  have hmax : ¬2048 ≤ e.toNat + 1 := by
    intro hle
    have hlt := e.isLt
    have hones : (-1#11).toNat = 2047 := by decide
    exact he (BitVec.eq_of_toNat_eq (by omega))
  have hmantissa : BitVec.ofNat 52 (1#1 ++ m).toNat = m := by
    refine BitVec.eq_of_toNat_eq ?_
    rw [hm, BitVec.toNat_ofNat]
    omega
  unfold pack
  dsimp only
  rw [exponentBias_eq, hbiased, if_neg hmax, if_pos hbits, hmantissa, BitVec.ofNat_toNat,
    BitVec.setWidth_eq]

/-- Packing what a pattern was taken apart into gives the pattern back, unless it is not a
number. -/
theorem pack_unpack {p : BitVec Format.binary64.numBits}
    (h : unpack Format.binary64 p ≠ .notANumber) :
    pack Format.binary64 (unpack Format.binary64 p) = p := by
  have hp := packComponents_unpack p
  unfold unpack at h ⊢
  dsimp only at h ⊢
  by_cases hones : unpackExponent p = -1#11
  · rw [if_pos hones] at h ⊢
    by_cases hzero : unpackMantissa p = 0#52
    · rw [if_pos hzero]
      rw [hones, hzero] at hp
      exact hp
    · rw [if_neg hzero] at h
      exact absurd rfl h
  · rw [if_neg hones]
    by_cases hnone : unpackExponent p = 0#11
    · rw [if_pos hnone]
      rw [hnone] at hp
      by_cases hzero : unpackMantissa p = 0#52
      · rw [dif_pos hzero]
        rw [hzero] at hp
        exact hp
      · rw [dif_neg hzero, hnone]
        exact (pack_subnormal _ _ _).trans hp
    · rw [if_neg hnone]
      exact (pack_normal _ _ hones _ _).trans hp

/-- Whatever the sign, patterns that are not numbers lie behind that of infinity, and all others
but those of zeros before them. -/
theorem unpack_cases (p : BitVec Format.binary64.numBits) :
    (0x7ff0000000000000 < p.toNat % 0x8000000000000000
        ∧ unpack Format.binary64 p = .notANumber)
      ∨ (p.toNat % 0x8000000000000000 = 0 ∧ ∃ s, unpack Format.binary64 p = .zero s)
      ∨ (0 < p.toNat % 0x8000000000000000
        ∧ p.toNat % 0x8000000000000000 ≤ 0x7ff0000000000000
        ∧ unpack Format.binary64 p ≠ .notANumber
        ∧ ∀ s, unpack Format.binary64 p ≠ .zero s) := by
  have hones : unpackExponent p = -1#11 ↔ p.toNat / 4503599627370496 % 2048 = 2047 :=
    unpackExponent_eq_iff p (-1#11)
  have hnone : unpackExponent p = 0#11 ↔ p.toNat / 4503599627370496 % 2048 = 0 :=
    unpackExponent_eq_iff p 0#11
  have hzero : unpackMantissa p = 0#52 ↔ p.toNat % 4503599627370496 = 0 :=
    unpackMantissa_eq_iff p 0#52
  unfold unpack
  dsimp only
  by_cases h : unpackExponent p = -1#11
  · -- the exponent is all ones: infinity, or not a number
    rw [if_pos h]
    have h := hones.mp h
    by_cases h' : unpackMantissa p = 0#52
    · rw [if_pos h']
      have h' := hzero.mp h'
      exact .inr (.inr ⟨by omega, by omega, by rintro ⟨⟩, by rintro s ⟨⟩⟩)
    · rw [if_neg h']
      have h' := mt hzero.mpr h'
      exact .inl ⟨by omega, rfl⟩
  · rw [if_neg h]
    have h := mt hones.mpr h
    by_cases h' : unpackExponent p = 0#11
    · -- without an exponent: a zero, or a number without a leading one
      rw [if_pos h']
      have h' := hnone.mp h'
      by_cases h'' : unpackMantissa p = 0#52
      · rw [dif_pos h'']
        have h'' := hzero.mp h''
        exact .inr (.inl ⟨by omega, _, rfl⟩)
      · rw [dif_neg h'']
        have h'' := mt hzero.mpr h''
        exact .inr (.inr ⟨by omega, by omega, by rintro ⟨⟩, by rintro s ⟨⟩⟩)
    · rw [if_neg h']
      have h' := mt hnone.mpr h'
      exact .inr (.inr ⟨by omega, by omega, by rintro ⟨⟩, by rintro s ⟨⟩⟩)

theorem unpack_eq_notANumber_iff :
    unpack Format.binary64 a.toBitVec = .notANumber ↔ IsNaNPattern a := by
  change _ ↔ 0x7ff0000000000000 < a.toBitVec.toNat % 0x8000000000000000
  rcases unpack_cases a.toBitVec with ⟨h, hu⟩ | ⟨h, s, hu⟩ | ⟨-, h, hu, -⟩
  · exact iff_of_true hu h
  · rw [hu, h]
    exact iff_of_false (by simp) (by simp)
  · exact iff_of_false hu (Nat.not_lt.mpr h)

theorem unpack_eq_zero_iff :
    (∃ s, unpack Format.binary64 a.toBitVec = .zero s) ↔ IsZeroPattern a := by
  rw [isZeroPattern_iff]
  change _ ↔ a.toBitVec.toNat % 0x8000000000000000 = 0
  rcases unpack_cases a.toBitVec with ⟨h, hu⟩ | ⟨h, s, hu⟩ | ⟨h, -, -, hu⟩
  · rw [hu]
    refine iff_of_false (by simp) ?_
    omega
  · exact iff_of_true ⟨s, hu⟩ h
  · exact iff_of_false (fun ⟨s, hs⟩ => hu s hs) (Nat.ne_of_gt h)

/-! ### Comparing -/

theorem compare_sign_eq_iff (s t : Sign) : compare s t = .eq ↔ s = t := by
  cases s <;> cases t
  · exact iff_of_true rfl rfl
  · exact iff_of_false (by decide) (by simp)
  · exact iff_of_false (by decide) (by simp)
  · exact iff_of_true rfl rfl

theorem finite_beq_iff {s t : Sign} {m n : Nat} {d e : Int} (hm : 0 < m) (hn : 0 < n) :
    (finite s m d hm).beq (finite t n e hn) ↔ finite s m d hm = finite t n e hn := by
  rw [finite.injEq]
  cases s with
  | positive =>
    cases t with
    | positive =>
      change (some ((compare d e).then (compare m n)) == some .eq) = true ↔ _
      simp [and_comm]
    | negative => exact iff_of_false Bool.false_ne_true (by simp)
  | negative =>
    cases t with
    | positive => exact iff_of_false Bool.false_ne_true (by simp)
    | negative =>
      change (some ((compare d e).then (compare m n)).swap == some .eq) = true ↔ _
      simp [and_comm]

/-- Comparing tells apart what patterns are taken apart into, except that all zeros are equal
and that nothing is equal to what is not a number. -/
theorem unpacked_beq_iff {u w : UnpackedFloat} :
    u.beq w ↔ u ≠ .notANumber ∧ u = w ∨ (∃ s, u = .zero s) ∧ ∃ s, w = .zero s := by
  cases u with
  | notANumber =>
    refine iff_of_false Bool.false_ne_true ?_
    rintro (⟨h, -⟩ | ⟨⟨s, ⟨⟩⟩, -⟩)
    exact h rfl
  | infinity s =>
    have hzero : ¬∃ s', infinity s = .zero s' := by rintro ⟨s', ⟨⟩⟩
    rw [or_iff_left fun h => hzero h.1, and_iff_right (by rintro ⟨⟩)]
    cases w with
    | infinity t =>
      change (some (compare s t) == some .eq) = true ↔ _
      simp [compare_sign_eq_iff]
    | notANumber | zero | finite =>
      cases s <;> exact iff_of_false Bool.false_ne_true (by rintro ⟨⟩)
  | zero s =>
    cases w with
    | zero t => exact iff_of_true rfl (.inr ⟨⟨s, rfl⟩, t, rfl⟩)
    | notANumber => exact iff_of_false Bool.false_ne_true (by rintro (⟨-, ⟨⟩⟩ | ⟨-, t, ⟨⟩⟩))
    | infinity t | finite t =>
      cases t <;> exact iff_of_false Bool.false_ne_true (by rintro (⟨-, ⟨⟩⟩ | ⟨-, t, ⟨⟩⟩))
  | finite s m e h =>
    have hzero : ¬∃ s', finite s m e h = .zero s' := by rintro ⟨s', ⟨⟩⟩
    rw [or_iff_left fun h => hzero h.1, and_iff_right (by rintro ⟨⟩)]
    cases w with
    | finite t n d hn => exact finite_beq_iff h hn
    | infinity t => cases s <;> cases t <;> exact iff_of_false Bool.false_ne_true (by rintro ⟨⟩)
    | notANumber | zero => cases s <;> exact iff_of_false Bool.false_ne_true (by rintro ⟨⟩)

theorem isNaN_iff : x.isNaN ↔ IsNaNPattern x.toBits := by
  rw [← unpack_eq_notANumber_iff]
  change (unpack Format.binary64 x.toBits.toBitVec).isNaN ↔ _
  cases unpack Format.binary64 x.toBits.toBitVec with
  | notANumber => exact iff_of_true rfl rfl
  | infinity | zero | finite => exact iff_of_false Bool.false_ne_true (by rintro ⟨⟩)

/-- Numbers compare as equal if they have the same pattern or are both zero; what is not a
number is equal to nothing. -/
theorem beq_iff : x == y ↔ ¬IsNaNPattern x.toBits ∧ x.toBits = y.toBits
    ∨ IsZeroPattern x.toBits ∧ IsZeroPattern y.toBits := by
  rw [← unpack_eq_notANumber_iff, ← unpack_eq_zero_iff, ← unpack_eq_zero_iff]
  change UnpackedFloat.beq (unpack Format.binary64 x.toBits.toBitVec)
    (unpack Format.binary64 y.toBits.toBitVec) ↔ _
  rw [unpacked_beq_iff]
  refine or_congr_left (and_congr_right fun hx => ⟨fun heq => ?_, fun heq => by rw [heq]⟩)
  -- what was taken apart into the same was the same, since packing undoes it
  refine UInt64.toBitVec_inj.mp ?_
  rw [← pack_unpack hx, heq, pack_unpack (heq ▸ hx)]

/-- Equality of numbers is comparison, except that all that is not a number is equal. -/
theorem sameNumber_eq (x y : Float) :
    sameNumber x y = if x.isNaN then y.isNaN else x == y := by
  rw [Bool.eq_iff_iff, sameNumber_iff]
  by_cases hx : IsNaNPattern x.toBits
  · rw [if_pos (isNaN_iff.mpr hx), isNaN_iff]
    constructor
    · rintro (heq | ⟨hzero, -⟩ | ⟨-, hy⟩)
      · exact heq ▸ hx
      · exact absurd hx hzero.not_nan
      · exact hy
    · exact fun hy => .inr (.inr ⟨hx, hy⟩)
  · rw [if_neg (mt isNaN_iff.mp hx), beq_iff]
    constructor
    · rintro (heq | hzero | ⟨hnan, -⟩)
      · exact .inl ⟨hx, heq⟩
      · exact .inr hzero
      · exact absurd hnan hx
    · rintro (⟨-, heq⟩ | hzero)
      · exact .inl heq
      · exact .inr (.inl hzero)

/-! ### Numbers given by patterns -/

/-- A number has the pattern it was given by. -/
theorem toBits_ofBits (h : ¬IsNaNPattern a) : (Float.ofBits a).toBits = a := by
  refine UInt64.toBitVec_inj.mp ?_
  exact pack_unpack (mt unpack_eq_notANumber_iff.mp h)

/-- All that is not a number has the same pattern. -/
theorem toBits_ofBits_of_nan (h : IsNaNPattern a) :
    (Float.ofBits a).toBits = 0x7ff8000000000000 := by
  refine UInt64.toBitVec_inj.mp ?_
  change pack Format.binary64 (unpack Format.binary64 a.toBitVec) = _
  rw [unpack_eq_notANumber_iff.mpr h]
  rfl

theorem isNaNPattern_ofBits_iff : IsNaNPattern (Float.ofBits a).toBits ↔ IsNaNPattern a := by
  by_cases h : IsNaNPattern a
  · rw [toBits_ofBits_of_nan h]
    exact iff_of_true (by decide) h
  · rw [toBits_ofBits h]

theorem isZeroPattern_ofBits_iff : IsZeroPattern (Float.ofBits a).toBits ↔ IsZeroPattern a := by
  by_cases h : IsNaNPattern a
  · rw [toBits_ofBits_of_nan h]
    exact iff_of_false (by decide) fun hzero => hzero.not_nan h
  · rw [toBits_ofBits h]

/-- Numbers given by patterns are equal if neither is a number, if both are zero, or if the
patterns are the same. -/
theorem sameNumber_ofBits_iff (a b : UInt64) :
    sameNumber (.ofBits a) (.ofBits b)
      ↔ IsNaNPattern a ∧ IsNaNPattern b ∨ IsZeroPattern a ∧ IsZeroPattern b ∨ a = b := by
  rw [sameNumber_iff, isNaNPattern_ofBits_iff, isNaNPattern_ofBits_iff, isZeroPattern_ofBits_iff,
    isZeroPattern_ofBits_iff]
  constructor
  · rintro (heq | hzero | hnan)
    · -- only what is a number keeps the pattern it was given by
      have hsame : IsNaNPattern a ↔ IsNaNPattern b := by
        rw [← isNaNPattern_ofBits_iff, heq, isNaNPattern_ofBits_iff]
      by_cases ha : IsNaNPattern a
      · exact .inl ⟨ha, hsame.mp ha⟩
      · rw [toBits_ofBits ha, toBits_ofBits (mt hsame.mpr ha)] at heq
        exact .inr (.inr heq)
    · exact .inr (.inl hzero)
    · exact .inl hnan
  · rintro (hnan | hzero | rfl)
    · exact .inr (.inr hnan)
    · exact .inr (.inl hzero)
    · exact .inl rfl

end LoxLang
