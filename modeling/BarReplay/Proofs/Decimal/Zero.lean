import BarReplay.Arithmetic
import BarReplay.Proofs.Decimal.Sign

/-!
# Doubles and zero

Rounding spoils most laws of arithmetic, but not those about zero: a finite double less itself is
zero, and zero is what dividing zero by a positive double gives. A positive double is above zero and
its opposite below it.

All of this is seen on the unpacked numbers, where a comparison with zero looks at the sign and at
nothing else. Only the opposite has to go through the bits, as negation packs its result before it
is compared (`unpack_neg`).
-/

open Float.Model Float.Model.UnpackedFloat

namespace BarReplay

/-! ### Comparisons -/

theorem zero_le_iff {x : Float} :
    (0 : Float) ≤ x ↔ UnpackedFloat.le (.zero .positive) x.toModel.unpack = true := by
  show decide ((0 : Float).toModel ≤ x.toModel) = true ↔ _
  rw [decide_eq_true_iff]
  exact Iff.rfl

theorem le_zero_iff {x : Float} :
    x ≤ 0 ↔ UnpackedFloat.le x.toModel.unpack (.zero .positive) = true := by
  show decide (x.toModel ≤ (0 : Float).toModel) = true ↔ _
  rw [decide_eq_true_iff]
  exact Iff.rfl

theorem zero_lt_iff {x : Float} :
    (0 : Float) < x ↔ UnpackedFloat.lt (.zero .positive) x.toModel.unpack = true := by
  show decide ((0 : Float).toModel < x.toModel) = true ↔ _
  rw [decide_eq_true_iff]
  exact Iff.rfl

theorem isNonNegative_eq (x : Float) : isNonNegative x =
    (x.toModel.unpack.isFinite && UnpackedFloat.le (.zero .positive) x.toModel.unpack) := by
  rw [isNonNegative]
  congr 1
  rw [Bool.eq_iff_iff, decide_eq_true_iff]
  exact zero_le_iff

theorem isPositive_eq (x : Float) : isPositive x =
    (x.toModel.unpack.isFinite && UnpackedFloat.lt (.zero .positive) x.toModel.unpack) := by
  rw [isPositive]
  congr 1
  rw [Bool.eq_iff_iff, decide_eq_true_iff]
  exact zero_lt_iff

/-- Zero is in range, whatever its sign. -/
theorem isNonNegative_of_eq_zero {x : Float} (h : (x == 0) = true) : isNonNegative x = true := by
  have h : UnpackedFloat.beq x.toModel.unpack (.zero .positive) = true := h
  rw [isNonNegative_eq]
  cases hx : x.toModel.unpack with
  | infinity s => rw [hx] at h; cases s <;> cases h
  | notANumber => rw [hx] at h; cases h
  | zero s => rfl
  | finite s m e hm => rw [hx] at h; cases s <;> cases h

/-- Zero is all that separates the numbers in range from the positive ones. -/
theorem isPositive_of_isNonNegative {x : Float} (h : isNonNegative x = true)
    (hne : (x == 0) = false) : isPositive x = true := by
  have hne : UnpackedFloat.beq x.toModel.unpack (.zero .positive) = false := hne
  rw [isNonNegative_eq] at h
  rw [isPositive_eq]
  cases hx : x.toModel.unpack with
  | infinity s => rw [hx] at h; cases h
  | notANumber => rw [hx] at h; cases h
  | zero s => rw [hx] at hne; cases hne
  | finite s m e hm =>
    rw [hx] at h
    cases s with
    | negative => cases h
    | positive => rfl

/-- A positive double is a mantissa with an exponent, and has no sign. -/
theorem unpack_of_isPositive {x : Float} (h : isPositive x = true) :
    ∃ m e hm, x.toModel.unpack = .finite .positive m e hm := by
  rw [isPositive_eq] at h
  cases hx : x.toModel.unpack with
  | infinity s => rw [hx] at h; cases h
  | notANumber => rw [hx] at h; cases h
  | zero s => rw [hx] at h; cases h
  | finite s m e hm =>
    rw [hx] at h
    cases s with
    | negative => cases h
    | positive => exact ⟨m, e, hm, rfl⟩

theorem isFinite_of_isNonNegative {x : Float} (h : isNonNegative x = true) : x.isFinite = true :=
  (Bool.and_eq_true_iff.1 h).1

/-- A share of an account is finite, as it lies between two numbers that are. -/
theorem isFinite_of_isShareOfAccount {x : Float} (h : isShareOfAccount x = true) :
    x.isFinite = true := by
  obtain ⟨hpos, hle⟩ := Bool.and_eq_true_iff.1 h
  have hpos := zero_lt_iff.1 (of_decide_eq_true hpos)
  have hle : UnpackedFloat.le x.toModel.unpack (1 : Float).toModel.unpack = true :=
    of_decide_eq_true (of_decide_eq_true hle)
  show x.toModel.unpack.isFinite = true
  cases hx : x.toModel.unpack with
  | infinity s =>
    rw [hx] at hpos hle
    cases s with
    | negative => cases hpos
    | positive => exact absurd hle (by decide)
  | notANumber => rw [hx] at hpos; cases hpos
  | zero s => rfl
  | finite s m e hm => rfl

theorem not_le_zero_of_isPositive {x : Float} (h : isPositive x = true) : ¬ x ≤ 0 := by
  obtain ⟨m, e, hm, hx⟩ := unpack_of_isPositive h
  rw [le_zero_iff, hx]
  exact Bool.false_ne_true

/-! ### Differences and quotients -/

/-- **A finite double less itself is zero.** -/
theorem sub_self_of_isFinite {x : Float} (h : x.isFinite = true) : x - x = 0 := by
  have hsub : UnpackedFloat.sub Format.binary64 x.toModel.unpack x.toModel.unpack =
      .zero .positive := by
    have h : x.toModel.unpack.isFinite = true := h
    cases hx : x.toModel.unpack with
    | infinity s => rw [hx] at h; cases h
    | notANumber => rw [hx] at h; cases h
    | zero s => cases s <;> rfl
    | finite s m e hm =>
      show UnpackedFloat.normalize Format.binary64 (_ - _) _ .positive = _
      rw [sub_self]
      rfl
  apply Decimal.float_ext
  show (UnpackedFloat.pack Format.binary64 (UnpackedFloat.sub Format.binary64 x.toModel.unpack
    x.toModel.unpack)).toNat = _
  rw [hsub]
  rfl

/-- Zero is what dividing zero by a positive double gives. -/
theorem zero_div_of_isPositive {x : Float} (h : isPositive x = true) : 0 / x = 0 := by
  obtain ⟨m, e, hm, hx⟩ := unpack_of_isPositive h
  have hdiv : UnpackedFloat.div Format.binary64 (.zero .positive) x.toModel.unpack =
      .zero .positive := by
    rw [hx]
    rfl
  apply Decimal.float_ext
  show (UnpackedFloat.pack Format.binary64 (UnpackedFloat.div Format.binary64 (.zero .positive)
    x.toModel.unpack)).toNat = _
  rw [hdiv]
  rfl

/-! ### Opposites -/

/-- Bits that differ in the sign only are unpacked as opposite numbers. -/
theorem unpack_of_toNat_eq {b c : BitVec 64} (h : b.toNat = 2 ^ 63 + c.toNat) :
    UnpackedFloat.unpack Format.binary64 b = (UnpackedFloat.unpack Format.binary64 c).neg := by
  have hexponent : @unpackExponent Format.binary64 b = @unpackExponent Format.binary64 c := by
    rw [← BitVec.toNat_inj, Decimal.toNat_unpackExponent, Decimal.toNat_unpackExponent]
    omega
  have hmantissa : @unpackMantissa Format.binary64 b = @unpackMantissa Format.binary64 c := by
    rw [← BitVec.toNat_inj, Decimal.toNat_unpackMantissa, Decimal.toNat_unpackMantissa]
    omega
  have hb : @unpackSign Format.binary64 b = 1#1 := by
    rw [← BitVec.toNat_inj, Decimal.toNat_unpackSign]
    show b.toNat / 2 ^ 63 = 1
    omega
  have hc : @unpackSign Format.binary64 c = 0#1 := by
    rw [← BitVec.toNat_inj, Decimal.toNat_unpackSign]
    show c.toNat / 2 ^ 63 = 0
    omega
  simp only [UnpackedFloat.unpack, hexponent, hmantissa, hb, hc]
  split_ifs <;> rfl

/-- Negation changes the sign of a double without one, and none of its parts. -/
theorem unpack_neg {x : Float} (h : x.toBits.toNat < Decimal.topRung) :
    (-x).toModel.unpack = x.toModel.unpack.neg :=
  unpack_of_toNat_eq (Decimal.toBits_neg h)

/-- A positive double has no sign bit. -/
theorem toBits_lt_of_isPositive {x : Float} (h : isPositive x = true) :
    x.toBits.toNat < Decimal.topRung := by
  have hfinite : x.isFinite = true := (Bool.and_eq_true_iff.1 h).1
  have hlow := Decimal.isFinite_iff.1 hfinite
  cases hsign : Decimal.isNegative x with
  | false =>
    have hle := Decimal.isUnsigned_iff.1 ⟨hsign, (Decimal.isNaN_isInf_of_isFinite hfinite).1⟩
    rw [Decimal.topRung] at hlow hle ⊢
    omega
  | true =>
    -- a double with a sign is the opposite of one without, which is not positive
    obtain ⟨y, rfl, hy⟩ := Decimal.exists_neg_eq hfinite hsign
    rw [← hy] at hlow
    rw [isPositive_eq, unpack_neg hlow] at h
    rcases Decimal.unpack_unsigned hlow with hzero | ⟨m, e, hm, hpos⟩
    · rw [hzero] at h
      cases h
    · rw [hpos] at h
      cases h

/-- The opposite of a positive double is below zero. -/
theorem not_zero_le_neg_of_isPositive {x : Float} (h : isPositive x = true) :
    ¬ (0 : Float) ≤ -x := by
  obtain ⟨m, e, hm, hx⟩ := unpack_of_isPositive h
  rw [zero_le_iff, unpack_neg (toBits_lt_of_isPositive h), hx]
  exact Bool.false_ne_true

end BarReplay
