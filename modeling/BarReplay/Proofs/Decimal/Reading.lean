import BarReplay.Decimal.Numeral
import BarReplay.Proofs.Decimal.Operations

/-!
# Reading decimals

A decimal is read as the double nearest to it (`isNearest_nearestFloat`). If it has few digits it is
the product or the quotient of two doubles that are exact, the coefficient and a power of ten from a
table; both have their full mantissa (`IsFull`), so the result is rounded from bits enough.
Otherwise it is rounded from numbers that are no doubles, and at the far ends of the scale nothing
is computed at all.
-/

open Float.Model Float.Model.UnpackedFloat

namespace BarReplay.Decimal

/-! ### Doubles with a full mantissa -/

/-- A finite double with a full mantissa `m`, on level `k`. -/
def IsFull (x : Float) (k m : ℕ) : Prop :=
  x.toBits.toNat = k * 2 ^ 52 + m ∧ 2 ^ 52 ≤ m ∧ m < 2 ^ 53 ∧ k < 2046

theorem unpackSign_eq_zero {x : Float} (h : x.toBits.toNat < 2 ^ 63) :
    @unpackSign Format.binary64 x.toBits.toBitVec = 0#1 := by
  rw [← BitVec.toNat_inj, toNat_unpackSign]
  show x.toBits.toNat / 2 ^ 63 = 0
  omega

theorem IsFull.unpack_eq {x : Float} {k m : ℕ} (h : IsFull x k m) :
    ∃ hm, x.toModel.unpack = .finite .positive m (k - 1074) hm := by
  obtain ⟨hbits, hlow, hhigh, hk⟩ := h
  have hexponent := toNat_unpackExponent x.toBits.toBitVec
  have hmantissa := toNat_unpackMantissa x.toBits.toBitVec
  have hsign : @unpackSign Format.binary64 x.toBits.toBitVec = 0#1 :=
    unpackSign_eq_zero (by omega)
  have hx : x.toBits.toBitVec.toNat = k * 2 ^ 52 + m := hbits
  rw [hx] at hexponent hmantissa
  have he : (@unpackExponent Format.binary64 x.toBits.toBitVec).toNat = k + 1 := by omega
  have hm : (@unpackMantissa Format.binary64 x.toBits.toBitVec).toNat = m - 2 ^ 52 := by
    omega
  have hmantissaBits :
      (1#1 ++ @unpackMantissa Format.binary64 x.toBits.toBitVec).toNat = m := by
    have hlt : m - 2 ^ 52 < 2 ^ 52 := by omega
    rw [BitVec.toNat_append, hm, ← Nat.shiftLeft_add_eq_or_of_lt hlt, Nat.shiftLeft_eq]
    show 1 * 2 ^ 52 + (m - 2 ^ 52) = m
    omega
  have hmax : @unpackExponent Format.binary64 x.toBits.toBitVec ≠ -1#11 := by
    rw [Ne, ← BitVec.toNat_inj, he]
    show ¬ k + 1 = 2047
    omega
  have hmin : @unpackExponent Format.binary64 x.toBits.toBitVec ≠ 0#11 := by
    rw [Ne, ← BitVec.toNat_inj, he]
    exact Nat.succ_ne_zero k
  refine ⟨by omega, ?_⟩
  show UnpackedFloat.unpack Format.binary64 x.toBits.toBitVec = _
  rw [UnpackedFloat.unpack, if_neg hmax, if_neg hmin, UnpackedFloat.finite.injEq, hsign, he]
  refine ⟨rfl, hmantissaBits, ?_⟩
  show ((k + 1 : ℕ) : ℤ) - (1023 + 52) = k - 1074
  push_cast
  ring

/-- The value of a full double. -/
theorem IsFull.rung_eq {x : Float} {k m : ℕ} (h : IsFull x k m) :
    rung x.toBits.toNat = m * 2 ^ (k - 1074 : ℤ) := by
  obtain ⟨hbits, hlow, hhigh, -⟩ := h
  rw [hbits, Decimal.rung_eq (.inr hlow) hhigh.le]

theorem toFloat_zero : (Nat.toUInt64 0).toFloat.toModel.unpack = .zero .positive :=
  rfl

/-- A natural number is made a double by rounding it with a mantissa of the right length. -/
theorem toBits_toFloat {m s : ℕ} (hm : 0 < m) (hs : 52 = m.log2 + s) :
    m.toUInt64.toFloat.toBits.toNat = (UnpackedFloat.pack Format.binary64
      (roundWithAccuracy Format.binary64 .positive (m * 2 ^ s) (-s : ℤ) .exact)).toNat := by
  have hlt : m < 2 ^ 53 := (Nat.log2_lt hm.ne').1 (by omega)
  have hword : m.toUInt64.toNat = m := Nat.mod_eq_of_lt (by omega)
  have hamount : (-max ((m.log2 : ℤ) + 0 - 52) (-1074)).toNat = s := by omega
  have hpositive : compare (m : ℤ) 0 = .gt := compare_gt_iff_gt.2 (by exact_mod_cast hm)
  have hround : UnpackedFloat.ofNat Format.binary64 m =
      roundWithAccuracy Format.binary64 .positive (m * 2 ^ s) (-s : ℤ) .exact := by
    rw [UnpackedFloat.ofNat, UnpackedFloat.ofInt, UnpackedFloat.normalize, hpositive]
    simp only [UnpackedFloat.round, Int.toNat_natCast, targetExponent_eq, decreaseExponent,
      hamount, Nat.shiftLeft_eq, zero_sub]
  show (UnpackedFloat.pack Format.binary64
    (UnpackedFloat.ofNat Format.binary64 m.toUInt64.toNat)).toNat = _
  rw [hword, hround]

/-- A natural number below `2 ^ 53` is a full double. -/
theorem isFull_toFloat {m s : ℕ} (hm : 0 < m) (hs : 52 = m.log2 + s) :
    IsFull m.toUInt64.toFloat (1074 - s) (m * 2 ^ s) ∧
      rung m.toUInt64.toFloat.toBits.toNat = m := by
  have hlow : 2 ^ 52 ≤ m * 2 ^ s := by
    rw [hs, Nat.pow_add]
    exact Nat.mul_le_mul_right _ (Nat.log2_self_le hm.ne')
  have hhigh : m * 2 ^ s < 2 ^ 53 := by
    have hpower : 2 ^ 53 = 2 ^ (m.log2 + 1) * 2 ^ s := by
      rw [← Nat.pow_add]
      congr 1
      omega
    rw [hpower]
    exact Nat.mul_lt_mul_of_pos_right Nat.lt_log2_self (Nat.two_pow_pos s)
  have hvalue : ((m * 2 ^ s : ℕ) : ℚ) * 2 ^ (-s : ℤ) = m := by
    rw [zpow_neg, zpow_natCast]
    push_cast
    field_simp
  have hnearest : IsNearestRung m m.toUInt64.toFloat.toBits.toNat := by
    have hbits : 52 ≤ (m * 2 ^ s).log2 := (Nat.le_log2 (by omega)).2 hlow
    have hround := isNearestRung_round (e := -s) (stands_exact (m * 2 ^ s)) (by omega)
    rw [hvalue] at hround
    rw [toBits_toFloat hm hs]
    exact hround
  have hrung : rung ((1074 - s) * 2 ^ 52 + m * 2 ^ s) = m := by
    have hexponent : ((1074 - s : ℕ) - 1074 : ℤ) = -s := by omega
    rw [Decimal.rung_eq (.inr hlow) hhigh.le, hexponent, hvalue]
  have hself := isNearestRung_rung (n := (1074 - s) * 2 ^ 52 + m * 2 ^ s) (by rw [topRung]; omega)
  rw [hrung] at hself
  have hbits := hnearest.eq hself
  exact ⟨⟨hbits, hlow, hhigh, by omega⟩, by rw [hbits, hrung]⟩

/-- The bits of the powers of ten of the table. -/
theorem powerOfTen_bits (e : Fin 23) :
    let n := Float.exactlyRepresentablePowersOfTen[e].toBits.toNat
    2 ^ 52 ≤ n ∧ n / 2 ^ 52 - 1 < 2046 ∧
      (n % 2 ^ 52 + 2 ^ 52) * 2 ^ (n / 2 ^ 52 - 1 - 1022) = 10 ^ e.val * 2 ^ 52 ∧
      1022 ≤ n / 2 ^ 52 - 1 := by
  revert e
  decide

/-- The powers of ten of the table are full doubles. -/
theorem exists_isFull_powerOfTen (e : Fin 23) :
    ∃ k m, IsFull Float.exactlyRepresentablePowersOfTen[e] k m ∧
      (m * 2 ^ (k - 1074 : ℤ) : ℚ) = 10 ^ e.val := by
  have h := powerOfTen_bits e
  generalize hx : Float.exactlyRepresentablePowersOfTen[e] = x at *
  obtain ⟨hlow, hhigh, hvalue, hlevel⟩ := h
  refine ⟨x.toBits.toNat / 2 ^ 52 - 1, x.toBits.toNat % 2 ^ 52 + 2 ^ 52,
    ⟨by omega, by omega, by omega, by omega⟩, ?_⟩
  obtain ⟨k, hk⟩ : ∃ k, x.toBits.toNat / 2 ^ 52 - 1 = 1022 + k :=
    ⟨_, (Nat.add_sub_of_le hlevel).symm⟩
  rw [hk, Nat.add_sub_cancel_left] at hvalue
  have hvalue' : ((x.toBits.toNat % 2 ^ 52 + 2 ^ 52 : ℕ) : ℚ) * 2 ^ k = 10 ^ e.val * 2 ^ 52 := by
    exact_mod_cast hvalue
  have hexponent : ((1022 + k : ℕ) - 1074 : ℤ) = k + -(52 : ℕ) := by push_cast; ring
  rw [hk, hexponent, zpow_add₀ two_ne_zero, zpow_natCast, zpow_neg, zpow_natCast, ← mul_assoc,
    hvalue', mul_inv_cancel_right₀ (by positivity)]

/-- A product of full doubles is nearest. -/
theorem IsFull.mul {x y : Float} {k l m n : ℕ} (hx : IsFull x k m) (hy : IsFull y l n) :
    IsNearest (rung x.toBits.toNat * rung y.toBits.toNat) (x * y) := by
  obtain ⟨hm, hxm⟩ := hx.unpack_eq
  obtain ⟨hn, hyn⟩ := hy.unpack_eq
  have hbits : 52 ≤ (m * n).log2 := by
    rw [Nat.le_log2 (Nat.mul_pos hm hn).ne']
    exact hx.2.1.trans (Nat.le_mul_of_pos_right _ hn)
  rw [isNearest_iff, hx.rung_eq, hy.rung_eq]
  show IsNearestRung _ (UnpackedFloat.pack Format.binary64
    (UnpackedFloat.mul Format.binary64 x.toModel.unpack y.toModel.unpack)).toNat
  rw [hxm, hyn]
  exact isNearestRung_mul hm hn _ _ hbits

/-- A quotient of full doubles is nearest. -/
theorem IsFull.div {x y : Float} {k l m n : ℕ} (hx : IsFull x k m) (hy : IsFull y l n) :
    IsNearest (rung x.toBits.toNat / rung y.toBits.toNat) (x / y) := by
  obtain ⟨hm, hxm⟩ := hx.unpack_eq
  obtain ⟨hn, hyn⟩ := hy.unpack_eq
  rw [isNearest_iff, hx.rung_eq, hy.rung_eq]
  show IsNearestRung _ (UnpackedFloat.pack Format.binary64
    (UnpackedFloat.div Format.binary64 x.toModel.unpack y.toModel.unpack)).toNat
  rw [hxm, hyn]
  exact isNearestRung_div hm hn _ _

/-! ### Decimals -/

/-- A small natural number is multiplied with a double and divided by it as itself. -/
theorem IsFull.scale {y : Float} {k n m : ℕ} (hy : IsFull y k n) (hm : m < 2 ^ 53) :
    IsNearest (m * rung y.toBits.toNat) (m.toUInt64.toFloat * y) ∧
      IsNearest (m / rung y.toBits.toNat) (m.toUInt64.toFloat / y) := by
  rcases Nat.eq_zero_or_pos m with rfl | hpos
  · obtain ⟨hn, hyn⟩ := hy.unpack_eq
    have hzero : IsNearestRung 0 (UnpackedFloat.pack Format.binary64 (.zero .positive)).toNat :=
      isNearestRung_vanishing le_rfl (by positivity)
    rw [isNearest_iff, isNearest_iff, Nat.cast_zero, zero_mul, zero_div]
    constructor
    · show IsNearestRung _ (UnpackedFloat.pack Format.binary64
        (UnpackedFloat.mul Format.binary64 (Nat.toUInt64 0).toFloat.toModel.unpack
          y.toModel.unpack)).toNat
      rw [toFloat_zero, hyn]
      exact hzero
    · show IsNearestRung _ (UnpackedFloat.pack Format.binary64
        (UnpackedFloat.div Format.binary64 (Nat.toUInt64 0).toFloat.toModel.unpack
          y.toModel.unpack)).toNat
      rw [toFloat_zero, hyn]
      exact hzero
  · have hlog : m.log2 ≤ 52 := Nat.le_of_lt_succ ((Nat.log2_lt hpos.ne').2 hm)
    obtain ⟨hx, hvalue⟩ := isFull_toFloat hpos (s := 52 - m.log2) (by omega)
    have hmul := hx.mul hy
    have hdiv := hx.div hy
    rw [hvalue] at hmul hdiv
    exact ⟨hmul, hdiv⟩

/-- **A decimal is read as the nearest double.** -/
theorem isNearest_ofScientific (m : ℕ) (negative : Bool) (e : ℕ) :
    IsNearest (m * 10 ^ (if negative then -e else e : ℤ)) (Float.ofScientific m negative e) := by
  unfold Float.ofScientific
  by_cases hsmall : m < 2 ^ 53 ∧ e ≤ 22
  · obtain ⟨k, n, hten, hvalue⟩ := exists_isFull_powerOfTen ⟨e, by omega⟩
    obtain ⟨hmul, hdiv⟩ := hten.scale hsmall.1
    rw [hten.rung_eq, hvalue] at hmul hdiv
    rw [dif_pos hsmall]
    cases negative with
    | false =>
      rw [if_neg Bool.false_ne_true, zpow_natCast]
      exact hmul
    | true =>
      rw [if_pos rfl, zpow_neg, zpow_natCast, ← div_eq_mul_inv]
      exact hdiv
  · rw [dif_neg hsmall, isNearest_iff]
    cases negative with
    | false => exact isNearestRung_ofScientific m e
    | true =>
      have hneg : Int.negOfNat e = -(e : ℤ) := by cases e <;> rfl
      show IsNearestRung (m * 10 ^ (-e : ℤ)) (UnpackedFloat.pack Format.binary64
        (UnpackedFloat.ofScientific Format.binary64 m (Int.negOfNat e))).toNat
      rw [hneg]
      exact isNearestRung_ofScientific m (-e)

/-- The first digit of a number bounds it on both sides. -/
theorem digits_bound {c : ℕ} (hc : 0 < c) :
    10 ^ ((Nat.toDigits 10 c).length - 1) ≤ c ∧ c < 10 ^ (Nat.toDigits 10 c).length := by
  have hpos : 0 < (Nat.toDigits 10 c).length := Nat.length_toDigits_pos
  constructor
  · by_contra hlt
    rcases Nat.eq_zero_or_pos ((Nat.toDigits 10 c).length - 1) with hone | hmore
    · rw [hone] at hlt
      omega
    · have hfewer := (Nat.length_toDigits_le_iff (by decide) hmore).2 (Nat.lt_of_not_le hlt)
      omega
  · exact (Nat.length_toDigits_le_iff (by decide) hpos).1 le_rfl

/-- A decimal with more than 310 places before its point is beyond all doubles. -/
theorem le_decimal_of_places {c : ℕ} {e : ℤ} (hc : 0 < c)
    (he : 310 < (Nat.toDigits 10 c).length + e) : (2 : ℚ) ^ 1024 ≤ c * 10 ^ e := by
  have hdigits : ((10 ^ ((Nat.toDigits 10 c).length - 1) : ℕ) : ℚ) ≤ c := by
    exact_mod_cast (digits_bound hc).1
  have hpos : 0 < (Nat.toDigits 10 c).length := Nat.length_toDigits_pos
  have hlimit : 2 ^ 1024 ≤ 10 ^ 310 := by decide +kernel
  calc (2 : ℚ) ^ 1024 ≤ 10 ^ 310 := by exact_mod_cast hlimit
    _ = 10 ^ ((310 : ℕ) : ℤ) := (zpow_natCast _ _).symm
    _ ≤ 10 ^ (((Nat.toDigits 10 c).length - 1 : ℕ) + e) :=
      zpow_le_zpow_right₀ (by norm_num) (by omega)
    _ = (10 ^ ((Nat.toDigits 10 c).length - 1) : ℕ) * 10 ^ e := by
      rw [zpow_add₀ (by norm_num), zpow_natCast]
      push_cast
      rfl
    _ ≤ c * 10 ^ e := mul_le_mul_of_nonneg_right hdigits (by positivity)

/-- A decimal with more than 330 zeros after its point is below half of the least double. -/
theorem decimal_lt_of_places {c : ℕ} {e : ℤ} (hc : 0 < c)
    (he : (Nat.toDigits 10 c).length + e < -330) : (c * 10 ^ e : ℚ) < 2 ^ (-1075 : ℤ) := by
  have hdigits : (c : ℚ) < (10 ^ (Nat.toDigits 10 c).length : ℕ) := by
    exact_mod_cast (digits_bound hc).2
  have hlimit : 2 ^ 1075 ≤ 10 ^ 330 := by decide +kernel
  calc (c * 10 ^ e : ℚ) < (10 ^ (Nat.toDigits 10 c).length : ℕ) * 10 ^ e :=
        mul_lt_mul_of_pos_right hdigits (by positivity)
    _ = 10 ^ ((Nat.toDigits 10 c).length + e) := by
      rw [zpow_add₀ (by norm_num), zpow_natCast]
      push_cast
      rfl
    _ ≤ 10 ^ (-(330 : ℕ) : ℤ) := zpow_le_zpow_right₀ (by norm_num) (by omega)
    _ = (10 ^ 330)⁻¹ := by rw [zpow_neg, zpow_natCast]
    _ ≤ (2 ^ 1075)⁻¹ := inv_anti₀ (by positivity) (by exact_mod_cast hlimit)
    _ = 2 ^ (-(1075 : ℕ) : ℤ) := by rw [zpow_neg, zpow_natCast]

theorem toBits_infinity : (1.0 / 0.0 : Float).toBits.toNat = topRung :=
  rfl

theorem toBits_zero : (0.0 : Float).toBits.toNat = 0 :=
  rfl

/-- **The double that is computed for a decimal is the nearest one.** -/
theorem isNearest_nearestFloat (c : ℕ) (e : ℤ) : IsNearest (c * 10 ^ e) (nearestFloat c e) := by
  unfold nearestFloat
  simp only
  split_ifs with hzero hlarge hsmall
  · rw [isNearest_iff, toBits_zero, hzero, Nat.cast_zero, zero_mul]
    exact isNearestRung_vanishing le_rfl (by positivity)
  · rw [isNearest_iff, toBits_infinity]
    exact isNearestRung_infinite (le_decimal_of_places (Nat.pos_of_ne_zero hzero) hlarge)
  · rw [isNearest_iff, toBits_zero]
    exact isNearestRung_vanishing (by positivity)
      (decimal_lt_of_places (Nat.pos_of_ne_zero hzero) hsmall).le
  · have h := isNearest_ofScientific c (decide (e < 0)) e.natAbs
    have hexponent : (if decide (e < 0) = true then -(e.natAbs : ℤ) else e.natAbs) = e := by
      rcases lt_or_ge e 0 with hneg | hnonneg
      · rw [if_pos (decide_eq_true hneg)]
        omega
      · rw [if_neg (by simpa using hnonneg)]
        omega
    rw [hexponent] at h
    exact h

/-- **A numeral denotes the double nearest to the number that it is.** -/
theorem Numeral.isNearest_toFloat (n : Numeral) :
    IsNearest (valueOf (n.whole ++ n.fraction) * 10 ^ (n.exponent - n.fraction.length)) n.toFloat :=
  isNearest_nearestFloat _ _

end BarReplay.Decimal
