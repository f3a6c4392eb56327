import BarReplay.Proofs.Decimal.Order
import BarReplay.Proofs.Decimal.Overflow

/-!
# Doubles and their magnitudes

A double without a sign is unpacked in one of three shapes, and its rung says in which
(`IsUnsigned.shape`). So two of them compare as their magnitudes do (`IsUnsigned.le_iff`), and
rounding keeps the order: what is nearest to a number is not beyond any double that the number is
not beyond (`IsNearest.mono`). Rounding moves a number by half of a last place at most, which
is a fixed part of all results that are not too small (`IsNearest.relative`).
-/

open Float.Model Float.Model.UnpackedFloat

namespace BarReplay.Decimal

/-! ### Shapes -/

/-- What a double without a sign is unpacked as, with the rung that its bits count. -/
inductive Shape (x : Float) : Prop where
  | zero (unpacks : x.toModel.unpack = .zero .positive) (bits : x.toBits.toNat = 0)
  | finite (k r : ℕ) (positive : 0 < r)
      (unpacks : x.toModel.unpack = .finite .positive r (k - 1074) positive)
      (bits : x.toBits.toNat = k * 2 ^ 52 + r) (level : k = 0 ∨ 2 ^ 52 ≤ r) (room : r < 2 ^ 53)
      (below : x.toBits.toNat < topRung)
  | infinity (unpacks : x.toModel.unpack = .infinity .positive) (bits : x.toBits.toNat = topRung)

/-- A rung of the lowest level is unpacked as its number, on the exponent of that level. -/
theorem unpack_lowest {x : Float} (hlow : x.toBits.toNat < 2 ^ 52) (hpos : 0 < x.toBits.toNat) :
    x.toModel.unpack = .finite .positive x.toBits.toNat (-1074) hpos := by
  have hexponent : @unpackExponent Format.binary64 x.toBits.toBitVec = 0#11 := by
    rw [← BitVec.toNat_inj, toNat_unpackExponent]
    show x.toBits.toNat / 2 ^ 52 % 2 ^ 11 = 0
    omega
  have hmantissa : (@unpackMantissa Format.binary64 x.toBits.toBitVec).toNat = x.toBits.toNat := by
    rw [toNat_unpackMantissa]
    exact Nat.mod_eq_of_lt hlow
  have hsome : @unpackMantissa Format.binary64 x.toBits.toBitVec ≠ 0#52 := by
    rw [ne_eq, ← BitVec.toNat_inj, hmantissa]
    exact hpos.ne'
  have hmax : ¬ @unpackExponent Format.binary64 x.toBits.toBitVec = -1#11 := by
    rw [hexponent]
    decide
  have hsign := unpackSign_eq_zero (x := x) (by omega)
  show UnpackedFloat.unpack Format.binary64 x.toBits.toBitVec = _
  rw [UnpackedFloat.unpack, if_neg hmax, if_pos hexponent, dif_neg hsome,
    UnpackedFloat.finite.injEq, hsign, hexponent]
  exact ⟨rfl, hmantissa, rfl⟩

/-- The last rung is unpacked as infinity. -/
theorem unpack_top {x : Float} (h : x.toBits.toNat = topRung) :
    x.toModel.unpack = .infinity .positive := by
  have hmax : @unpackExponent Format.binary64 x.toBits.toBitVec = -1#11 := by
    rw [unpackExponent_eq_neg_one_iff]
    show x.toBits.toNat / 2 ^ 52 % 2 ^ 11 = 2047
    rw [h]
    rfl
  have hnone : @unpackMantissa Format.binary64 x.toBits.toBitVec = 0#52 := by
    rw [unpackMantissa_eq_zero_iff]
    show x.toBits.toNat % 2 ^ 52 = 0
    rw [h]
    rfl
  have hsign := unpackSign_eq_zero (x := x) (by rw [h, topRung]; omega)
  show UnpackedFloat.unpack Format.binary64 x.toBits.toBitVec = _
  rw [UnpackedFloat.unpack, if_pos hmax, if_pos hnone, hsign]
  rfl

theorem IsUnsigned.shape {x : Float} (hx : IsUnsigned x) : Shape x := by
  rcases (isUnsigned_iff.1 hx).lt_or_eq with hlt | htop
  · obtain ⟨k, r, hbits, hk, hr⟩ := exists_level x.toBits.toNat
    rcases Nat.lt_or_ge r (2 ^ 52) with hlow | hhigh
    · obtain rfl : k = 0 := by omega
      obtain rfl : x.toBits.toNat = r := by omega
      rcases Nat.eq_zero_or_pos x.toBits.toNat with hzero | hpos
      · refine .zero ?_ hzero
        have hx0 : x = 0 := float_ext (hzero.trans rfl)
        rw [hx0]
        rfl
      · exact .finite 0 _ hpos (unpack_lowest hlow hpos) hbits hk hr hlt
    · have hfull : IsFull x k r := ⟨hbits, hhigh, hr, by rw [topRung] at hlt; omega⟩
      obtain ⟨hpos, hunpack⟩ := hfull.unpack_eq
      exact .finite k r hpos hunpack hbits hk hr hlt
  · exact .infinity (unpack_top htop) htop

/-! ### Order -/

/-- Doubles without a sign compare as the numbers of their rungs. -/
theorem IsUnsigned.le_iff_toBits {x y : Float} (hx : IsUnsigned x) (hy : IsUnsigned y) :
    x ≤ y ↔ x.toBits.toNat ≤ y.toBits.toNat := by
  rw [← decide_eq_true_iff (p := x ≤ y), decide_le_eq]
  cases hx.shape with
  | zero hunpack hbits =>
    rw [hunpack, hbits]
    refine iff_of_true ?_ (Nat.zero_le _)
    cases hy.shape with
    | zero hunpack' => rw [hunpack']; rfl
    | finite k r hpos hunpack' => rw [hunpack']; rfl
    | infinity hunpack' => rw [hunpack']; rfl
  | finite k r hpos hunpack hbits hk hr hlt =>
    rw [hunpack]
    cases hy.shape with
    | zero hunpack' hbits' =>
      rw [hunpack', hbits']
      exact iff_of_false Bool.false_ne_true (by omega)
    | finite k' r' hpos' hunpack' hbits' hk' hr' hlt' =>
      -- the exponents tell first, as each level begins where the one below it ends
      rw [hunpack', hbits, hbits']
      show ((compare (k - 1074 : ℤ) (k' - 1074)).then (compare r r')).isLE = true ↔ _
      rw [Ordering.isLE_then_iff_or, compare_lt_iff_lt, compare_eq_iff_eq, Nat.isLE_compare]
      omega
    | infinity hunpack' hbits' =>
      rw [hunpack', hbits']
      exact iff_of_true rfl hlt.le
  | infinity hunpack hbits =>
    rw [hunpack, hbits]
    cases hy.shape with
    | zero hunpack' hbits' =>
      rw [hunpack', hbits']
      exact iff_of_false Bool.false_ne_true (by decide)
    | finite k r hpos hunpack' hbits' hk hr hlt =>
      rw [hunpack']
      exact iff_of_false Bool.false_ne_true hlt.not_ge
    | infinity hunpack' hbits' =>
      rw [hunpack', hbits']
      exact iff_of_true rfl le_rfl

/-- **Doubles without a sign compare as their magnitudes.** -/
theorem IsUnsigned.le_iff {x y : Float} (hx : IsUnsigned x) (hy : IsUnsigned y) :
    x ≤ y ↔ magnitude x ≤ magnitude y := by
  rw [hx.magnitude_eq, hy.magnitude_eq, rung_strictMono.le_iff_le, hx.le_iff_toBits hy]

theorem IsUnsigned.magnitude_le {x : Float} (hx : IsUnsigned x) : magnitude x ≤ 2 ^ 1024 := by
  rw [hx.magnitude_eq, ← rung_top]
  exact rung_strictMono.monotone (isUnsigned_iff.1 hx)

/-! ### Rounding -/

/-- A double without a sign is the one nearest to its magnitude. -/
theorem IsUnsigned.isNearest {x : Float} (hx : IsUnsigned x) : IsNearest (magnitude x) x := by
  rw [isNearest_iff, hx.magnitude_eq]
  exact isNearestRung_rung (isUnsigned_iff.1 hx)

/-- What is no nearer to the smaller of two numbers is not below their midpoint. -/
theorem add_le_of_abs_sub_le {q a b : ℚ} (hba : b < a) (h : |q - a| ≤ |q - b|) :
    a + b ≤ 2 * q := by
  rcases abs_cases (q - a) with ⟨ha, ha'⟩ | ⟨ha, ha'⟩ <;>
    rcases abs_cases (q - b) with ⟨hb, hb'⟩ | ⟨hb, hb'⟩ <;> linarith

/-- What is no nearer to the larger of two numbers is not above their midpoint. -/
theorem le_add_of_abs_sub_le {q a b : ℚ} (hba : b < a) (h : |q - b| ≤ |q - a|) :
    2 * q ≤ b + a := by
  by_contra hlt
  exact (abs_sub_lt_of_midpoint le_rfl hba (not_le.1 hlt)).not_ge h

/-- **Rounding keeps the order.** -/
theorem IsNearest.mono {q r : ℚ} {x y : Float} (hx : IsNearest q x) (hy : IsNearest r y)
    (h : q ≤ r) : magnitude x ≤ magnitude y := by
  rcases h.lt_or_eq with hlt | rfl
  · by_contra hgt
    have hxy : magnitude y < magnitude x := not_le.1 hgt
    have hbelow := add_le_of_abs_sub_le hxy (hx.nearest y hy.unsigned)
    have habove := le_add_of_abs_sub_le hxy (hy.nearest x hx.unsigned)
    linarith
  · rw [hx.eq hy]

/-- The least double on the upper levels, where the last place is a fixed part of the whole. -/
def leastNormal : ℚ :=
  2 ^ (-1022 : ℤ)

/-- The part of a rounded result that rounding cannot have added. -/
def unrounded : ℚ :=
  1 - 2 ^ (-53 : ℤ)

theorem leastNormal_le_one : leastNormal ≤ 1 :=
  zpow_le_one_of_nonpos₀ one_le_two (by norm_num)

theorem unrounded_pos : 0 < unrounded := by
  rw [unrounded]
  norm_num

/-- On the upper levels, the next rung is not far. -/
theorem rung_succ_le {p : ℕ} (h : leastNormal ≤ rung (p + 1)) :
    rung (p + 1) * (1 - 2 ^ (-52 : ℤ)) ≤ rung p := by
  obtain ⟨k, r, rfl, hk, hr⟩ := exists_level p
  have hunit : (0 : ℚ) < 2 ^ (k - 1074 : ℤ) := by positivity
  have hnext : rung (k * 2 ^ 52 + r + 1) = (r + 1) * 2 ^ (k - 1074 : ℤ) := by
    rw [Nat.add_assoc, rung_eq (by omega) hr]
    push_cast
    rfl
  have hlarge : (2 : ℚ) ^ 52 ≤ r + 1 := by
    rcases hk with rfl | hk
    · have hleast : leastNormal = 2 ^ 52 * 2 ^ ((0 : ℕ) - 1074 : ℤ) := by
        rw [leastNormal, ← zpow_natCast, ← zpow_add₀ two_ne_zero]
        norm_num
      rw [hnext, hleast] at h
      exact le_of_mul_le_mul_right h hunit
    · have hcast : (2 : ℚ) ^ 52 ≤ r := by exact_mod_cast hk
      linarith
  have hstep : (r + 1 : ℚ) * (1 - 2 ^ (-52 : ℤ)) ≤ r := by
    norm_num at hlarge ⊢
    linarith
  calc rung (k * 2 ^ 52 + r + 1) * (1 - 2 ^ (-52 : ℤ))
      = (r + 1) * (1 - 2 ^ (-52 : ℤ)) * 2 ^ (k - 1074 : ℤ) := by rw [hnext]; ring
    _ ≤ r * 2 ^ (k - 1074 : ℤ) := mul_le_mul_of_nonneg_right hstep hunit.le
    _ = rung (k * 2 ^ 52 + r) := (rung_eq hk hr.le).symm

/-- **A rounded result is too large by a fixed part of it at most**, if it is not too small. -/
theorem IsNearest.relative {q : ℚ} {x : Float} (hx : IsNearest q x)
    (hnormal : leastNormal ≤ magnitude x) : magnitude x * unrounded ≤ q := by
  rw [unrounded]
  have hrung := isNearest_iff.1 hx
  rw [hx.unsigned.magnitude_eq] at hnormal ⊢
  obtain ⟨p, hp⟩ : ∃ p, x.toBits.toNat = p + 1 := by
    refine Nat.exists_eq_succ_of_ne_zero fun hzero ↦ ?_
    rw [hzero, rung_zero, leastNormal] at hnormal
    exact absurd hnormal (not_le.2 (by positivity))
  rw [hp] at hrung hnormal ⊢
  have hmiddle := add_le_of_abs_sub_le (rung_lt_succ p)
    (hrung.nearest p ((Nat.le_succ p).trans hrung.le_top))
  have hgap := rung_succ_le hnormal
  have hhalf : (2 : ℚ) ^ (-52 : ℤ) = 2 * 2 ^ (-53 : ℤ) := by norm_num
  rw [hhalf] at hgap
  linarith

end BarReplay.Decimal
