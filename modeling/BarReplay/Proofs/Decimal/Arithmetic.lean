import BarReplay.Proofs.Decimal.Magnitude

/-!
# Arithmetic above zero

The sum, the product and the quotient of two doubles above zero are the doubles nearest to the exact
results (`isNearest_add`, `isNearest_mul`, `isNearest_div`), and so is a count made a double. What
is counted is not more than the double it is the whole part of (`toUInt64_le`). A difference is not
below zero if what is taken away is not the larger (`isUnsigned_sub`).

Products may be of infinities: one factor that is at least one keeps an infinity what it is.
-/

open Float.Model Float.Model.UnpackedFloat

namespace BarReplay.Decimal

/-! ### Above zero -/

theorem magnitude_nonneg (x : Float) : 0 ≤ magnitude x := by
  rw [magnitude, Binary.value]
  positivity

theorem IsUnsigned.zero_le {x : Float} (hx : IsUnsigned x) : 0 ≤ x := by
  rw [zero_le_iff]
  cases hx.shape with
  | zero hunpack => rw [hunpack]; rfl
  | finite k r hpos hunpack => rw [hunpack]; rfl
  | infinity hunpack => rw [hunpack]; rfl

/-- What is above zero has no sign. -/
theorem isUnsigned_of_zero_lt {x : Float} (h : 0 < x) : IsUnsigned x := by
  rw [zero_lt_iff] at h
  constructor
  · by_contra hnegative
    have hbit : x.toBits.toNat / 2 ^ 63 = 1 := eq_of_beq (Bool.not_eq_false _ ▸ hnegative)
    have hsign : @unpackSign Format.binary64 x.toBits.toBitVec = 1#1 := by
      rw [← BitVec.toNat_inj, toNat_unpackSign]
      exact hbit
    change UnpackedFloat.lt _ (UnpackedFloat.unpack Format.binary64 x.toBits.toBitVec) = true at h
    rw [UnpackedFloat.unpack, hsign] at h
    split_ifs at h <;> cases h
  · show x.toModel.unpack.isNaN = false
    cases hx : x.toModel.unpack with
    | notANumber =>
      rw [hx] at h
      cases h
    | infinity | zero | finite => rfl

/-- What is above zero is positive or infinite. -/
theorem isPositive_or_top {x : Float} (h : 0 < x) : isPositive x = true ∨
    x.toModel.unpack = .infinity .positive ∧ magnitude x = 2 ^ 1024 := by
  have hx := isUnsigned_of_zero_lt h
  have hpos : decide (0 < x) = true := decide_eq_true h
  cases hx.shape with
  | zero hunpack =>
    rw [zero_lt_iff, hunpack] at h
    cases h
  | finite k r hr hunpack =>
    refine .inl (Bool.and_eq_true_iff.2 ⟨?_, hpos⟩)
    show x.toModel.unpack.isFinite = true
    rw [hunpack]
    rfl
  | infinity hunpack hbits => exact .inr ⟨hunpack, by rw [hx.magnitude_eq, hbits, rung_top]⟩

theorem IsUnsigned.zero_lt {x : Float} (hx : IsUnsigned x) (h : 0 < magnitude x) : 0 < x := by
  rw [zero_lt_iff]
  cases hx.shape with
  | zero hunpack hbits =>
    rw [hx.magnitude_eq, hbits, rung_zero] at h
    exact absurd h (lt_irrefl _)
  | finite k r hr hunpack => rw [hunpack]; rfl
  | infinity hunpack => rw [hunpack]; rfl

theorem IsUnsigned.isPositive {x : Float} (hx : IsUnsigned x) (hfinite : x.isFinite = true)
    (h : 0 < magnitude x) : isPositive x = true :=
  Bool.and_eq_true_iff.2 ⟨hfinite, decide_eq_true (hx.zero_lt h)⟩

/-- A finite double is at most the largest one. -/
theorem magnitude_le_of_isFinite {x : Float} (h : x.isFinite = true) :
    magnitude x ≤ 2 ^ 1024 - 2 ^ 971 := by
  have hlt := isFinite_iff.1 h
  rw [magnitude, ofFloat_eq_ofRung, ← rung_pred_top]
  exact rung_strictMono.monotone (Nat.le_pred_of_lt hlt)

theorem isFinite_of_isPositive {x : Float} (h : isPositive x = true) : x.isFinite = true :=
  (Bool.and_eq_true_iff.1 h).1

theorem zero_lt_of_isPositive {x : Float} (h : isPositive x = true) : 0 < x :=
  of_decide_eq_true (Bool.and_eq_true_iff.1 h).2

theorem isUnsigned_of_isPositive {x : Float} (h : isPositive x = true) : IsUnsigned x :=
  isUnsigned_of_zero_lt (zero_lt_of_isPositive h)

/-- The parts of a positive double, and what they make of its magnitude. -/
theorem exists_parts {x : Float} (h : isPositive x = true) :
    ∃ (k r : ℕ) (hr : 0 < r), x.toModel.unpack = .finite .positive r (k - 1074) hr ∧
      magnitude x = r * 2 ^ (k - 1074 : ℤ) ∧ (k = 0 ∨ 2 ^ 52 ≤ r) := by
  have hx := isUnsigned_of_isPositive h
  cases hx.shape with
  | zero hunpack =>
    rw [isPositive_eq, hunpack] at h
    cases h
  | finite k r hr hunpack hbits hk hroom =>
    exact ⟨k, r, hr, hunpack, by rw [hx.magnitude_eq, hbits, rung_eq hk hroom.le], hk⟩
  | infinity hunpack =>
    rw [isPositive_eq, hunpack] at h
    cases h

theorem magnitude_pos {x : Float} (h : 0 < x) : 0 < magnitude x := by
  rcases isPositive_or_top h with hpos | ⟨-, htop⟩
  · obtain ⟨k, r, hr, -, hvalue, -⟩ := exists_parts hpos
    rw [hvalue]
    positivity
  · rw [htop]
    positivity

/-! ### Sums -/

/-- **A number of units is rounded to the nearest double**, whatever the unit is. -/
theorem isNearestRung_roundUnits {m : ℕ} (hm : 0 < m) (e : ℤ) :
    IsNearestRung (m * 2 ^ e) (UnpackedFloat.pack Format.binary64
      (UnpackedFloat.round Format.binary64 .positive m e)).toNat := by
  obtain ⟨s, hs⟩ : ∃ s : ℕ, (e - max ((m.log2 : ℤ) + e - 52) (-1074)).toNat = s := ⟨_, rfl⟩
  have hlog : m.log2 + s ≤ (m * 2 ^ s).log2 := by
    rw [Nat.le_log2 (Nat.mul_pos hm (Nat.two_pow_pos s)).ne', Nat.pow_add]
    exact Nat.mul_le_mul_right _ (Nat.log2_self_le hm.ne')
  have hround := isNearestRung_round (e := e - s) (stands_exact (m * 2 ^ s)) (by omega)
  have hvalue : (m * 2 ^ e : ℚ) = (m * 2 ^ s : ℕ) * 2 ^ (e - s) := by
    rw [zpow_sub₀ two_ne_zero, zpow_natCast]
    push_cast
    field_simp
  rw [hvalue]
  simpa only [UnpackedFloat.round, targetExponent_eq, decreaseExponent, Nat.shiftLeft_eq, hs]
    using hround

/-- So is a sum or a difference of such numbers that is not negative. -/
theorem isNearestRung_normalize {m : ℤ} (hm : 0 ≤ m) (e : ℤ) :
    IsNearestRung (m * 2 ^ e) (UnpackedFloat.pack Format.binary64
      (UnpackedFloat.normalize Format.binary64 m e .positive)).toNat := by
  rcases hm.lt_or_eq with hpos | rfl
  · obtain ⟨n, rfl⟩ : ∃ n : ℕ, m = n := ⟨m.toNat, by omega⟩
    rw [UnpackedFloat.normalize, compare_gt_iff_gt.2 hpos, Int.toNat_natCast]
    exact isNearestRung_roundUnits (by exact_mod_cast hpos) e
  · rw [Int.cast_zero, zero_mul]
    exact isNearestRung_vanishing le_rfl (by positivity)

/-- Two doubles are added and subtracted in the unit of the smaller exponent. -/
theorem cast_decreaseExponent (m : ℕ) {e t : ℤ} (h : t ≤ e) :
    ((decreaseExponent m e t).1 : ℚ) * 2 ^ t = m * 2 ^ e := by
  have hshift : e = (e - t).toNat + t := by omega
  conv_rhs => rw [hshift, zpow_add₀ two_ne_zero, zpow_natCast]
  rw [decreaseExponent, Nat.shiftLeft_eq]
  push_cast
  ring

theorem isNearest_add {x y : Float} (hx : isPositive x = true) (hy : isPositive y = true) :
    IsNearest (magnitude x + magnitude y) (x + y) := by
  obtain ⟨k, r, hr, hxr, hxvalue, -⟩ := exists_parts hx
  obtain ⟨l, n, hn, hyn, hyvalue, -⟩ := exists_parts hy
  rw [isNearest_iff, hxvalue, hyvalue]
  show IsNearestRung _ (UnpackedFloat.pack Format.binary64
    (UnpackedFloat.add Format.binary64 x.toModel.unpack y.toModel.unpack)).toNat
  rw [hxr, hyn]
  have h := isNearestRung_normalize
    (m := (decreaseExponent r (k - 1074) (min (k - 1074) (l - 1074))).1 +
      (decreaseExponent n (l - 1074) (min (k - 1074) (l - 1074))).1)
    (by positivity) (min (k - 1074) (l - 1074))
  rw [Int.cast_add, Int.cast_natCast, Int.cast_natCast, add_mul,
    cast_decreaseExponent r (min_le_left _ _), cast_decreaseExponent n (min_le_right _ _)] at h
  exact h

/-- **A difference is not below zero** if what is taken away is finite and not the larger. -/
theorem isUnsigned_sub {x y : Float} (hx : 0 < x) (hy : isPositive y = true) (h : y ≤ x) :
    IsUnsigned (x - y) := by
  rw [(isUnsigned_of_isPositive hy).le_iff (isUnsigned_of_zero_lt hx)] at h
  obtain ⟨l, n, hn, hyn, hyvalue, -⟩ := exists_parts hy
  rw [isUnsigned_iff]
  show (UnpackedFloat.pack Format.binary64
    (UnpackedFloat.sub Format.binary64 x.toModel.unpack y.toModel.unpack)).toNat ≤ topRung
  rw [hyn]
  rcases isPositive_or_top hx with hpos | ⟨htop, -⟩
  · obtain ⟨k, r, hr, hxr, hxvalue, -⟩ := exists_parts hpos
    rw [hxvalue, hyvalue, ← cast_decreaseExponent r (min_le_left (k - 1074 : ℤ) (l - 1074)),
      ← cast_decreaseExponent n (min_le_right (k - 1074 : ℤ) (l - 1074))] at h
    have hle := Int.ofNat_le.2 (Nat.cast_le.1 (le_of_mul_le_mul_right h (by positivity)))
    rw [hxr]
    exact (isNearestRung_normalize (sub_nonneg.2 hle) _).le_top
  · rw [htop]
    exact toNat_packedInfinity.le

/-! ### Products and quotients -/

theorem isNearest_mul_of_isPositive {x y : Float} (hx : isPositive x = true)
    (hy : isPositive y = true) :
    IsNearest (magnitude x * magnitude y) (x * y) := by
  obtain ⟨k, r, hr, hxr, hxvalue, hk⟩ := exists_parts hx
  obtain ⟨l, n, hn, hyn, hyvalue, hl⟩ := exists_parts hy
  rw [isNearest_iff, hxvalue, hyvalue]
  show IsNearestRung _ (UnpackedFloat.pack Format.binary64
    (UnpackedFloat.mul Format.binary64 x.toModel.unpack y.toModel.unpack)).toNat
  rw [hxr, hyn]
  -- two factors of the lowest level have an exponent to spare, all others have the bits
  have hbits : (k - 1074 : ℤ) + (l - 1074) ≤
      max (((r * n).log2 : ℤ) + ((k - 1074) + (l - 1074)) - 52) (-1074) := by
    by_cases hlow : k = 0 ∧ l = 0
    · omega
    · have hfull : 2 ^ 52 ≤ r * n := by
        rcases hk with rfl | hk
        · exact (hl.resolve_left fun h ↦ hlow ⟨rfl, h⟩).trans (Nat.le_mul_of_pos_left n hr)
        · exact hk.trans (Nat.le_mul_of_pos_right r hn)
      have hlog : 52 ≤ (r * n).log2 := (Nat.le_log2 (Nat.mul_pos hr hn).ne').2 hfull
      omega
  have hround := isNearestRung_round (stands_exact (r * n)) hbits
  have hvalue : (r * 2 ^ (k - 1074 : ℤ) * (n * 2 ^ (l - 1074 : ℤ)) : ℚ) =
      (r * n : ℕ) * 2 ^ ((k - 1074) + (l - 1074) : ℤ) := by
    rw [zpow_add₀ two_ne_zero]
    push_cast
    ring
  rw [hvalue]
  exact hround

/-- **A product is nearest** also if a factor is infinite, as long as the other is at least one. -/
theorem isNearest_mul {x y : Float} (hx : 0 < x) (hy : 0 < y)
    (hxy : x.isFinite = true ∨ 1 ≤ magnitude y) (hyx : y.isFinite = true ∨ 1 ≤ magnitude x) :
    IsNearest (magnitude x * magnitude y) (x * y) := by
  have hinfinite (htop : UnpackedFloat.mul Format.binary64 x.toModel.unpack y.toModel.unpack =
      .infinity .positive) (hlarge : 2 ^ 1024 ≤ magnitude x * magnitude y) :
      IsNearest (magnitude x * magnitude y) (x * y) := by
    rw [isNearest_iff]
    show IsNearestRung _ (UnpackedFloat.pack Format.binary64
      (UnpackedFloat.mul Format.binary64 x.toModel.unpack y.toModel.unpack)).toNat
    rw [htop]
    exact toNat_packedInfinity ▸ isNearestRung_infinite hlarge
  have hnot {z : Float} (hz : z.toModel.unpack = .infinity .positive) : ¬ z.isFinite = true := by
    show ¬ z.toModel.unpack.isFinite = true
    rw [hz]
    exact Bool.false_ne_true
  rcases isPositive_or_top hx with hxpos | ⟨hxtop, hxvalue⟩ <;>
    rcases isPositive_or_top hy with hypos | ⟨hytop, hyvalue⟩
  · exact isNearest_mul_of_isPositive hxpos hypos
  · obtain ⟨k, r, hr, hxr, -, -⟩ := exists_parts hxpos
    refine hinfinite (by rw [hxr, hytop]; rfl) ?_
    rw [hyvalue]
    exact le_mul_of_one_le_left (by positivity) (hyx.resolve_left (hnot hytop))
  · obtain ⟨l, n, hn, hyn, -, -⟩ := exists_parts hypos
    refine hinfinite (by rw [hxtop, hyn]; rfl) ?_
    rw [hxvalue]
    exact le_mul_of_one_le_right (by positivity) (hxy.resolve_left (hnot hxtop))
  · refine hinfinite (by rw [hxtop, hytop]; rfl) ?_
    rw [hxvalue]
    exact le_mul_of_one_le_right (by positivity) (hxy.resolve_left (hnot hxtop))

/-- A product with a positive factor is above zero only if the other factor is. -/
theorem zero_lt_of_mul {x y : Float} (hy : isPositive y = true) (h : 0 < x * y) : 0 < x := by
  obtain ⟨l, n, hn, hyn, -, -⟩ := exists_parts hy
  have hproduct := isUnsigned_of_zero_lt h
  have hle : (UnpackedFloat.pack Format.binary64 (UnpackedFloat.mul Format.binary64
      x.toModel.unpack y.toModel.unpack)).toNat ≤ topRung := isUnsigned_iff.1 hproduct
  rw [zero_lt_iff]
  rw [hyn] at hle
  cases hx : x.toModel.unpack with
  | notANumber =>
    have hlarge : ¬ (UnpackedFloat.pack Format.binary64 .notANumber).toNat ≤ topRung := by
      decide
    rw [hx] at hle
    exact absurd hle hlarge
  | infinity s =>
    have hlarge : ¬ (UnpackedFloat.pack Format.binary64 (.infinity .negative)).toNat ≤ topRung := by
      decide
    rw [hx] at hle
    cases s with
    | positive => rfl
    | negative => exact absurd hle hlarge
  | zero s =>
    have hlarge : ¬ (UnpackedFloat.pack Format.binary64 (.zero .negative)).toNat ≤ topRung := by
      decide
    rw [hx] at hle
    cases s with
    | positive =>
      have hbits : (x * y).toBits.toNat = 0 := by
        show (UnpackedFloat.pack Format.binary64 (UnpackedFloat.mul Format.binary64
          x.toModel.unpack y.toModel.unpack)).toNat = 0
        rw [hx, hyn]
        rfl
      have hpos := magnitude_pos h
      rw [hproduct.magnitude_eq, hbits, rung_zero] at hpos
      exact absurd hpos (lt_irrefl _)
    | negative => exact absurd hle hlarge
  | finite s m e hm =>
    rw [hx] at hle
    cases s with
    | positive => rfl
    | negative =>
      -- rounding keeps the sign
      refine absurd hle ?_
      change ¬ (UnpackedFloat.pack Format.binary64 (roundWithAccuracy Format.binary64 .negative
        (m * n) (e + (l - 1074)) .exact)).toNat ≤ topRung
      rw [roundWithAccuracy]
      dsimp only
      split_ifs
      · decide
      · rw [toNat_pack_negative, topRung]
        omega

theorem isNearest_div {x y : Float} (hx : isPositive x = true) (hy : isPositive y = true) :
    IsNearest (magnitude x / magnitude y) (x / y) := by
  obtain ⟨k, r, hr, hxr, hxvalue, -⟩ := exists_parts hx
  obtain ⟨l, n, hn, hyn, hyvalue, -⟩ := exists_parts hy
  rw [isNearest_iff, hxvalue, hyvalue]
  show IsNearestRung _ (UnpackedFloat.pack Format.binary64
    (UnpackedFloat.div Format.binary64 x.toModel.unpack y.toModel.unpack)).toNat
  rw [hxr, hyn]
  exact isNearestRung_div hr hn _ _

/-! ### One and more -/

theorem isPositive_one : isPositive (1.0 : Float) = true :=
  rfl

theorem magnitude_one : magnitude 1.0 = 1 := by
  have hbits : (1.0 : Float).toBits.toNat = 1022 * 2 ^ 52 + 2 ^ 52 := rfl
  rw [(isUnsigned_of_isPositive isPositive_one).magnitude_eq, hbits,
    rung_eq (.inr le_rfl) (by norm_num)]
  norm_num

/-- What is at least one is rounded to at least one. -/
theorem IsNearest.one_le {q : ℚ} {x : Float} (h : IsNearest q x) (hq : 1 ≤ q) :
    1 ≤ magnitude x := by
  have hself := (isUnsigned_of_isPositive isPositive_one).isNearest
  have hmono := hself.mono h (by rwa [magnitude_one])
  rwa [magnitude_one] at hmono

/-- A zero of either sign has no magnitude, and added to one it changes nothing. -/
theorem magnitude_of_eq_zero {c : Float} (h : (c == 0) = true) :
    magnitude c = 0 ∧ 1.0 + c = 1.0 := by
  have h : UnpackedFloat.beq c.toModel.unpack (.zero .positive) = true := h
  obtain ⟨s, hs⟩ : ∃ s, c.toModel.unpack = .zero s := by
    cases hc : c.toModel.unpack with
    | infinity s => rw [hc] at h; cases s <;> cases h
    | notANumber => rw [hc] at h; cases h
    | zero s => exact ⟨s, rfl⟩
    | finite s m e hm => rw [hc] at h; cases s <;> cases h
  have hpack : UnpackedFloat.pack Format.binary64 c.toModel.unpack = c.toBits.toBitVec :=
    pack_unpack_of_valid c.toModel.valid
  have hbits : c.toBits.toNat % 2 ^ 63 = 0 := by
    show c.toBits.toBitVec.toNat % 2 ^ 63 = 0
    rw [← hpack, hs]
    cases s <;> decide
  constructor
  · rw [magnitude, ofFloat_eq_ofRung, hbits]
    exact rung_zero
  · apply float_ext
    show (UnpackedFloat.pack Format.binary64 (UnpackedFloat.add Format.binary64
      (1.0 : Float).toModel.unpack c.toModel.unpack)).toNat = _
    rw [hs]
    cases s <;> rfl

/-- A rate is added to one. -/
theorem isNearest_one_add {c : Float} (hc : isNonNegative c = true) :
    IsNearest (1 + magnitude c) (1.0 + c) := by
  cases hzero : c == 0 with
  | false =>
    rw [← magnitude_one]
    exact isNearest_add isPositive_one (isPositive_of_isNonNegative hc hzero)
  | true =>
    obtain ⟨hmagnitude, hsum⟩ := magnitude_of_eq_zero hzero
    have hself := (isUnsigned_of_isPositive isPositive_one).isNearest
    rwa [magnitude_one, ← add_zero (1 : ℚ), ← hmagnitude, ← hsum] at hself

/-- What is nearest to something at most a finite double is finite. -/
theorem IsNearest.isFinite_of_le {q : ℚ} {x y : Float} (h : IsNearest q x)
    (hy : y.isFinite = true) (hle : q ≤ magnitude y) : x.isFinite = true := by
  rw [h.isFinite_iff, overflowBound]
  have hlarge := hle.trans (magnitude_le_of_isFinite hy)
  have hstep : (2 : ℚ) ^ 970 < 2 ^ 971 := pow_lt_pow_right₀ one_lt_two (by norm_num)
  generalize (2 : ℚ) ^ 1024 = top at *
  generalize (2 : ℚ) ^ 971 = step at *
  generalize (2 : ℚ) ^ 970 = half at *
  linarith only [hlarge, hstep]

theorem one_le_magnitude_one_add {c : Float} (hc : isNonNegative c = true) :
    1 ≤ magnitude (1.0 + c) :=
  (isNearest_one_add hc).one_le (le_add_of_nonneg_right (magnitude_nonneg c))

/-- One and a rate is finite, as the largest double is far larger than one. -/
theorem isPositive_one_add {c : Float} (hc : isNonNegative c = true) :
    isPositive (1.0 + c) = true := by
  have h := isNearest_one_add hc
  have hone := one_le_magnitude_one_add hc
  have hfinite : (1.0 + c).isFinite = true := by
    rw [h.isFinite_iff, overflowBound]
    have hlarge := magnitude_le_of_isFinite (isFinite_of_isNonNegative hc)
    have hdouble : (2 : ℚ) ^ 971 = 2 * 2 ^ 970 := pow_succ' 2 970
    have hroom : (1 : ℚ) < 2 ^ 970 := one_lt_pow₀ one_lt_two (by norm_num)
    rw [hdouble] at hlarge
    generalize (2 : ℚ) ^ 1024 = top at *
    generalize (2 : ℚ) ^ 970 = half at *
    linarith only [hlarge, hroom]
  exact h.unsigned.isPositive hfinite (one_pos.trans_le hone)

/-! ### Counts -/

theorem isNearest_ofNat (n : ℕ) : IsNearest n (Float.ofNat n) := by
  have h := isNearest_ofScientific n false 0
  rw [if_neg Bool.false_ne_true, Nat.cast_zero, zpow_zero, mul_one] at h
  exact h

/-- The whole part is not more than the whole. -/
theorem roundToInt_le (m : ℕ) (e : ℤ) :
    ((roundToInt .positive m e).toNat : ℚ) ≤ m * 2 ^ e := by
  obtain ⟨s, hs⟩ : ∃ s : ℕ, (e - 0).toNat = s := ⟨_, rfl⟩
  obtain ⟨t, ht⟩ : ∃ t : ℕ, (0 - (e - s)).toNat = t := ⟨_, rfl⟩
  have hround : (roundToInt .positive m e).toNat = m * 2 ^ s / 2 ^ t := by
    simp only [roundToInt, decreaseExponent, shiftToExponent, hs, ht, Nat.shiftLeft_eq,
      mantissa_shiftRight, mantissa_ofMantissaAndAccuracy]
    exact Int.toNat_natCast _
  have hexponent : e = s - t := by omega
  rw [hround, hexponent, zpow_sub₀ two_ne_zero, zpow_natCast, zpow_natCast, ← mul_div_assoc]
  exact_mod_cast Nat.cast_div_le (m := m * 2 ^ s) (n := 2 ^ t)

/-- A count of 64 bits is finite as a double, and at least one if it counts something. -/
theorem isPositive_ofNat {n : ℕ} (hone : 1 ≤ n) (hlarge : n ≤ 2 ^ 64) :
    isPositive (Float.ofNat n) = true ∧ 1 ≤ magnitude (Float.ofNat n) := by
  have h := isNearest_ofNat n
  have hmagnitude := h.one_le (Nat.one_le_cast.2 hone)
  have hfinite : (Float.ofNat n).isFinite = true := by
    have hn : (n : ℚ) ≤ 2 ^ 64 := by exact_mod_cast hlarge
    have hroom : (2 : ℚ) ^ 64 < 2 ^ 970 := pow_lt_pow_right₀ one_lt_two (by norm_num)
    have hdouble : (2 : ℚ) ^ 971 = 2 * 2 ^ 970 := pow_succ' 2 970
    have htop : (2 : ℚ) ^ 971 ≤ 2 ^ 1024 := pow_le_pow_right₀ one_le_two (by norm_num)
    rw [h.isFinite_iff, overflowBound]
    rw [hdouble] at htop
    generalize (2 : ℚ) ^ 1024 = top at *
    generalize (2 : ℚ) ^ 970 = half at *
    linarith only [hn, hroom, htop]
  exact ⟨h.unsigned.isPositive hfinite (one_pos.trans_le hmagnitude), hmagnitude⟩

theorem toNat_ofNatClamp_le (n : ℕ) : (UInt64.ofNatClamp n).toNat ≤ n := by
  rw [UInt64.ofNatClamp]
  split_ifs with h
  · exact le_rfl
  · show UInt64.size - 1 ≤ n
    omega

/-- **What is counted is not more than the double** that is counted. -/
theorem toUInt64_le {x : Float} (hx : IsUnsigned x) : (x.toUInt64.toNat : ℚ) ≤ magnitude x := by
  have hclamp : x.toUInt64.toNat ≤ (x.toModel.unpack.toInt 0 (UInt64.size - 1)).toNat :=
    toNat_ofNatClamp_le _
  refine (Nat.cast_le.2 hclamp).trans ?_
  rw [hx.magnitude_eq]
  cases hx.shape with
  | zero hunpack hbits =>
    rw [hunpack, hbits, rung_zero]
    exact le_of_eq Nat.cast_zero
  | finite k r hr hunpack hbits hk hroom =>
    rw [hunpack, hbits, rung_eq hk hroom.le]
    exact roundToInt_le r _
  | infinity hunpack hbits =>
    rw [hunpack, hbits, rung_top]
    calc ((2 ^ 64 - 1 : ℕ) : ℚ) ≤ 2 ^ 64 := by norm_num
      _ ≤ 2 ^ 1024 := pow_le_pow_right₀ one_le_two (by norm_num)

end BarReplay.Decimal
