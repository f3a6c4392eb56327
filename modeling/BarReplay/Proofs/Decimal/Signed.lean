import BarReplay.Proofs.Decimal.Opposite

/-!
# Arithmetic with signs

Every operation on finite doubles is rounded once, whatever their signs are: sums (`rounds_add`),
differences (`rounds_sub`), products (`rounds_mul`) and quotients (`rounds_div`). What a number
below zero is rounded to is told by its opposite (`Rounds`), since a product or a quotient changes
its sign with either side (`rounds_of_signs`). Rounding keeps the order across zero too
(`Rounds.mono`, `Rounds.le`), which is how results are compared without computing them.
-/

open Float.Model Float.Model.UnpackedFloat

namespace BarReplay.Decimal

/-! ### Rounding -/

/-- The double is what a number is rounded to: the nearest one for numbers from zero on, and for the
others the opposite of what their opposites are rounded to. -/
inductive Rounds (q : ℚ) (x : Float) : Prop where
  | above (sign : 0 ≤ q) (nearest : IsNearest q x)
  | below (sign : q ≤ 0) (nearest : IsNearest (-q) (-x))

theorem Rounds.isNaN {q : ℚ} {x : Float} (h : Rounds q x) : x.isNaN = false := by
  cases h with
  | above sign nearest => exact nearest.unsigned.number
  | below sign nearest => exact (isNaN_neg x).symm.trans nearest.unsigned.number

theorem Rounds.opposite {q : ℚ} {x : Float} (h : Rounds q x) : Rounds (-q) (-x) := by
  cases h with
  | above sign nearest =>
    refine .below (neg_nonpos.2 sign) ?_
    rwa [neg_neg, opposite_opposite]
  | below sign nearest => exact .above (neg_nonneg.2 sign) nearest

/-- A number is what its amount is rounded to. -/
theorem rounds_amount {x : Float} (hx : x.isNaN = false) : Rounds (amount x) x := by
  rcases isUnsigned_or_opposite hx with h | h
  · exact .above h.amount_nonneg (h.amount_eq ▸ h.isNearest)
  · have hback := amount_opposite hx
    have hneg := h.amount_nonneg
    refine .below (by linarith) ?_
    rw [← hback, h.amount_eq]
    exact h.isNearest

/-- Nothing but zero is nearest to zero. -/
theorem IsNearest.magnitude_of_zero {x : Float} (h : IsNearest 0 x) : magnitude x = 0 := by
  have hbits := (isNearest_iff.1 h).eq (isNearestRung_vanishing le_rfl (by positivity))
  rw [h.unsigned.magnitude_eq, hbits, rung_zero]

/-- **Rounding keeps the order**, also across zero. -/
theorem Rounds.mono {q r : ℚ} {x y : Float} (hx : Rounds q x) (hy : Rounds r y) (h : q ≤ r) :
    amount x ≤ amount y := by
  have hxback := amount_opposite hx.isNaN
  have hyback := amount_opposite hy.isNaN
  cases hx with
  | above hq hx =>
    rw [hx.unsigned.amount_eq]
    cases hy with
    | above hr hy =>
      rw [hy.unsigned.amount_eq]
      exact hx.mono hy h
    | below hr hy =>
      -- both are zero
      obtain rfl : q = 0 := by linarith
      obtain rfl : r = 0 := by linarith
      rw [neg_zero] at hy
      rw [hy.unsigned.amount_eq, hy.magnitude_of_zero] at hyback
      rw [hx.magnitude_of_zero]
      linarith
  | below hq hx =>
    rw [hx.unsigned.amount_eq] at hxback
    cases hy with
    | above hr hy =>
      -- they are on different sides of zero
      have hxpos := magnitude_nonneg (-x)
      have hypos := hy.unsigned.amount_nonneg
      linarith
    | below hr hy =>
      rw [hy.unsigned.amount_eq] at hyback
      have hmono := hy.mono hx (neg_le_neg h)
      linarith

theorem Rounds.le {q r : ℚ} {x y : Float} (hx : Rounds q x) (hy : Rounds r y) (h : q ≤ r) :
    x ≤ y :=
  (le_iff_amount hx.isNaN hy.isNaN).2 (hx.mono hy h)

/-! ### Arithmetic -/

theorem roundWithAccuracy_neg (s : Sign) (m : ℕ) (e : ℤ) (accuracy : Accuracy) :
    UnpackedFloat.roundWithAccuracy Format.binary64 (-s) m e accuracy =
      (UnpackedFloat.roundWithAccuracy Format.binary64 s m e accuracy).neg := by
  simp only [UnpackedFloat.roundWithAccuracy]
  split_ifs <;> rfl

/-- A product has the opposite sign if one of its factors has. -/
theorem mul_unpack_neg (u v : UnpackedFloat) :
    UnpackedFloat.mul Format.binary64 u.neg v = (UnpackedFloat.mul Format.binary64 u v).neg ∧
      UnpackedFloat.mul Format.binary64 u v.neg =
        (UnpackedFloat.mul Format.binary64 u v).neg := by
  cases u with
  | notANumber => exact ⟨rfl, rfl⟩
  | infinity s =>
    cases v with
    | notANumber | zero => exact ⟨rfl, rfl⟩
    | infinity t | finite t => cases s <;> cases t <;> exact ⟨rfl, rfl⟩
  | zero s =>
    cases v with
    | notANumber | infinity => exact ⟨rfl, rfl⟩
    | zero t | finite t => cases s <;> cases t <;> exact ⟨rfl, rfl⟩
  | finite s m e hm =>
    cases v with
    | notANumber => exact ⟨rfl, rfl⟩
    | zero t | infinity t => cases s <;> cases t <;> exact ⟨rfl, rfl⟩
    | finite t m' e' hm' =>
      have hround := roundWithAccuracy_neg (s * t) (m * m') (e + e') .exact
      constructor <;> refine Eq.trans ?_ hround <;> cases s <;> cases t <;> rfl

theorem opposite_mul (x y : Float) : -x * y = -(x * y) := by
  refine Eq.trans ?_ (opposite_pack _).symm
  show Float.ofModel (Float.Model.pack (UnpackedFloat.mul Format.binary64 (-x).toModel.unpack
    y.toModel.unpack)) = _
  rw [unpack_opposite, (mul_unpack_neg _ _).1]

theorem mul_opposite (x y : Float) : x * -y = -(x * y) := by
  refine Eq.trans ?_ (opposite_pack _).symm
  show Float.ofModel (Float.Model.pack (UnpackedFloat.mul Format.binary64 x.toModel.unpack
    (-y).toModel.unpack)) = _
  rw [unpack_opposite, (mul_unpack_neg _ _).2]

/-- A quotient has the opposite sign if the dividend or the divisor has. -/
theorem div_unpack_neg (u v : UnpackedFloat) :
    UnpackedFloat.div Format.binary64 u.neg v = (UnpackedFloat.div Format.binary64 u v).neg ∧
      UnpackedFloat.div Format.binary64 u v.neg =
        (UnpackedFloat.div Format.binary64 u v).neg := by
  cases u with
  | notANumber => exact ⟨rfl, rfl⟩
  | infinity s =>
    cases v with
    | notANumber | infinity => exact ⟨rfl, rfl⟩
    | zero t | finite t => cases s <;> cases t <;> exact ⟨rfl, rfl⟩
  | zero s =>
    cases v with
    | notANumber | zero => exact ⟨rfl, rfl⟩
    | infinity t | finite t => cases s <;> cases t <;> exact ⟨rfl, rfl⟩
  | finite s m e hm =>
    cases v with
    | notANumber => exact ⟨rfl, rfl⟩
    | zero t | infinity t => cases s <;> cases t <;> exact ⟨rfl, rfl⟩
    | finite t m' e' hm' =>
      have hround := roundWithAccuracy_neg (s / t) (divCore Format.binary64 m e m' e').1
        (divCore Format.binary64 m e m' e').2.1 (divCore Format.binary64 m e m' e').2.2
      constructor <;> refine Eq.trans ?_ hround <;> cases s <;> cases t <;> rfl

theorem opposite_div (x y : Float) : -x / y = -(x / y) := by
  refine Eq.trans ?_ (opposite_pack _).symm
  show Float.ofModel (Float.Model.pack (UnpackedFloat.div Format.binary64 (-x).toModel.unpack
    y.toModel.unpack)) = _
  rw [unpack_opposite, (div_unpack_neg _ _).1]

theorem div_opposite (x y : Float) : x / -y = -(x / y) := by
  refine Eq.trans ?_ (opposite_pack _).symm
  show Float.ofModel (Float.Model.pack (UnpackedFloat.div Format.binary64 x.toModel.unpack
    (-y).toModel.unpack)) = _
  rw [unpack_opposite, (div_unpack_neg _ _).2]

/-- A difference is a sum with the opposite. -/
theorem float_sub_eq (x y : Float) : x - y = x + -y := by
  have hunpack (u v : UnpackedFloat) : UnpackedFloat.sub Format.binary64 u v =
      UnpackedFloat.add Format.binary64 u v.neg := by
    cases u with
    | notANumber => rfl
    | infinity s => cases v <;> rfl
    | zero s => cases v <;> rfl
    | finite s m e hm =>
      cases v with
      | notANumber | infinity | zero => rfl
      | finite t m' e' hm' =>
        have hsign (n : ℕ) : -t.apply n = (-t).apply n := by
          cases t with
          | positive => rfl
          | negative => exact neg_neg _
        simp only [UnpackedFloat.sub, UnpackedFloat.neg, UnpackedFloat.add, sub_eq_add_neg, hsign]
  show Float.ofModel (Float.Model.pack (UnpackedFloat.sub Format.binary64 x.toModel.unpack
    y.toModel.unpack)) = Float.ofModel (Float.Model.pack (UnpackedFloat.add Format.binary64
      x.toModel.unpack (-y).toModel.unpack))
  rw [unpack_opposite, hunpack]

/-! ### Rounded results -/

/-- The amount of a finite double, in the unit of its exponent. -/
theorem amount_of_unpack {x : Float} {s : Sign} {m : ℕ} {e : ℤ} {hm : 0 < m}
    (h : x.toModel.unpack = .finite s m e hm) : amount x = s.apply m * 2 ^ e := by
  have hx : x.isNaN = false := by
    show x.toModel.unpack.isNaN = false
    rw [h]
    rfl
  -- without a sign the amount is a rung, and with one it is that of the opposite
  have hunsigned {y : Float} {t : Sign} (hy : IsUnsigned y)
      (h : y.toModel.unpack = .finite t m e hm) : t = .positive ∧ amount y = m * 2 ^ e := by
    cases hy.shape with
    | zero hunpack => rw [hunpack] at h; cases h
    | finite k r hr hunpack hbits hk hroom =>
      rw [hunpack] at h
      cases h
      rw [hy.amount_eq, hy.magnitude_eq, hbits, rung_eq hk hroom.le]
      exact ⟨rfl, rfl⟩
    | infinity hunpack => rw [hunpack] at h; cases h
  rcases isUnsigned_or_opposite hx with hpos | hneg
  · obtain ⟨rfl, hamount⟩ := hunsigned hpos h
    rw [hamount]
    simp [Sign.apply]
  · have hback := unpack_opposite x
    rw [h] at hback
    obtain ⟨hsign, hamount⟩ := hunsigned hneg hback
    rw [amount_opposite hx] at hamount
    cases s with
    | positive => cases hsign
    | negative =>
      simp only [Sign.apply]
      push_cast
      linarith

theorem amount_of_unpack_zero {x : Float} {s : Sign} (h : x.toModel.unpack = .zero s) :
    amount x = 0 := by
  have hzero : (x == 0) = true := by
    show UnpackedFloat.beq x.toModel.unpack (.zero .positive) = true
    rw [h]
    rfl
  rw [amount, (magnitude_of_eq_zero hzero).1, neg_zero, ite_self]

/-- A finite double is zero or a mantissa with an exponent. -/
theorem unpack_of_isFinite {x : Float} (hx : x.isFinite = true) :
    (∃ s, x.toModel.unpack = .zero s) ∨ ∃ s m e hm, x.toModel.unpack = .finite s m e hm := by
  have hx : x.toModel.unpack.isFinite = true := hx
  cases hu : x.toModel.unpack with
  | notANumber | infinity => rw [hu] at hx; cases hx
  | zero s => exact .inl ⟨s, rfl⟩
  | finite s m e hm => exact .inr ⟨s, m, e, hm, rfl⟩

theorem rounds_zero (s : Sign) : Rounds 0 (Float.ofModel (Float.Model.pack (.zero s))) := by
  have hzero : IsNearest 0 (Float.ofModel (Float.Model.pack (.zero .positive))) :=
    isNearest_iff.2 (isNearestRung_vanishing le_rfl (by positivity))
  cases s with
  | positive => exact .above le_rfl hzero
  | negative =>
    refine .below le_rfl ?_
    rw [opposite_pack, neg_zero]
    exact hzero

/-- A number of units is rounded, whatever its sign is. -/
theorem rounds_normalize (m e : ℤ) : Rounds (m * 2 ^ e)
    (Float.ofModel (Float.Model.pack (UnpackedFloat.normalize Format.binary64 m e .positive))) := by
  rcases le_or_gt 0 m with hpos | hneg
  · exact .above (by positivity) (isNearest_iff.2 (isNearestRung_normalize hpos e))
  · obtain ⟨n, rfl⟩ : ∃ n : ℕ, m = -n := ⟨(-m).toNat, by omega⟩
    have hn : 0 < n := by omega
    have hround : (UnpackedFloat.normalize Format.binary64 (-n) e .positive).neg =
        UnpackedFloat.round Format.binary64 .positive n e := by
      rw [UnpackedFloat.normalize, compare_lt_iff_lt.2 hneg, neg_neg, Int.toNat_natCast]
      exact (roundWithAccuracy_neg .negative _ _ _).symm
    refine .below ?_ ?_
    · push_cast
      rw [neg_mul]
      exact neg_nonpos.2 (by positivity)
    · rw [opposite_pack, hround, isNearest_iff]
      push_cast
      rw [neg_mul, neg_neg]
      exact isNearestRung_roundUnits hn e

/-- **A sum of finite doubles is rounded once.** -/
theorem rounds_add {x y : Float} (hx : x.isFinite = true) (hy : y.isFinite = true) :
    Rounds (amount x + amount y) (x + y) := by
  show Rounds _ (Float.ofModel (Float.Model.pack (UnpackedFloat.add Format.binary64
    x.toModel.unpack y.toModel.unpack)))
  rcases unpack_of_isFinite hx with ⟨s, hxu⟩ | ⟨s, m, e, hm, hxu⟩ <;>
    rcases unpack_of_isFinite hy with ⟨t, hyu⟩ | ⟨t, n, f, hn, hyu⟩
  · rw [amount_of_unpack_zero hxu, amount_of_unpack_zero hyu, zero_add, hxu, hyu]
    cases s <;> cases t <;> exact rounds_zero _
  · have hsum : UnpackedFloat.add Format.binary64 x.toModel.unpack y.toModel.unpack =
        y.toModel.unpack := by
      rw [hxu, hyu]
      rfl
    rw [amount_of_unpack_zero hxu, zero_add, hsum, ofModel_pack_unpack]
    exact rounds_amount (isNaN_of_isFinite hy)
  · have hsum : UnpackedFloat.add Format.binary64 x.toModel.unpack y.toModel.unpack =
        x.toModel.unpack := by
      rw [hxu, hyu]
      rfl
    rw [amount_of_unpack_zero hyu, add_zero, hsum, ofModel_pack_unpack]
    exact rounds_amount (isNaN_of_isFinite hx)
  · rw [amount_of_unpack hxu, amount_of_unpack hyu, hxu, hyu]
    -- both are counted in units of the smaller exponent, where their sum is exact
    have hunits (s : Sign) (m : ℕ) {e t : ℤ} (h : t ≤ e) :
        (s.apply m : ℚ) * 2 ^ e = s.apply (decreaseExponent m e t).1 * 2 ^ t := by
      have hcast := cast_decreaseExponent m h
      cases s with
      | positive => exact_mod_cast hcast.symm
      | negative =>
        simp only [Sign.apply]
        push_cast
        rw [neg_mul, neg_mul, ← hcast]
    rw [hunits s m (min_le_left e f), hunits t n (min_le_right e f), ← add_mul, ← Int.cast_add]
    exact rounds_normalize _ _

theorem isFinite_opposite (x : Float) : (-x).isFinite = x.isFinite := by
  show (-x).toModel.unpack.isFinite = x.toModel.unpack.isFinite
  rw [unpack_opposite]
  cases x.toModel.unpack <;> rfl

theorem rounds_sub {x y : Float} (hx : x.isFinite = true) (hy : y.isFinite = true) :
    Rounds (amount x - amount y) (x - y) := by
  rw [float_sub_eq, sub_eq_add_neg, ← amount_opposite (isNaN_of_isFinite hy)]
  exact rounds_add hx ((isFinite_opposite y).trans hy)

/-- A finite double that is not zero is positive, or its opposite is. -/
theorem isPositive_or_opposite {x : Float} {s : Sign} {m : ℕ} {e : ℤ} {hm : 0 < m}
    (h : x.toModel.unpack = .finite s m e hm) : isPositive x = true ∨ isPositive (-x) = true := by
  rw [isPositive_eq, isPositive_eq, unpack_opposite, h]
  cases s with
  | positive => exact .inl rfl
  | negative => exact .inr rfl

theorem amount_of_isPositive {x : Float} (hx : isPositive x = true) :
    amount x = magnitude x ∧ 0 < amount x := by
  have hamount := (isUnsigned_of_isPositive hx).amount_eq
  exact ⟨hamount, hamount ▸ magnitude_pos (zero_lt_of_isPositive hx)⟩

/-- What holds of an operation on positive doubles holds on all but the zeros, if the operation and
its exact counterpart change their signs together. -/
theorem rounds_of_signs {op : Float → Float → Float} {exact : ℚ → ℚ → ℚ}
    (hopLeft : ∀ x y, op (-x) y = -op x y) (hopRight : ∀ x y, op x (-y) = -op x y)
    (hexactLeft : ∀ q r, exact (-q) r = -exact q r) (hexactRight : ∀ q r, exact q (-r) = -exact q r)
    (hpositive : ∀ x y, isPositive x = true → isPositive y = true →
      Rounds (exact (amount x) (amount y)) (op x y))
    {x y : Float} (hx : isPositive x = true ∨ isPositive (-x) = true)
    (hy : isPositive y = true ∨ isPositive (-y) = true) :
    Rounds (exact (amount x) (amount y)) (op x y) := by
  have hback {z : Float} (hz : isPositive (-z) = true) : amount (-z) = -amount z :=
    amount_opposite ((isNaN_neg z).symm.trans (isNaN_of_isFinite (isFinite_of_isPositive hz)))
  rcases hx with hx | hx <;> rcases hy with hy | hy
  · exact hpositive x y hx hy
  · have h := (hpositive x (-y) hx hy).opposite
    rwa [hback hy, hopRight, hexactRight, neg_neg, opposite_opposite] at h
  · have h := (hpositive (-x) y hx hy).opposite
    rwa [hback hx, hopLeft, hexactLeft, neg_neg, opposite_opposite] at h
  · have h := hpositive (-x) (-y) hx hy
    rwa [hback hx, hback hy, hopLeft, hopRight, hexactLeft, hexactRight, neg_neg,
      opposite_opposite] at h

/-- **A product of finite doubles is rounded once.** -/
theorem rounds_mul {x y : Float} (hx : x.isFinite = true) (hy : y.isFinite = true) :
    Rounds (amount x * amount y) (x * y) := by
  have hzero {s t : Sign} (h : UnpackedFloat.mul Format.binary64 x.toModel.unpack y.toModel.unpack =
      .zero (s * t)) : Rounds 0 (x * y) := by
    show Rounds 0 (Float.ofModel (Float.Model.pack (UnpackedFloat.mul Format.binary64
      x.toModel.unpack y.toModel.unpack)))
    rw [h]
    exact rounds_zero _
  rcases unpack_of_isFinite hx with ⟨s, hxu⟩ | ⟨s, m, e, hm, hxu⟩
  · rw [amount_of_unpack_zero hxu, zero_mul]
    rcases unpack_of_isFinite hy with ⟨t, hyu⟩ | ⟨t, n, f, hn, hyu⟩ <;>
      exact hzero (by rw [hxu, hyu]; rfl)
  · rcases unpack_of_isFinite hy with ⟨t, hyu⟩ | ⟨t, n, f, hn, hyu⟩
    · rw [amount_of_unpack_zero hyu, mul_zero]
      exact hzero (by rw [hxu, hyu]; rfl)
    · refine rounds_of_signs opposite_mul mul_opposite neg_mul mul_neg ?_
        (isPositive_or_opposite hxu) (isPositive_or_opposite hyu)
      intro x y hx hy
      obtain ⟨hxamount, hxpos⟩ := amount_of_isPositive hx
      obtain ⟨hyamount, hypos⟩ := amount_of_isPositive hy
      refine .above (mul_pos hxpos hypos).le ?_
      rw [hxamount, hyamount]
      exact isNearest_mul_of_isPositive hx hy

/-- **A quotient of finite doubles is rounded once**, unless it is one by zero. -/
theorem rounds_div {x y : Float} (hx : x.isFinite = true) (hy : y.isFinite = true)
    (hne : amount y ≠ 0) : Rounds (amount x / amount y) (x / y) := by
  rcases unpack_of_isFinite hy with ⟨t, hyu⟩ | ⟨t, n, f, hn, hyu⟩
  · exact absurd (amount_of_unpack_zero hyu) hne
  rcases unpack_of_isFinite hx with ⟨s, hxu⟩ | ⟨s, m, e, hm, hxu⟩
  · have hzero : UnpackedFloat.div Format.binary64 x.toModel.unpack y.toModel.unpack =
        .zero (s / t) := by
      rw [hxu, hyu]
      rfl
    rw [amount_of_unpack_zero hxu, zero_div]
    show Rounds 0 (Float.ofModel (Float.Model.pack (UnpackedFloat.div Format.binary64
      x.toModel.unpack y.toModel.unpack)))
    rw [hzero]
    exact rounds_zero _
  · refine rounds_of_signs opposite_div div_opposite (fun q r ↦ neg_div r q)
      (fun q r ↦ div_neg q) ?_
      (isPositive_or_opposite hxu) (isPositive_or_opposite hyu)
    intro x y hx hy
    obtain ⟨hxamount, hxpos⟩ := amount_of_isPositive hx
    obtain ⟨hyamount, hypos⟩ := amount_of_isPositive hy
    refine .above (div_pos hxpos hypos).le ?_
    rw [hxamount, hyamount]
    exact isNearest_div hx hy

end BarReplay.Decimal
