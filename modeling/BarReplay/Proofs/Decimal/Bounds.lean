import BarReplay.Proofs.Decimal.Differences

/-!
# Results within bounds

A number of at most 53 bits is a double, whatever its unit is (`represented_of_bits`). Rounding does
not cross such a number: a result whose exact value is within a bound that is a double is within it
and finite (`Rounds.within`), and one whose exact value is at least such a bound still is
(`Rounds.beyond`). With this the size of a computed number is followed through sums, products and
quotients without an error term (`Within.add`, `Within.mul`, `Within.div`).

Where an operation has a finite result its operands were finite, as infinity and what is no number
are never left again by sums and products (`isFinite_of_add`, `isFinite_of_mul`).

Different doubles are at least a part of either of them apart (`exists_gap_between`).
-/

open Float.Model Float.Model.UnpackedFloat

namespace BarReplay.Decimal

/-! ### Numbers that are doubles -/

/-- The number is the value of a finite double. -/
def Represented (q : ℚ) : Prop :=
  ∃ x : Float, IsUnsigned x ∧ x.isFinite = true ∧ amount x = q

/-- **A number of at most 53 bits is a double** in every unit up to that of the largest doubles. -/
theorem represented_of_bits {m k : ℕ} (hm : m < 2 ^ 53) (hk : k ≤ 2045) :
    Represented (m * 2 ^ (k - 1074 : ℤ)) := by
  -- the number is moved up in its level until it has all its bits, or no lower unit is left
  obtain ⟨l, r, hl, hr, hlevel, hvalue⟩ : ∃ l r : ℕ, l ≤ k ∧ r < 2 ^ 53 ∧ (l = 0 ∨ 2 ^ 52 ≤ r) ∧
      (m * 2 ^ (k - 1074 : ℤ) : ℚ) = r * 2 ^ (l - 1074 : ℤ) := by
    induction k generalizing m with
    | zero => exact ⟨0, m, le_rfl, hm, .inl rfl, rfl⟩
    | succ k ih =>
      rcases Nat.lt_or_ge m (2 ^ 52) with hlow | hhigh
      · obtain ⟨l, r, hl, hr, hlevel, hvalue⟩ := ih (m := 2 * m) (by omega) (by omega)
        refine ⟨l, r, by omega, hr, hlevel, hvalue ▸ ?_⟩
        have hexponent : ((k + 1 : ℕ) - 1074 : ℤ) = 1 + (k - 1074) := by push_cast; ring
        rw [hexponent, zpow_add₀ two_ne_zero, zpow_one]
        push_cast
        ring
      · exact ⟨k + 1, m, le_rfl, hm, .inr hhigh, rfl⟩
  have htop : l * 2 ^ 52 + r < topRung := by
    rw [topRung]
    omega
  obtain ⟨x, hx⟩ := exists_float htop.le
  have hunsigned : IsUnsigned x := isUnsigned_iff.2 (hx.trans_le htop.le)
  refine ⟨x, hunsigned, isFinite_iff.2 ?_, ?_⟩
  · rw [topRung] at htop ⊢
    omega
  · rw [hunsigned.amount_eq, hunsigned.magnitude_eq, hx, rung_eq hlevel hr.le, hvalue]

theorem represented_zpow {e : ℤ} (hlow : -1074 ≤ e) (hhigh : e ≤ 1023) :
    Represented (2 ^ e) := by
  rcases le_or_gt e 971 with hsmall | hlarge
  · obtain ⟨k, rfl⟩ : ∃ k : ℕ, e = k - 1074 := ⟨(e + 1074).toNat, by omega⟩
    have h := represented_of_bits (m := 1) (k := k) (by norm_num) (by omega)
    rwa [Nat.cast_one, one_mul] at h
  · obtain ⟨k, rfl⟩ : ∃ k : ℕ, e = 52 + (k - 1074) := ⟨(e + 1022).toNat, by omega⟩
    have h := represented_of_bits (m := 2 ^ 52) (k := k) (by norm_num) (by omega)
    rwa [Nat.cast_pow, Nat.cast_ofNat, ← zpow_natCast, ← zpow_add₀ two_ne_zero] at h

theorem represented_pow {k : ℕ} (hk : k ≤ 1023) : Represented (2 ^ k) := by
  have h := represented_zpow (e := k) (by omega) (by omega)
  rwa [zpow_natCast] at h

theorem represented_mul_pow {n k : ℕ} (hn : n < 2 ^ 53) (hk : k ≤ 971) :
    Represented (n * 2 ^ k) := by
  have h := represented_of_bits hn (k := k + 1074) (by omega)
  have hexponent : ((k + 1074 : ℕ) - 1074 : ℤ) = k := by omega
  rwa [hexponent, zpow_natCast] at h

/-! ### Rounding and bounds -/

/-- A result of which the exact value is that of a number has the amount of this number. -/
theorem Rounds.amount_eq {q : ℚ} {x y : Float} (h : Rounds q x) (hy : y.isNaN = false)
    (hq : amount y = q) : amount x = q := by
  have hself := rounds_amount hy
  rw [hq] at hself
  rw [← hq]
  exact le_antisymm (h.mono hself le_rfl) (hself.mono h le_rfl)

theorem Rounds.eq_of_represented {q : ℚ} {x : Float} (h : Rounds q x) (hq : Represented |q|) :
    amount x = q := by
  obtain ⟨y, hy, -, hvalue⟩ := hq
  rcases abs_cases q with ⟨habs, -⟩ | ⟨habs, -⟩
  · exact h.amount_eq hy.number (hvalue.trans habs)
  · refine h.amount_eq (y := -y) ((isNaN_neg y).trans hy.number) ?_
    rw [amount_opposite hy.number, hvalue, habs, neg_neg]

theorem isPositive_of_amount {x : Float} (hx : x.isFinite = true) (h : 0 < amount x) :
    isPositive x = true :=
  Bool.and_eq_true_iff.2 ⟨hx, decide_eq_true ((zero_lt_iff_amount (isNaN_of_isFinite hx)).2 h)⟩

/-- The double is finite and not beyond the bound on either side of zero. -/
structure Within (bound : ℚ) (x : Float) : Prop where
  finite : x.isFinite = true
  le : |amount x| ≤ bound

theorem Within.mono {a b : ℚ} {x : Float} (h : Within a x) (hab : a ≤ b) : Within b x :=
  ⟨h.finite, h.le.trans hab⟩

/-- **Rounding does not leave a bound that is a double.** -/
theorem Rounds.within {q bound : ℚ} {x : Float} (h : Rounds q x) (hq : |q| ≤ bound)
    (hbound : Represented bound) : Within bound x := by
  obtain ⟨y, hy, hfinite, rfl⟩ := hbound
  have hback := amount_opposite h.isNaN
  rw [hy.amount_eq] at hq ⊢
  obtain ⟨hlow, hhigh⟩ := abs_le.1 hq
  cases h with
  | above sign nearest =>
    refine ⟨nearest.isFinite_of_le hfinite hhigh, ?_⟩
    rw [nearest.unsigned.amount_eq, abs_of_nonneg (magnitude_nonneg x)]
    exact nearest.mono hy.isNearest hhigh
  | below sign nearest =>
    have hle : -q ≤ magnitude y := by linarith
    refine ⟨(isFinite_opposite x).symm.trans (nearest.isFinite_of_le hfinite hle), ?_⟩
    rw [nearest.unsigned.amount_eq] at hback
    rw [← abs_neg, ← hback, abs_of_nonneg (magnitude_nonneg _)]
    exact nearest.mono hy.isNearest hle

/-- **Rounding does not fall below a bound that is a double.** -/
theorem Rounds.beyond {q bound : ℚ} {x : Float} (h : Rounds q x) (hq : bound ≤ |q|)
    (hbound : Represented bound) : bound ≤ |amount x| := by
  obtain ⟨y, hy, -, rfl⟩ := hbound
  have hback := amount_opposite h.isNaN
  have hself := rounds_amount hy.number
  rcases abs_cases q with ⟨habs, -⟩ | ⟨habs, -⟩ <;> rw [habs] at hq
  · exact (hself.mono h hq).trans (le_abs_self _)
  · have hmono := hself.mono h.opposite hq
    rw [hback] at hmono
    exact hmono.trans (neg_le_abs _)

/-! ### Numbers of few bits -/

/-- The number has at most 53 bits, and none below the unit of the least double. -/
def HasBits (q : ℚ) : Prop :=
  ∃ m k : ℕ, m < 2 ^ 53 ∧ |q| = m * 2 ^ (k - 1074 : ℤ)

theorem hasBits_zero : HasBits 0 :=
  ⟨0, 0, by norm_num, by simp⟩

theorem hasBits_amount {x : Float} (hx : x.isFinite = true) : HasBits (amount x) := by
  have hunsigned {x : Float} (hx : IsUnsigned x) (hfinite : x.isFinite = true) :
      HasBits (amount x) := by
    rw [HasBits, abs_of_nonneg hx.amount_nonneg, hx.amount_eq]
    cases hx.shape with
    | zero unpacks bits =>
      exact ⟨0, 0, by norm_num, by rw [hx.magnitude_eq, bits, rung_zero]; simp⟩
    | finite k r positive unpacks bits level room below =>
      exact ⟨r, k, room, by rw [hx.magnitude_eq, bits, rung_eq level room.le]⟩
    | infinity unpacks bits =>
      have hfinite : x.toModel.unpack.isFinite = true := hfinite
      rw [unpacks] at hfinite
      cases hfinite
  rcases isUnsigned_or_opposite (isNaN_of_isFinite hx) with h | h
  · exact hunsigned h hx
  · obtain ⟨m, k, hm, hvalue⟩ := hunsigned h ((isFinite_opposite x).trans hx)
    rw [amount_opposite (isNaN_of_isFinite hx), abs_neg] at hvalue
    exact ⟨m, k, hm, hvalue⟩

theorem HasBits.double {q : ℚ} (h : HasBits q) : HasBits (2 * q) := by
  obtain ⟨m, k, hm, hvalue⟩ := h
  refine ⟨m, k + 1, hm, ?_⟩
  have hexponent : ((k + 1 : ℕ) - 1074 : ℤ) = 1 + (k - 1074) := by push_cast; ring
  rw [abs_mul, hvalue, hexponent, zpow_add₀ two_ne_zero, zpow_one, abs_two]
  ring

/-- What a number is rounded to is finite exactly if the number is below the bound of overflow. -/
theorem Rounds.isFinite_iff {q : ℚ} {x : Float} (h : Rounds q x) :
    x.isFinite = true ↔ |q| < overflowBound := by
  cases h with
  | above sign nearest =>
    rw [abs_of_nonneg sign]
    exact nearest.isFinite_iff
  | below sign nearest =>
    rw [abs_of_nonpos sign, ← isFinite_opposite]
    exact nearest.isFinite_iff

/-- **A finite result of at most 53 bits is exact.** -/
theorem Rounds.eq_of_hasBits {q : ℚ} {x : Float} (h : Rounds q x) (hx : x.isFinite = true)
    (hq : HasBits q) : amount x = q := by
  obtain ⟨m, k, hm, hvalue⟩ := hq
  refine h.eq_of_represented ?_
  rcases le_or_gt k 2045 with hk | hk
  · exact hvalue ▸ represented_of_bits hm hk
  · -- a number of such a unit is a whole number of larger ones, as it is no larger than doubles are
    have hlarge := h.isFinite_iff.1 hx
    obtain ⟨i, rfl⟩ := Nat.exists_eq_add_of_le hk.le
    have hunit : (m * 2 ^ ((2045 + i : ℕ) - 1074 : ℤ) : ℚ) =
        (m * 2 ^ i : ℕ) * 2 ^ ((2045 : ℕ) - 1074 : ℤ) := by
      rw [show ((2045 + i : ℕ) - 1074 : ℤ) = i + ((2045 : ℕ) - 1074) by push_cast; ring,
        zpow_add₀ two_ne_zero, zpow_natCast, Nat.cast_mul, Nat.cast_pow, Nat.cast_two, mul_assoc]
    rw [hvalue, hunit] at hlarge ⊢
    refine represented_of_bits ?_ le_rfl
    by_contra hover
    have hbits : (2 ^ 53 : ℚ) ≤ (m * 2 ^ i : ℕ) := by exact_mod_cast not_lt.1 hover
    have htop : (2 : ℚ) ^ 1024 ≤ (m * 2 ^ i : ℕ) * 2 ^ ((2045 : ℕ) - 1074 : ℤ) := by
      calc (2 : ℚ) ^ 1024 = 2 ^ 53 * 2 ^ ((2045 : ℕ) - 1074 : ℤ) := by
            rw [show ((2045 : ℕ) - 1074 : ℤ) = (971 : ℕ) by norm_num, zpow_natCast, ← pow_add]
        _ ≤ _ := mul_le_mul_of_nonneg_right hbits (by positivity)
    have hstep : (0 : ℚ) < 2 ^ 970 := by positivity
    rw [overflowBound] at hlarge
    exact absurd (htop.trans_lt hlarge) (not_lt.2 (sub_le_self _ hstep.le))

section Operations

variable {a b c : ℚ} {x y : Float}

theorem Within.add (hx : Within a x) (hy : Within b y) (hc : Represented c) (h : a + b ≤ c) :
    Within c (x + y) :=
  (rounds_add hx.finite hy.finite).within
    ((abs_add_le _ _).trans ((add_le_add hx.le hy.le).trans h)) hc

theorem Within.sub (hx : Within a x) (hy : Within b y) (hc : Represented c) (h : a + b ≤ c) :
    Within c (x - y) :=
  (rounds_sub hx.finite hy.finite).within
    ((abs_sub _ _).trans ((add_le_add hx.le hy.le).trans h)) hc

theorem Within.mul (hx : Within a x) (hy : Within b y) (hc : Represented c) (h : a * b ≤ c) :
    Within c (x * y) := by
  refine (rounds_mul hx.finite hy.finite).within ?_ hc
  rw [abs_mul]
  exact (mul_le_mul hx.le hy.le (abs_nonneg _) ((abs_nonneg _).trans hx.le)).trans h

/-- A quotient is bounded if the divisor is at least `b`. -/
theorem Within.div (hx : Within a x) (hy : y.isFinite = true) (hb : 0 < b) (hle : b ≤ |amount y|)
    (hc : Represented c) (h : a ≤ c * b) : Within c (x / y) := by
  have hpos : 0 < |amount y| := hb.trans_le hle
  have hc0 : 0 ≤ c := nonneg_of_mul_nonneg_left (((abs_nonneg _).trans hx.le).trans h) hb
  refine (rounds_div hx.finite hy (abs_pos.1 hpos)).within ?_ hc
  rw [abs_div, div_le_iff₀ hpos]
  exact hx.le.trans (h.trans (mul_le_mul_of_nonneg_left hle hc0))

/-- Dividing by at least a power of two multiplies a bound that is a power of two. -/
theorem Within.div_zpow {k l : ℕ} {e : ℤ} (hx : Within (2 ^ k) x) (hy : y.isFinite = true)
    (hle : 2 ^ e ≤ |amount y|) (hl : l ≤ 1023) (h : (k : ℤ) = l + e) : Within (2 ^ l) (x / y) := by
  refine hx.div hy (by positivity) hle (represented_pow hl) (le_of_eq ?_)
  rw [← zpow_natCast, ← zpow_natCast, ← zpow_add₀ two_ne_zero, h]

/-- A product is at least a bound if the factors are at least its factors. -/
theorem le_mul_of_le (hx : x.isFinite = true) (hy : y.isFinite = true) (hax : a ≤ |amount x|)
    (hb : 0 ≤ b) (hby : b ≤ |amount y|) (hc : Represented c) (h : c ≤ a * b) :
    c ≤ |amount (x * y)| := by
  refine (rounds_mul hx hy).beyond ?_ hc
  rw [abs_mul]
  exact h.trans (mul_le_mul hax hby hb (abs_nonneg _))

/-- A quotient of at least a power of two and a divisor that is within another one. -/
theorem zpow_le_div {e f : ℤ} {k : ℕ} (hx : x.isFinite = true) (hfx : 2 ^ f ≤ |amount x|)
    (hy : Within (2 ^ k) y) (hne : amount y ≠ 0) (hlow : -1074 ≤ e) (hhigh : e ≤ 1023)
    (h : e + k = f) : 2 ^ e ≤ |amount (x / y)| := by
  refine (rounds_div hx hy.finite hne).beyond ?_ (represented_zpow hlow hhigh)
  rw [abs_div, le_div_iff₀ (abs_pos.2 hne)]
  calc (2 : ℚ) ^ e * |amount y| ≤ 2 ^ e * 2 ^ k :=
        mul_le_mul_of_nonneg_left hy.le (by positivity)
    _ = 2 ^ f := by rw [← h, zpow_add₀ two_ne_zero, zpow_natCast]
    _ ≤ |amount x| := hfx

end Operations

/-- A count of at most 53 bits is exact as a double. -/
theorem amount_ofNat {n : ℕ} (hn : n < 2 ^ 53) :
    (Float.ofNat n).isFinite = true ∧ amount (Float.ofNat n) = n := by
  have hround : Rounds n (Float.ofNat n) := .above (Nat.cast_nonneg n) (isNearest_ofNat n)
  have hexact : Represented |(n : ℚ)| := by
    have h := represented_mul_pow hn (Nat.zero_le 971)
    rwa [pow_zero, mul_one, ← Nat.abs_cast] at h
  exact ⟨(hround.within le_rfl hexact).finite, hround.eq_of_represented hexact⟩

theorem within_ofNat {n : ℕ} (hn : n < 2 ^ 53) :
    Within (2 ^ 53) (Float.ofNat n) ∧ amount (Float.ofNat n) = n := by
  obtain ⟨hfinite, hvalue⟩ := amount_ofNat hn
  refine ⟨⟨hfinite, ?_⟩, hvalue⟩
  rw [hvalue, abs_of_nonneg (Nat.cast_nonneg n)]
  exact_mod_cast hn.le

/-- A count less one is between half of the count and all of it. -/
theorem ofNat_sub_one_between {n : ℕ} (htwo : 2 ≤ n) (hn : n < 2 ^ 53) :
    Within (2 ^ 53) (Float.ofNat n - 1) ∧ (n / 2 : ℚ) ≤ amount (Float.ofNat n - 1) := by
  obtain ⟨hfinite, hvalue⟩ := amount_ofNat hn
  have hround : Rounds (amount (Float.ofNat n) - amount 1.0) (Float.ofNat n - 1) :=
    rounds_sub hfinite (isFinite_of_isPositive isPositive_one)
  have hless : amount (Float.ofNat n) - amount 1.0 = (n - 1 : ℕ) := by
    rw [hvalue, amount_one, Nat.cast_sub (by omega), Nat.cast_one]
  rw [hless] at hround
  have hexact := represented_mul_pow (n := n - 1) (by omega) (Nat.zero_le 971)
  rw [pow_zero, mul_one, ← Nat.abs_cast] at hexact
  have hbelow : ((n - 1 : ℕ) : ℚ) ≤ 2 ^ 53 := by exact_mod_cast (show n - 1 ≤ 2 ^ 53 by omega)
  have hhalf : (n : ℚ) ≤ 2 * (n - 1 : ℕ) := by exact_mod_cast (show n ≤ 2 * (n - 1) by omega)
  refine ⟨(hround.within le_rfl hexact).mono ((Nat.abs_cast _).trans_le hbelow), ?_⟩
  rw [hround.eq_of_represented hexact]
  linarith

/-! ### Finite results -/

theorem isFinite_of_pack {u : UnpackedFloat}
    (h : (Float.ofModel (Float.Model.pack u)).isFinite = true) : u.isFinite = true := by
  cases u with
  | notANumber => exact absurd h (by decide)
  | infinity s => cases s <;> exact absurd h (by decide)
  | zero | finite => rfl

/-- A finite sum has finite terms. -/
theorem isFinite_of_add {x y : Float} (h : (x + y).isFinite = true) :
    x.isFinite = true ∧ y.isFinite = true := by
  have hresult : (UnpackedFloat.add Format.binary64 x.toModel.unpack y.toModel.unpack).isFinite =
      true := isFinite_of_pack h
  show x.toModel.unpack.isFinite = true ∧ y.toModel.unpack.isFinite = true
  generalize x.toModel.unpack = u at hresult ⊢
  generalize y.toModel.unpack = v at hresult ⊢
  cases u with
  | notANumber => cases hresult
  | infinity s =>
    cases v with
    | infinity t => cases s <;> cases t <;> cases hresult
    | notANumber | zero | finite => cases hresult
  | zero s | finite s =>
    cases v with
    | notANumber | infinity => cases hresult
    | zero | finite => exact ⟨rfl, rfl⟩

theorem isFinite_of_sub {x y : Float} (h : (x - y).isFinite = true) :
    x.isFinite = true ∧ y.isFinite = true := by
  rw [float_sub_eq] at h
  rw [← isFinite_opposite y]
  exact isFinite_of_add h

/-- A finite product has finite factors. -/
theorem isFinite_of_mul {x y : Float} (h : (x * y).isFinite = true) :
    x.isFinite = true ∧ y.isFinite = true := by
  have hresult : (UnpackedFloat.mul Format.binary64 x.toModel.unpack y.toModel.unpack).isFinite =
      true := isFinite_of_pack h
  show x.toModel.unpack.isFinite = true ∧ y.toModel.unpack.isFinite = true
  generalize x.toModel.unpack = u at hresult ⊢
  generalize y.toModel.unpack = v at hresult ⊢
  cases u with
  | notANumber => cases v <;> cases hresult
  | infinity s => cases v <;> cases hresult
  | zero s | finite s =>
    cases v with
    | notANumber | infinity => cases hresult
    | zero | finite => exact ⟨rfl, rfl⟩

/-- A finite quotient has a finite dividend. If it is not zero, the divisor is finite and not zero
either. -/
theorem isFinite_of_div {x y : Float} (h : (x / y).isFinite = true) :
    x.isFinite = true ∧ ((x / y == 0) = false → y.isFinite = true ∧ amount y ≠ 0) := by
  have hunpack : x / y = Float.ofModel (Float.Model.pack
    (UnpackedFloat.div Format.binary64 x.toModel.unpack y.toModel.unpack)) := rfl
  have hresult : (UnpackedFloat.div Format.binary64 x.toModel.unpack y.toModel.unpack).isFinite =
      true := isFinite_of_pack h
  have hzero (s : Sign) : (Float.ofModel (Float.Model.pack (.zero s)) == 0) = true := by
    cases s <;> rfl
  show x.toModel.unpack.isFinite = true ∧ (_ → y.toModel.unpack.isFinite = true ∧ _)
  generalize hu : x.toModel.unpack = u at hresult hunpack ⊢
  generalize hv : y.toModel.unpack = v at hresult hunpack ⊢
  cases u with
  | notANumber => cases v <;> cases hresult
  | infinity s => cases v <;> cases hresult
  | zero s | finite s =>
    cases v with
    | notANumber | zero => cases hresult
    | infinity t =>
      refine ⟨rfl, fun hne ↦ ?_⟩
      rw [hunpack] at hne
      exact absurd (hzero (s / t)) (Bool.eq_false_iff.1 hne)
    | finite t m e hm =>
      refine ⟨rfl, fun _ ↦ ⟨rfl, ?_⟩⟩
      rw [amount_of_unpack hv]
      refine mul_ne_zero (Int.cast_ne_zero.2 ?_) (zpow_ne_zero e two_ne_zero)
      cases t <;> simp [Sign.apply, hm.ne']

/-! ### Gaps -/

/-- **Different doubles are apart by a power of two that is a part of either.** -/
theorem exists_gap_between {x y : Float} (hx : x.isFinite = true) (hy : y.isFinite = true)
    (hne : amount x ≠ amount y) : ∃ k : ℕ, k ≤ 2046 ∧
      (2 : ℚ) ^ (k - 1074 : ℤ) ≤ |amount x - amount y| ∧
        |amount x| ≤ 2 ^ 53 * 2 ^ (k - 1074 : ℤ) := by
  -- the larger of two numbers from zero on is positive, and not far above the other
  have hunsigned {x y : Float} (hx : x.isFinite = true) (hy : y.isFinite = true)
      (hpos : 0 ≤ amount x) (hne : amount x ≠ amount y) : ∃ k : ℕ, k ≤ 2046 ∧
        (2 : ℚ) ^ (k - 1074 : ℤ) ≤ |amount x - amount y| ∧
          |amount x| ≤ 2 ^ 53 * 2 ^ (k - 1074 : ℤ) := by
    have hxnumber := isNaN_of_isFinite hx
    have hynumber := isNaN_of_isFinite hy
    rw [abs_of_nonneg hpos]
    rcases hne.lt_or_gt with hlt | hgt
    · obtain ⟨k, hk, hgap, hwhole⟩ :=
        exists_gap_below (isPositive_of_amount hy (hpos.trans_lt hlt)) hxnumber
        ((lt_iff_amount hxnumber hynumber).2 hlt)
      refine ⟨k, hk, ?_, hlt.le.trans hwhole⟩
      rw [abs_sub_comm]
      exact hgap.trans (le_abs_self _)
    · rcases hpos.lt_or_eq with hpos | hzero
      · obtain ⟨k, hk, hgap, hwhole⟩ := exists_gap_below (isPositive_of_amount hx hpos) hynumber
          ((lt_iff_amount hynumber hxnumber).2 hgt)
        exact ⟨k, hk, hgap.trans (le_abs_self _), hwhole⟩
      · -- the other one is below zero, and its opposite above
        have hback := amount_opposite hynumber
        have hyneg : amount y < 0 := hzero ▸ hgt
        have hopposite := isPositive_of_amount ((isFinite_opposite y).trans hy) (by linarith)
        obtain ⟨k, hk, hgap, -⟩ := exists_gap_below hopposite hxnumber
          ((lt_iff_amount hxnumber ((isNaN_neg y).trans hynumber)).2 (by linarith))
        refine ⟨k, hk, ?_, by rw [← hzero]; positivity⟩
        rw [← hzero, zero_sub, abs_of_pos (by linarith)]
        linarith
  rcases le_total 0 (amount x) with hpos | hneg
  · exact hunsigned hx hy hpos hne
  · have hxback := amount_opposite (isNaN_of_isFinite hx)
    have hyback := amount_opposite (isNaN_of_isFinite hy)
    obtain ⟨k, hk, hgap, hwhole⟩ := hunsigned ((isFinite_opposite x).trans hx)
      ((isFinite_opposite y).trans hy) (by linarith) (by rw [hxback, hyback]; simpa using hne)
    rw [hxback, hyback, ← neg_sub', abs_neg] at hgap
    rw [hxback, abs_neg] at hwhole
    exact ⟨k, hk, hgap, hwhole⟩

end BarReplay.Decimal
