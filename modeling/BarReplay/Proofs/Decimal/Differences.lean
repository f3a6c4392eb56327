import BarReplay.Proofs.Decimal.Infinity

/-!
# Differences of doubles

Rounding hides no difference. Two neighbours on the ladder of doubles are a power of two apart that
is itself a double (`exists_gap`), so what is taken from a positive double leaves at least that much
if it is less (`zero_lt_sub`). The rest is no vanishing part of the whole either, even if it was
rounded before it is divided (`zero_lt_of_rounds`): a fall below a positive double, as a fraction of
it, is below zero (`fall_lt_zero`).

One less a rate is what is left of a price or a sum that the rate is charged on. For rates up to one
it is a factor from zero to one (`one_sub_between`) and charging leaves no more than there was
(`mul_between`). A rate below one leaves something (`zero_lt_one_sub`), so that even an overflown
sum stays a number.

What was paid is taken from an account, and given back with what has become of it. Both steps are
rounded, but together they do not fall below zero (`zero_le_add_sub`).
-/

open Float.Model Float.Model.UnpackedFloat

namespace BarReplay.Decimal

/-! ### Powers of two -/

/-- The powers of two from the last place up to the largest exponent are doubles. -/
theorem exists_power {k : ℕ} (hk : k ≤ 2046) :
    ∃ g : Float, IsUnsigned g ∧ amount g = 2 ^ (k - 1074 : ℤ) := by
  -- on the lowest level a power is a single bit, and on the others it begins a level
  have hrung : ∃ n ≤ topRung, rung n = 2 ^ (k - 1074 : ℤ) := by
    rcases Nat.lt_or_ge k 52 with hlow | hhigh
    · have hpow : 2 ^ k < 2 ^ 52 := Nat.pow_lt_pow_right one_lt_two hlow
      refine ⟨0 * 2 ^ 52 + 2 ^ k, by rw [topRung]; omega, ?_⟩
      rw [rung_eq (.inl rfl) (by omega), Nat.cast_pow, Nat.cast_ofNat, ← zpow_natCast,
        ← zpow_add₀ two_ne_zero]
      congr 1
    · refine ⟨(k - 52) * 2 ^ 52 + 2 ^ 52, by rw [topRung]; omega, ?_⟩
      rw [rung_eq (.inr le_rfl) (by norm_num), Nat.cast_pow, Nat.cast_ofNat, ← zpow_natCast,
        ← zpow_add₀ two_ne_zero]
      congr 1
      omega
  obtain ⟨n, hn, hvalue⟩ := hrung
  obtain ⟨g, rfl⟩ := exists_float hn
  have hg : IsUnsigned g := isUnsigned_iff.2 hn
  exact ⟨g, hg, by rw [hg.amount_eq, hg.magnitude_eq, hvalue]⟩

/-! ### Gaps -/

/-- **Neighbours are a power of two apart**, and no more than `2 ^ 53` times that is below them. -/
theorem exists_gap {p : ℕ} (hp : p < topRung) : ∃ k : ℕ, k ≤ 2046 ∧
    rung p + 2 ^ (k - 1074 : ℤ) = rung (p + 1) ∧
      rung (p + 1) ≤ 2 ^ 53 * 2 ^ (k - 1074 : ℤ) := by
  obtain ⟨k, r, rfl, hk, hr⟩ := exists_level p
  have hnext : rung (k * 2 ^ 52 + r + 1) = (r + 1) * 2 ^ (k - 1074 : ℤ) := by
    rw [Nat.add_assoc, rung_eq (by omega) hr]
    push_cast
    rfl
  rw [topRung] at hp
  refine ⟨k, by omega, ?_, ?_⟩
  · rw [hnext, rung_eq hk hr.le]
    ring
  · rw [hnext]
    refine mul_le_mul_of_nonneg_right ?_ (by positivity)
    exact_mod_cast hr

/-- What is below a positive double is below it by a part of it that is a double. -/
theorem exists_gap_below {x y : Float} (hx : isPositive x = true) (hy : y.isNaN = false)
    (h : y < x) : ∃ k : ℕ, k ≤ 2046 ∧ (2 : ℚ) ^ (k - 1074 : ℤ) ≤ amount x - amount y ∧
      amount x ≤ 2 ^ 53 * 2 ^ (k - 1074 : ℤ) := by
  have hxunsigned := isUnsigned_of_isPositive hx
  obtain ⟨hxamount, hxpos⟩ := amount_of_isPositive hx
  have hlt := (lt_iff_amount hy hxunsigned.number).1 h
  rw [hxamount, hxunsigned.magnitude_eq] at hxpos hlt ⊢
  obtain ⟨p, hp⟩ : ∃ p, x.toBits.toNat = p + 1 := by
    refine Nat.exists_eq_succ_of_ne_zero fun hzero ↦ ?_
    rw [hzero, rung_zero] at hxpos
    exact absurd hxpos (lt_irrefl _)
  -- `p` is the neighbour below, and what is less than `x` is not above it
  have hbelow : amount y ≤ rung p := by
    rcases isUnsigned_or_opposite hy with hy' | hy'
    · rw [hy'.amount_eq, hy'.magnitude_eq, hp] at hlt
      rw [hy'.amount_eq, hy'.magnitude_eq]
      exact rung_strictMono.monotone (Nat.le_of_lt_succ (rung_strictMono.lt_iff_lt.1 hlt))
    · have hneg := hy'.amount_nonneg
      have hrung : rung 0 ≤ rung p := rung_strictMono.monotone (Nat.zero_le p)
      rw [amount_opposite hy] at hneg
      rw [rung_zero] at hrung
      linarith
  obtain ⟨k, hk, hgap, hwhole⟩ := exists_gap (p := p) (by
    have := isUnsigned_iff.1 hxunsigned
    omega)
  rw [hp]
  exact ⟨k, hk, by linarith, hwhole⟩

/-- Rounding leaves a power of two in what it is a part of. -/
theorem Rounds.power_le {k : ℕ} {q : ℚ} {d : Float} (hd : Rounds q d) (hk : k ≤ 2046)
    (h : (2 : ℚ) ^ (k - 1074 : ℤ) ≤ q) : (2 : ℚ) ^ (k - 1074 : ℤ) ≤ amount d := by
  obtain ⟨g, hg, hamount⟩ := exists_power hk
  exact hamount ▸ (rounds_amount hg.number).mono hd (hamount ▸ h)

/-- A part that is not too small is not rounded to zero. -/
theorem zero_lt_div {x d : Float} (hx : isPositive x = true) (hd : 0 < d)
    (hpart : amount x ≤ 2 ^ 53 * amount d) : 0 < d / x := by
  rcases isPositive_or_top hd with hfinite | ⟨htop, -⟩
  · obtain ⟨-, hxpos⟩ := amount_of_isPositive hx
    have hround := rounds_div (isFinite_of_isPositive hfinite) (isFinite_of_isPositive hx) hxpos.ne'
    -- the part is at least `2 ^ -53` of the whole, which is far from the smallest double
    have hleast : (2 : ℚ) ^ ((1021 : ℕ) - 1074 : ℤ) ≤ amount d / amount x := by
      rw [le_div_iff₀ hxpos]
      calc (2 : ℚ) ^ ((1021 : ℕ) - 1074 : ℤ) * amount x
          ≤ 2 ^ ((1021 : ℕ) - 1074 : ℤ) * (2 ^ 53 * amount d) :=
            mul_le_mul_of_nonneg_left hpart (by positivity)
        _ = amount d := by rw [← mul_assoc]; norm_num
    rw [zero_lt_iff_amount hround.isNaN]
    exact lt_of_lt_of_le (by positivity) (hround.power_le (by norm_num) hleast)
  · obtain ⟨m, e, hm, hunpack⟩ := unpack_of_isPositive hx
    have hself : d / x = d := ofModel_pack_of_eq (by rw [htop, hunpack]; rfl)
    rw [hself]
    exact hd

/-- **Neither the rest nor the part that it is of the whole is rounded to zero.** -/
theorem zero_lt_of_rounds {x y d : Float} (hx : isPositive x = true) (hy : y.isNaN = false)
    (h : y < x) (hd : Rounds (amount x - amount y) d) : 0 < d ∧ 0 < d / x := by
  obtain ⟨k, hk, hgap, hwhole⟩ := exists_gap_below hx hy h
  have hrest := hd.power_le hk hgap
  have hunit : (0 : ℚ) < 2 ^ (k - 1074 : ℤ) := by positivity
  have hpos : 0 < d := (zero_lt_iff_amount hd.isNaN).2 (hunit.trans_le hrest)
  exact ⟨hpos, zero_lt_div hx hpos
    (hwhole.trans (mul_le_mul_of_nonneg_left hrest (by positivity)))⟩

/-- **What is taken from more leaves something.** -/
theorem zero_lt_sub {x y : Float} (hx : isPositive x = true) (hy : y.isFinite = true)
    (h : y < x) : 0 < x - y :=
  (zero_lt_of_rounds hx (isNaN_of_isFinite hy) h (rounds_sub (isFinite_of_isPositive hx) hy)).1

/-- **A fall is below zero**, as a fraction of what it is a fall from. -/
theorem fall_lt_zero {x y : Float} (hx : isPositive x = true) (hy : y.isFinite = true)
    (h : y < x) : (y - x) / x < 0 := by
  have hround := (rounds_sub hy (isFinite_of_isPositive hx)).opposite
  rw [neg_sub] at hround
  have hpos := (zero_lt_of_rounds hx (isNaN_of_isFinite hy) h hround).2
  rw [opposite_div] at hpos
  have hnumber : ((y - x) / x).isNaN = false :=
    (isNaN_neg _).symm.trans (isUnsigned_of_zero_lt hpos).number
  rw [zero_lt_iff_amount ((isNaN_neg _).trans hnumber), amount_opposite hnumber] at hpos
  rw [lt_iff_amount hnumber rfl, amount_zero]
  linarith

/-! ### Rates -/

theorem amount_one : amount 1.0 = 1 :=
  (isUnsigned_of_isPositive isPositive_one).amount_eq.trans magnitude_one

/-- **One less a rate is a factor from zero to one** if the rate is at most one. -/
theorem one_sub_between {rate : Float} (hrate : isNonNegative rate = true) (hle : rate ≤ 1.0) :
    0 ≤ 1.0 - rate ∧ 1.0 - rate ≤ 1.0 := by
  have hround := rounds_sub (isFinite_of_isPositive isPositive_one)
    (isFinite_of_isNonNegative hrate)
  have hnumber := isNaN_of_isFinite (isFinite_of_isNonNegative hrate)
  have hpos := (zero_le_iff_amount hnumber).1 (of_decide_eq_true (Bool.and_eq_true_iff.1 hrate).2)
  have hone := (le_iff_amount hnumber rfl).1 hle
  exact ⟨hround.zero_le (sub_nonneg.2 hone), hround.le (rounds_amount rfl) (sub_le_self _ hpos)⟩

/-- A rate below one leaves something. -/
theorem zero_lt_one_sub {rate : Float} (hrate : isNonNegative rate = true) (hlt : rate < 1.0) :
    0 < 1.0 - rate :=
  zero_lt_sub isPositive_one (isFinite_of_isNonNegative hrate) hlt

/-- **A factor from zero to one makes no more of what is not below zero**, and nothing below zero.
An infinity needs the factor to be above zero. -/
theorem mul_between {x factor : Float} (hx : 0 ≤ x) (hlow : 0 ≤ factor) (hhigh : factor ≤ 1.0)
    (h : x.isFinite = true ∨ 0 < factor) : 0 ≤ x * factor ∧ x * factor ≤ x := by
  have hxnumber := (isNaN_of_le hx).2
  have hnumber := (isNaN_of_le hlow).2
  have hfactor : factor.isFinite = true := isFinite_of_between (x := 0) rfl
    (isFinite_of_isPositive isPositive_one) hlow hhigh
  cases hfinite : x.isFinite with
  | true =>
    have hxpos := (zero_le_iff_amount hxnumber).1 hx
    have hone : amount factor ≤ 1 := amount_one ▸ (le_iff_amount hnumber rfl).1 hhigh
    exact ⟨zero_le_mul hfinite hfactor hx hlow, (rounds_mul hfinite hfactor).le
      (rounds_amount hxnumber) (mul_le_of_le_one_right hxpos hone)⟩
  | false =>
    have hpos : 0 < factor := h.resolve_left (by rw [hfinite]; exact Bool.false_ne_true)
    have htop := unpack_of_zero_le hx hfinite
    have hpositive : isPositive factor = true :=
      Bool.and_eq_true_iff.2 ⟨hfactor, decide_eq_true hpos⟩
    obtain ⟨m, e, hm, hunpack⟩ := unpack_of_isPositive hpositive
    have hself : x * factor = x := ofModel_pack_of_eq (by rw [htop, hunpack]; rfl)
    rw [hself]
    exact ⟨hx, le_infinity hxnumber htop⟩

/-- A factor that is at least one leaves above zero what is there, on either side. -/
theorem zero_lt_mul {x factor : Float} (hx : 0 < x) (hfactor : isPositive factor = true)
    (hone : 1 ≤ magnitude factor) : 0 < x * factor ∧ 0 < factor * x := by
  have hpos := magnitude_pos hx
  have hself := (isUnsigned_of_zero_lt hx).isNearest
  have hfinite := isFinite_of_isPositive hfactor
  have hright := isNearest_mul hx (zero_lt_of_isPositive hfactor) (.inr hone) (.inl hfinite)
  have hleft := isNearest_mul (zero_lt_of_isPositive hfactor) hx (.inl hfinite) (.inr hone)
  have hmore := hself.mono hright (le_mul_of_one_le_right hpos.le hone)
  have hmore' := hself.mono hleft (le_mul_of_one_le_left hpos.le hone)
  exact ⟨hright.unsigned.zero_lt (hpos.trans_le hmore),
    hleft.unsigned.zero_lt (hpos.trans_le hmore')⟩

/-! ### Taking away and giving back -/

/-- Between the opposite of what is taken away and what it is taken from lies the rest. -/
theorem sub_between {x y : Float} (hx : x.isFinite = true) (hy : y.isFinite = true) (hxpos : 0 ≤ x)
    (hypos : 0 ≤ y) : -y ≤ x - y ∧ x - y ≤ x := by
  have hround := rounds_sub hx hy
  have hxnumber := isNaN_of_isFinite hx
  have hynumber := isNaN_of_isFinite hy
  rw [zero_le_iff_amount hxnumber] at hxpos
  rw [zero_le_iff_amount hynumber] at hypos
  refine ⟨(rounds_amount ((isNaN_neg y).trans hynumber)).le hround ?_,
    hround.le (rounds_amount hxnumber) (sub_le_self _ hypos)⟩
  rw [amount_opposite hynumber]
  linarith

/-- What is left of an account is finite, or the account was infinite and still is. -/
theorem isFinite_sub_or {x y : Float} (hx : 0 ≤ x) (hy : y.isFinite = true) (hypos : 0 ≤ y) :
    (x - y).isFinite = true ∨ 0 ≤ x - y := by
  cases hfinite : x.isFinite with
  | true =>
    obtain ⟨hlow, hhigh⟩ := sub_between hfinite hy hx hypos
    exact .inl (isFinite_of_between ((isFinite_opposite y).trans hy) hfinite hlow hhigh)
  | false =>
    rw [infinity_sub (unpack_of_zero_le hx hfinite) hy]
    exact .inr hx

/-- **What was taken away and is given back with the rest is not below zero**, although both steps
are rounded. -/
theorem zero_le_add_sub {x y : Float} (hx : 0 ≤ x) (hy : y.isFinite = true) (hypos : 0 ≤ y) :
    0 ≤ y + (x - y) := by
  cases hfinite : x.isFinite with
  | true =>
    obtain ⟨hlow, hhigh⟩ := sub_between hfinite hy hx hypos
    have hrest := isFinite_of_between ((isFinite_opposite y).trans hy) hfinite hlow hhigh
    -- the rounded rest is not below `-y`, so the exact sum with `y` is not below zero
    rw [le_iff_amount (isNaN_of_le hlow).1 (isNaN_of_le hlow).2,
      amount_opposite (isNaN_of_isFinite hy)] at hlow
    exact (rounds_add hy hrest).zero_le (by linarith)
  | false =>
    rw [infinity_sub (unpack_of_zero_le hx hfinite) hy]
    exact float_le_trans hypos (le_add_of_zero_le (.inl hy) hx)

end BarReplay.Decimal
