import BarReplay.Proofs.Metrics.Sharpe

/-!
# Equal returns

Equal returns do not deviate, so the ratio of their mean and deviation ought to be zero. In doubles
it is, as long as the mean of the returns is the return again. That is so if the products of the
return with the counts have no more bits than doubles have, and always for two returns. Otherwise
the sum is rounded on the way, the mean is next to the return, and a deviation of a last bit is
taken for one: `constant_growth_has_ratio` is a curve that grows by seven tenths at each of three
steps and reports a ratio of more than `8e16`.

Apart from returns whose squares are too small or too large for doubles, the ratio is zero for no
other reason: it is zero exactly if the mean is the return (`sharpe_of_equal_returns`).
-/

open BarReplay.Decimal

namespace BarReplay

namespace Metrics

variable {returns : List Float}

theorem sharpe_of_no_deviation (h : ¬ isPositive (deviation returns) = true) :
    sharpe returns = 0 := by
  rw [sharpe_eq, if_neg h]
  exact ite_self _

/-- **Returns of which none is apart from the mean have no ratio.** -/
theorem sharpe_of_mean (h : ∀ r ∈ returns, (mean returns).isFinite = true →
    amount (mean returns) = amount r) : sharpe returns = 0 := by
  refine sharpe_of_no_deviation fun hdeviation ↦ ?_
  obtain ⟨r, hr⟩ := exists_apart (isPositive_of_sqrt hdeviation)
  exact hr.ne_mean (h r hr.mem hr.mean_finite)

section Equal

variable {r : Float} {n : ℕ}

theorem mean_replicate : mean (List.replicate n r) =
    total (List.replicate n r) / Float.ofNat n := by
  rw [mean, List.length_replicate]
  rfl

/-- **The mean of equal returns of few bits is exact.** -/
theorem amount_mean_of_bits (hn : 0 < n) (hcount : n < 2 ^ 53)
    (hbits : ∀ k ≤ n, HasBits (k * amount r))
    (hmean : (mean (List.replicate n r)).isFinite = true) :
    amount (mean (List.replicate n r)) = amount r := by
  rw [mean_replicate] at hmean ⊢
  obtain ⟨hfinite, hvalue⟩ := amount_ofNat hcount
  have htotal := (isFinite_of_div hmean).1
  have hpos : (n : ℚ) ≠ 0 := Nat.cast_ne_zero.2 hn.ne'
  have hround := rounds_div htotal hfinite (hvalue.trans_ne hpos)
  rw [amount_total_replicate hbits htotal, hvalue, mul_div_cancel_left₀ _ hpos] at hround
  refine hround.eq_of_hasBits hmean ?_
  simpa using hbits 1 hn

theorem sharpe_of_bits (hn : 0 < n) (hcount : n < 2 ^ 53)
    (hbits : ∀ k ≤ n, HasBits (k * amount r)) : sharpe (List.replicate n r) = 0 := by
  refine sharpe_of_mean fun r' hr' hmean ↦ ?_
  rw [List.eq_of_mem_replicate hr']
  exact amount_mean_of_bits hn hcount hbits hmean

/-- Two equal returns have no ratio, as doubling adds no bits. -/
theorem sharpe_of_two (hr : r.isFinite = true) : sharpe (List.replicate 2 r) = 0 := by
  have hself := hasBits_amount hr
  refine sharpe_of_bits (by norm_num) (by norm_num) fun k hk ↦ ?_
  interval_cases k
  · simpa using hasBits_zero
  · simpa using hself
  · exact hself.double

/-! ### Equal returns whose mean is another number -/

/-- A return whose square is neither too small nor too large for doubles. -/
structure IsMiddling (r : Float) : Prop where
  within : Within (2 ^ 450) r
  le : 2 ^ (-450 : ℤ) ≤ |amount r|

/-- The square of the distance of a middling return from another number. -/
theorem IsMiddling.square_between {m : Float} (hr : IsMiddling r) (hm : Within (2 ^ 450) m)
    (hne : amount r ≠ amount m) : Within (2 ^ 902) ((r - m) * (r - m)) ∧
      2 ^ (-1006 : ℤ) ≤ amount ((r - m) * (r - m)) := by
  obtain ⟨k, -, hgap, hwhole⟩ := exists_gap_between hr.within.finite hm.finite hne
  have hfar : (2 : ℚ) ^ (-503 : ℤ) ≤ |amount r - amount m| := by
    have hpart : (2 : ℚ) ^ (-450 : ℤ) / 2 ^ 53 ≤ 2 ^ (k - 1074 : ℤ) :=
      (div_le_iff₀' (by positivity)).2 (hr.le.trans hwhole)
    refine le_trans (le_of_eq ?_) (hpart.trans hgap)
    rw [← zpow_natCast, ← zpow_sub₀ two_ne_zero]
    norm_num
  have hdifference : Within (2 ^ 451) (r - m) :=
    hr.within.sub hm (represented_pow (by norm_num)) (by rw [← two_mul, ← pow_succ'])
  have hdistance := (rounds_sub hr.within.finite hm.finite).beyond hfar
    (represented_zpow (by norm_num) (by norm_num))
  have hsquare := hdifference.mul hdifference (represented_pow (k := 902) (by norm_num))
    (by rw [← pow_add])
  have hbeyond := le_mul_of_le hdifference.finite hdifference.finite hdistance (by positivity)
    hdistance (represented_zpow (e := -1006) (by norm_num) (by norm_num))
    (by rw [← zpow_add₀ two_ne_zero]; norm_num)
  rw [abs_of_nonneg (square_nonneg hsquare.finite)] at hbeyond
  exact ⟨hsquare, hbeyond⟩

section Apart

variable (hr : IsMiddling r) (hn : 2 ≤ n) (hcount : n < 2 ^ 53)

include hr hn hcount

/-- The mean of equal returns is bounded as they are, apart from what is lost by dividing. -/
theorem IsMiddling.mean_between : Within (2 ^ 450) (mean (List.replicate n r)) ∧
    2 ^ (-503 : ℤ) ≤ |amount (mean (List.replicate n r))| := by
  obtain ⟨hdivisor, hvalue⟩ := within_ofNat hcount
  have hpos : (0 : ℚ) < n := Nat.cast_pos.2 (by omega)
  have htotal := within_total_replicate (by norm_num) hcount hr.within
  have hmore := hr.le.trans (abs_le_total_replicate (by omega) htotal.finite)
  rw [mean_replicate]
  refine ⟨htotal.div hdivisor.finite hpos (hvalue ▸ le_abs_self _) (represented_pow (by norm_num))
    (mul_comm _ _).le, ?_⟩
  exact zpow_le_div htotal.finite hmore hdivisor (hvalue.trans_ne hpos.ne') (by norm_num)
    (by norm_num) (by norm_num)

variable (hne : amount r ≠ amount (mean (List.replicate n r)))

include hne

/-- The variance of equal returns whose mean is another number. -/
theorem IsMiddling.variance_between : Within (2 ^ 903) (variance (List.replicate n r)) ∧
    2 ^ (-1059 : ℤ) ≤ amount (variance (List.replicate n r)) := by
  obtain ⟨hsquare, hleast⟩ := hr.square_between (hr.mean_between hn hcount).1 hne
  generalize hsq : (r - mean (List.replicate n r)) * (r - mean (List.replicate n r)) = sq at *
  have hvariance : variance (List.replicate n r) =
      total (List.replicate n sq) / (Float.ofNat n - 1) := by
    rw [variance, squares, List.map_replicate, hsq, List.length_replicate]
    rfl
  have htotal := within_total_replicate (by norm_num) hcount hsquare
  have hmore := le_total_replicate (by omega) htotal.finite (.inl rfl)
    (by rw [one_mul]; exact le_trans (by positivity) hleast)
  rw [one_mul, one_mul] at hmore
  have hmore := hleast.trans hmore
  obtain ⟨hdivisor, hhalf⟩ := ofNat_sub_one_between hn hcount
  have hpos : 0 < amount (Float.ofNat n - 1) := lt_of_lt_of_le (by positivity) hhalf
  have hround := rounds_div htotal.finite hdivisor.finite hpos.ne'
  rw [hvariance]
  constructor
  · refine htotal.div hdivisor.finite (by positivity) (hhalf.trans (le_abs_self _))
      (represented_pow (by norm_num)) (le_of_eq ?_)
    rw [pow_succ (2 : ℚ) 902, mul_assoc, mul_div_cancel₀ _ two_ne_zero, mul_comm]
  · have hbeyond : 2 ^ (-1059 : ℤ) ≤
        |amount (total (List.replicate n sq) / (Float.ofNat n - 1))| :=
      zpow_le_div htotal.finite (hmore.trans (le_abs_self _)) hdivisor hpos.ne' (by norm_num)
        (by norm_num) (by norm_num)
    rwa [abs_of_nonneg ((zero_le_iff_amount hround.isNaN).1 (hround.zero_le
      (div_nonneg (le_trans (by positivity) hmore) hpos.le)))] at hbeyond

/-- The deviation of equal returns whose mean is another number. -/
theorem IsMiddling.deviation_between : Within (2 ^ 452) (deviation (List.replicate n r)) ∧
    isPositive (deviation (List.replicate n r)) = true := by
  obtain ⟨hvariance, hleast⟩ := hr.variance_between hn hcount hne
  have hpositive := isPositive_of_amount hvariance.finite (lt_of_lt_of_le (by positivity) hleast)
  have hmagnitude := (amount_of_isPositive hpositive).1
  have hlow : 2 ^ (-530 : ℤ) ≤ amount (deviation (List.replicate n r)) := by
    refine le_sqrt hpositive (by positivity) (represented_zpow (by norm_num) (by norm_num)) ?_
    rw [← hmagnitude, ← zpow_natCast, ← zpow_mul]
    exact (zpow_le_zpow_right₀ one_le_two (by norm_num)).trans hleast
  have hwithin : Within (2 ^ 452) (deviation (List.replicate n r)) := by
    refine within_sqrt hpositive (by positivity) (represented_pow (by norm_num)) ?_
    refine (hmagnitude ▸ (le_abs_self _).trans hvariance.le).trans ?_
    rw [← pow_mul]
    exact pow_le_pow_right₀ one_le_two (by norm_num)
  exact ⟨hwithin, isPositive_of_amount hwithin.finite (lt_of_lt_of_le (by positivity) hlow)⟩

/-- **Equal returns whose mean is another number have a ratio.** -/
theorem IsMiddling.sharpe_ne_zero : sharpe (List.replicate n r) ≠ 0 := by
  obtain ⟨hmean, hleast⟩ := hr.mean_between hn hcount
  obtain ⟨hwithin, hdeviation⟩ := hr.deviation_between hn hcount hne
  have hlength : 2 ≤ (List.replicate n r).length := by simpa using hn
  have hquotient := within_ratio hdeviation hlength
  have hratio : 2 ^ (-955 : ℤ) ≤
      |amount (mean (List.replicate n r) / deviation (List.replicate n r))| :=
    zpow_le_div hmean.finite hleast hwithin (amount_of_isPositive hdeviation).2.ne' (by norm_num)
      (by norm_num) (by norm_num)
  have hproduct := le_mul_of_le hquotient.finite within_sqrt_yearDays.finite hratio zero_le_one
    one_le_sqrt_yearDays (represented_zpow (e := -955) (by norm_num) (by norm_num)) (mul_one _).ge
  rw [sharpe_eq, if_neg hlength.not_gt, if_pos hdeviation]
  intro hzero
  rw [hzero, amount_zero, abs_zero] at hproduct
  exact absurd hproduct (not_le.2 (by positivity))

end Apart

end Equal

/-! ### When equal returns have no ratio -/

/-- **Equal returns have no ratio as long as their mean is exact.** The ratio of copies of a return
is zero if their mean is the return, and that is so if all its products with the counts up to that
of the copies have no more bits than doubles have. Two copies have no ratio in any case. If the
square of the return is neither too small nor too large for doubles, the ratio is zero only if the
mean is the return. -/
theorem sharpe_of_equal_returns {r : Float} (hr : r.isFinite = true) {n : ℕ} (hn : 2 ≤ n)
    (hcount : n < 2 ^ 53) :
    ((mean (List.replicate n r) == r) = true → sharpe (List.replicate n r) = 0) ∧
    ((∀ k ≤ n, HasBits (k * amount r)) → sharpe (List.replicate n r) = 0) ∧
    (n = 2 → sharpe (List.replicate n r) = 0) ∧
    (2 ^ (-450 : ℤ) ≤ |amount r| → |amount r| ≤ 2 ^ 450 →
      (sharpe (List.replicate n r) = 0 ↔ (mean (List.replicate n r) == r) = true)) := by
  have hnumber := isNaN_of_isFinite hr
  have hmean (h : (mean (List.replicate n r) == r) = true) : sharpe (List.replicate n r) = 0 :=
    sharpe_of_mean fun r' hr' hfinite ↦ by
      rw [List.eq_of_mem_replicate hr']
      exact (beq_iff_amount (isNaN_of_isFinite hfinite) hnumber).1 h
  refine ⟨hmean, sharpe_of_bits (by omega) hcount, ?_, fun hlow hhigh ↦ ⟨fun hzero ↦ ?_, hmean⟩⟩
  · rintro rfl
    exact sharpe_of_two hr
  · have hmiddling : IsMiddling r := ⟨⟨hr, hhigh⟩, hlow⟩
    rw [beq_iff_amount (isNaN_of_isFinite (hmiddling.mean_between hn hcount).1.finite) hnumber]
    by_contra hne
    exact hmiddling.sharpe_ne_zero hn hcount (Ne.symm hne) hzero

/-- Three copies of a half have no ratio, and neither have two of seven tenths. -/
theorem sample_sharpe_of_equal_returns :
    sharpe (List.replicate 3 (0.5 : Float)) = 0 ∧ sharpe (List.replicate 2 (0.7 : Float)) = 0 := by
  obtain ⟨hmean, -⟩ := sharpe_of_equal_returns (r := 0.5) rfl (n := 3)
    (by norm_num) (by norm_num)
  obtain ⟨-, -, htwo, -⟩ := sharpe_of_equal_returns (r := 0.7) rfl (n := 2)
    (by norm_num) (by norm_num)
  exact ⟨hmean rfl, htwo rfl⟩

/-- **A curve that grows by the same part at every step may report a ratio beyond all measure.** The
mean of three returns of seven tenths is the double below, so the deviation is one of the last
bit. -/
theorem constant_growth_has_ratio :
    periodReturns ([1000, 1700, 2890, 4913] : List Float) = List.replicate 3 0.7 ∧
      (0.7 : Float).isFinite = true ∧ sharpe (List.replicate 3 (0.7 : Float)) ≠ 0 ∧
      8e16 < (compute ([1000, 1700, 2890, 4913] : List Float) [] 4).sharpeRatio := by
  decide +kernel

end Metrics

end BarReplay
