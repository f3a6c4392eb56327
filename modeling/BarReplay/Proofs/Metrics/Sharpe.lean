import BarReplay.Proofs.Decimal.Root
import BarReplay.Proofs.Metrics.Ranges

/-!
# Mean over deviation

The ratio of the mean return to the deviation is reported only if the deviation is positive and
finite. That is enough for the ratio to be finite too, whatever the returns are
(`isFinite_sharpe`). Nothing infinite or undefined can have been met on the way then. Some return
differs from the mean, so by a part of the mean as doubles do, and the deviation cannot be so much
smaller than the mean that their quotient overflows: where squares are not too small for doubles,
because the count is finite, and where they are, because the deviation is at least the root of the
least double.
-/

open BarReplay.Decimal

namespace BarReplay

namespace Decimal

/-- A positive double is at least the least one. -/
theorem least_le_amount {x : Float} (hx : isPositive x = true) : 2 ^ (-1074 : ℤ) ≤ amount x := by
  obtain ⟨k, r, hr, -, hvalue, -⟩ := exists_parts hx
  rw [(amount_of_isPositive hx).1, hvalue]
  have hone : (1 : ℚ) ≤ r := Nat.one_le_cast.2 hr
  calc (2 : ℚ) ^ (-1074 : ℤ) ≤ 2 ^ (k - 1074 : ℤ) := zpow_le_zpow_right₀ one_le_two (by omega)
    _ ≤ r * 2 ^ (k - 1074 : ℤ) := le_mul_of_one_le_left (by positivity) hone

/-! ### Squares -/

theorem square_nonneg {x : Float} (h : (x * x).isFinite = true) : 0 ≤ amount (x * x) := by
  have hx := (isFinite_of_mul h).1
  exact (zero_le_iff_amount (isNaN_of_isFinite h)).1
    ((rounds_mul hx hx).zero_le (mul_self_nonneg _))

/-- The square of zero is zero, whatever its sign. -/
theorem square_of_zero {x : Float} (hx : x.isFinite = true) (hzero : amount x = 0) : x * x = 0 := by
  rcases unpack_of_isFinite hx with ⟨s, hu⟩ | ⟨s, m, e, hm, hu⟩
  · exact ofModel_pack_of_eq (by rw [hu]; cases s <;> rfl)
  · rw [amount_of_unpack hu] at hzero
    refine absurd hzero (mul_ne_zero (Int.cast_ne_zero.2 ?_) (zpow_ne_zero e two_ne_zero))
    cases s <;> simp [Float.Model.UnpackedFloat.Sign.apply, hm.ne']

end Decimal

namespace Metrics

/-! ### The parts of the ratio -/

section Parts

variable {α : Type} [Arithmetic α]

/-- The mean of the returns. -/
def mean (returns : List α) : α :=
  total returns / Arithmetic.ofCount returns.length

/-- The squares of the distances of the returns from their mean. -/
def squares (returns : List α) : List α :=
  returns.map fun r ↦ (r - mean returns) * (r - mean returns)

/-- The sample variance of the returns. -/
def variance (returns : List α) : α :=
  total (squares returns) / (Arithmetic.ofCount returns.length - 1)

/-- The sample deviation of the returns. -/
def deviation (returns : List α) : α :=
  Arithmetic.sqrt (variance returns)

theorem sharpe_eq (returns : List α) : sharpe returns =
    if returns.length < 2 then 0
    else if isPositive (deviation returns) then
      mean returns / deviation returns * Arithmetic.sqrt Arithmetic.yearDays
    else 0 := rfl

end Parts

variable {returns : List Float}

/-- A sum of zeros is zero. -/
theorem total_eq_zero {xs : List Float} (h : ∀ x ∈ xs, x = 0) : total xs = 0 := by
  rw [List.eq_replicate_of_mem h, total_zeros]

/-- A return that is not the mean, and no part of which is infinite or undefined. -/
structure IsApart (returns : List Float) (r : Float) : Prop where
  mem : r ∈ returns
  finite : r.isFinite = true
  mean_finite : (mean returns).isFinite = true
  ne_mean : amount (mean returns) ≠ amount r
  square_finite : ((r - mean returns) * (r - mean returns)).isFinite = true
  square_le : amount ((r - mean returns) * (r - mean returns)) ≤ amount (total (squares returns))

section Spread

variable (hvariance : isPositive (variance returns) = true)

include hvariance

theorem isFinite_squares : (total (squares returns)).isFinite = true ∧
    (Float.ofNat returns.length - 1).isFinite = true ∧
      amount (Float.ofNat returns.length - 1) ≠ 0 := by
  obtain ⟨htotal, hcount⟩ := isFinite_of_div (isFinite_of_isPositive hvariance)
  exact ⟨htotal, hcount (ne_zero_of_isPositive hvariance)⟩

theorem rounds_variance : Rounds
    (amount (total (squares returns)) / amount (Float.ofNat returns.length - 1))
    (variance returns) := by
  obtain ⟨htotal, hcount, hne⟩ := isFinite_squares hvariance
  exact rounds_div htotal hcount hne

/-- **If the returns have a variance, one of them is apart from the mean.** -/
theorem exists_apart : ∃ r, IsApart returns r := by
  have htotal := (isFinite_squares hvariance).1
  have hsquare {r : Float} (hr : r ∈ returns) :
      (r - mean returns) * (r - mean returns) ∈ squares returns := List.mem_map_of_mem hr
  have hfinite {r : Float} (hr : r ∈ returns) := isFinite_of_total htotal _ (hsquare hr)
  have hparts {r : Float} (hr : r ∈ returns) := isFinite_of_sub (isFinite_of_mul (hfinite hr)).1
  obtain ⟨r, hr, hne⟩ : ∃ r ∈ returns, amount (mean returns) ≠ amount r := by
    by_contra hnone
    push Not at hnone
    -- all squares are zero then, and so is the variance
    have hzero : total (squares returns) = 0 := by
      refine total_eq_zero (List.forall_mem_map.2 fun r hr ↦ ?_)
      have hdifference := rounds_sub (hparts hr).1 (hparts hr).2
      rw [hnone r hr, sub_self] at hdifference
      exact square_of_zero (isFinite_of_mul (hfinite hr)).1 (hdifference.amount_eq rfl amount_zero)
    have hround := rounds_variance hvariance
    rw [hzero, amount_zero, zero_div] at hround
    exact (amount_of_isPositive hvariance).2.ne' (hround.amount_eq rfl amount_zero)
  have hle := (total_outweighs (.inl rfl : (1 : ℚ) = 1 ∨ _) (fun x hx ↦ by
    obtain ⟨r, hr, rfl⟩ := List.mem_map.1 hx
    simpa using square_nonneg (hfinite hr)) htotal).2 _ (hsquare hr)
  rw [one_mul, one_mul] at hle
  exact ⟨r, hr, (hparts hr).1, (hparts hr).2, hne, hfinite hr, hle⟩

/-- The deviation is not below the root of the least double. -/
theorem least_le_deviation : 2 ^ (-537 : ℤ) ≤ amount (deviation returns) := by
  refine le_sqrt hvariance (by positivity) (represented_zpow (by norm_num) (by norm_num)) ?_
  rw [← (amount_of_isPositive hvariance).1, ← zpow_natCast, ← zpow_mul]
  exact least_le_amount hvariance

end Spread

/-- The square of a difference of at least a power of two is at least the square of this power,
which is no larger than doubles are. -/
theorem IsApart.power_le {r : Float} (hr : IsApart returns r) {j : ℤ} (hlow : -537 ≤ j)
    (hhigh : j ≤ 1023) (hgap : (2 : ℚ) ^ j ≤ |amount r - amount (mean returns)|) :
    j < 512 ∧ (2 : ℚ) ^ (2 * j) ≤ amount (total (squares returns)) := by
  have hdifference := isFinite_of_mul hr.square_finite
  have hround := rounds_mul hdifference.1 hdifference.2
  have hfar : (2 : ℚ) ^ j ≤ |amount (r - mean returns)| :=
    (rounds_sub hr.finite hr.mean_finite).beyond hgap (represented_zpow (by omega) hhigh)
  have hsquare : (2 : ℚ) ^ (2 * j) ≤ |amount (r - mean returns) * amount (r - mean returns)| := by
    rw [two_mul, zpow_add₀ two_ne_zero, abs_mul]
    exact mul_le_mul hfar hfar (by positivity) (abs_nonneg _)
  have hsmall : j < 512 := by
    by_contra hlarge
    have htop : (2 : ℚ) ^ (1024 : ℤ) ≤ 2 ^ (2 * j) := zpow_le_zpow_right₀ one_le_two (by omega)
    have hbound := hsquare.trans_lt (hround.isFinite_iff.1 hr.square_finite)
    rw [overflowBound] at hbound
    exact absurd (htop.trans_lt hbound) (not_lt.2 (by simp))
  have hbeyond := hround.beyond hsquare (represented_zpow (by omega) (by omega))
  rw [abs_of_nonneg (square_nonneg hr.square_finite)] at hbeyond
  exact ⟨hsmall, hbeyond.trans hr.square_le⟩

section Spread

variable (hvariance : isPositive (variance returns) = true) (hlength : 2 ≤ returns.length)

include hvariance hlength

/-- **If some return is apart from the mean by a large power of two, the deviation is at least a
part of this power**, as the count is finite. -/
theorem power_le_deviation {r : Float} (hr : IsApart returns r) {j : ℤ} (hlow : 411 ≤ j)
    (hhigh : j ≤ 1023) (hgap : (2 : ℚ) ^ j ≤ |amount r - amount (mean returns)|) :
    2 ^ (j - 512) ≤ amount (deviation returns) := by
  obtain ⟨-, hfinite, -⟩ := isFinite_squares hvariance
  obtain ⟨-, htotal⟩ := hr.power_le (by omega) hhigh hgap
  have hpos := (zero_lt_ofNat_sub hlength).2
  have hcount := (zero_lt_iff_amount (isNaN_of_isFinite hfinite)).1 hpos
  have hlargest : amount (Float.ofNat returns.length - 1) ≤ 2 ^ (1024 : ℤ) := by
    have hunsigned := isUnsigned_of_zero_lt hpos
    rw [hunsigned.amount_eq]
    exact_mod_cast hunsigned.magnitude_le
  have hquotient : (2 : ℚ) ^ (2 * j - 1024) ≤
      |amount (total (squares returns)) / amount (Float.ofNat returns.length - 1)| := by
    rw [zpow_sub₀ two_ne_zero]
    exact (div_le_div₀ ((by positivity : (0 : ℚ) ≤ 2 ^ (2 * j)).trans htotal) htotal hcount
      hlargest).trans (le_abs_self _)
  have hbeyond := (rounds_variance hvariance).beyond hquotient
    (represented_zpow (by omega) (by omega))
  obtain ⟨hvalue, hpos⟩ := amount_of_isPositive hvariance
  rw [abs_of_pos hpos, hvalue] at hbeyond
  refine le_sqrt hvariance (by positivity) (represented_zpow (by omega) (by omega)) ?_
  rwa [← zpow_natCast, ← zpow_mul, show (j - 512) * (2 : ℕ) = 2 * j - 1024 by push_cast; ring]

end Spread

/-- **The mean is at most `2 ^ 1000` times a deviation that is positive and finite.** -/
theorem within_ratio (hdeviation : isPositive (deviation returns) = true)
    (hlength : 2 ≤ returns.length) : Within (2 ^ 1000) (mean returns / deviation returns) := by
  have hfinite := isFinite_of_isPositive hdeviation
  have hvariance : isPositive (variance returns) = true := isPositive_of_sqrt hdeviation
  obtain ⟨r, hr⟩ := exists_apart hvariance
  obtain ⟨k, hk, hgap, hwhole⟩ := exists_gap_between hr.mean_finite hr.finite hr.ne_mean
  rw [abs_sub_comm] at hgap
  obtain ⟨j, hj⟩ : ∃ j : ℤ, (k - 1074 : ℤ) = j := ⟨_, rfl⟩
  rw [hj] at hgap hwhole
  have hmean : Within (2 ^ (53 + j)) (mean returns) := by
    refine ⟨hr.mean_finite, hwhole.trans_eq ?_⟩
    rw [zpow_add₀ two_ne_zero]
    norm_num
  have hratio {e : ℤ} (hpower : 2 ^ e ≤ amount (deviation returns)) (he : 53 + j ≤ 1000 + e) :
      Within (2 ^ 1000) (mean returns / deviation returns) := by
    refine hmean.div hfinite (by positivity) (hpower.trans (le_abs_self _))
      (represented_pow (by norm_num)) ?_
    rw [← zpow_natCast, ← zpow_add₀ two_ne_zero]
    exact zpow_le_zpow_right₀ one_le_two (by push_cast; omega)
  -- below this power its square may be no double, but the mean is small then
  rcases lt_or_ge j 411 with hsmall | hlarge
  · exact hratio (least_le_deviation hvariance) (by omega)
  · exact hratio (power_le_deviation hvariance hlength hr hlarge (by omega) hgap) (by omega)

/-- The root of the days of a year is less than sixteen. -/
theorem within_sqrt_yearDays : Within (2 ^ 4) (Arithmetic.sqrt (Arithmetic.yearDays : Float)) := by
  obtain ⟨-, hvalue⟩ := amount_ofNat (n := 16) (by norm_num)
  have hunsigned : IsUnsigned (Arithmetic.sqrt (Arithmetic.yearDays : Float)) :=
    isUnsigned_of_zero_lt (by decide +kernel)
  have hle : Arithmetic.sqrt (Arithmetic.yearDays : Float) ≤ Float.ofNat 16 := by decide +kernel
  rw [le_iff_amount hunsigned.number rfl, hvalue] at hle
  refine ⟨by decide +kernel, ?_⟩
  rw [abs_of_nonneg hunsigned.amount_nonneg]
  exact hle.trans (by norm_num)

theorem one_le_sqrt_yearDays : 1 ≤ |amount (Arithmetic.sqrt (Arithmetic.yearDays : Float))| := by
  have hle : (1.0 : Float) ≤ Arithmetic.sqrt (Arithmetic.yearDays : Float) := by decide +kernel
  rw [le_iff_amount rfl (isNaN_of_isFinite within_sqrt_yearDays.finite), amount_one] at hle
  exact hle.trans (le_abs_self _)

/-- **The ratio of mean and deviation is finite**, whatever the returns are. -/
theorem isFinite_sharpe (returns : List Float) : (sharpe returns).isFinite = true := by
  rw [sharpe_eq]
  split_ifs with hfew hdeviation
  · rfl
  · exact ((within_ratio hdeviation (not_lt.1 hfew)).mul within_sqrt_yearDays
      (represented_pow (k := 1004) (by norm_num)) (pow_add 2 1000 4).ge).finite
  · rfl

end Metrics

end BarReplay
