import BarReplay.Proofs.Metrics.Sharpe

/-!
# Finite figures

Which figures of a performance are finite, if the values of the curve and the profits are bounded.
The growth and the deepest fall are quotients by a value of the curve, so this must not be too small
(`isFinite_growth`, `isFinite_deepestDrawdown`), and what was won is divided by what was lost, so a
loss must not be too small (`isFinite_winPerLoss`). The return per year is finite exactly if the
power that it takes is (`isFinite_annualized_iff`); of the ratio of mean and deviation nothing is
asked at all (`isFinite_sharpe`).
-/

open BarReplay.Decimal

namespace BarReplay

namespace Decimal

/-- Taking one from a double is finite exactly if the double is. -/
theorem isFinite_sub_one_iff {x : Float} : (x - 1).isFinite = true ↔ x.isFinite = true := by
  refine ⟨fun h ↦ (isFinite_of_sub h).1, fun h ↦ ?_⟩
  have hround : Rounds (amount x - amount 1.0) (x - 1) :=
    rounds_sub h (isFinite_of_isPositive isPositive_one)
  rw [hround.isFinite_iff, amount_one, overflowBound]
  have habs : |amount x| ≤ 2 ^ 1024 - 2 ^ 971 := by
    refine le_trans (le_of_eq ?_) (magnitude_le_of_isFinite h)
    rw [amount]
    split_ifs
    · rw [abs_neg, abs_of_nonneg (magnitude_nonneg x)]
    · rw [abs_of_nonneg (magnitude_nonneg x)]
  have hless : |amount x - 1| ≤ |amount x| + 1 := (abs_sub _ _).trans_eq (by rw [abs_one])
  have hstep : (2 : ℚ) ^ 970 + 1 < 2 ^ 971 := by
    rw [pow_succ (2 : ℚ) 970, mul_two]
    exact add_lt_add_right (one_lt_pow₀ one_lt_two (by norm_num)) _
  generalize (2 : ℚ) ^ 1024 = top at *
  generalize (2 : ℚ) ^ 971 = step at *
  generalize (2 : ℚ) ^ 970 = half at *
  linarith only [habs, hless, hstep]

end Decimal

namespace Metrics

/-- **The return per year is finite exactly if the account is used up or the power of its growth is
finite.** -/
theorem isFinite_annualized_iff {totalReturn : Float} {bars : ℕ} :
    (annualized totalReturn bars).isFinite = true ↔
      1 + totalReturn ≤ 0 ∨
        (Arithmetic.pow (1 + totalReturn)
          (Arithmetic.yearDays / Arithmetic.ofCount (max 1 bars))).isFinite = true := by
  by_cases hused : (1 + totalReturn : Float) ≤ 0
  · have hloss : annualized totalReturn bars = -1 := if_pos hused
    rw [hloss]
    exact iff_of_true rfl (.inl hused)
  · have hpower : annualized totalReturn bars = Arithmetic.pow (1 + totalReturn)
        (Arithmetic.yearDays / Arithmetic.ofCount (max 1 bars)) - 1 := if_neg hused
    rw [hpower, or_iff_right hused]
    exact isFinite_sub_one_iff

section Curve

variable {curve : List Float} (hcurve : ∀ value ∈ curve, Within (2 ^ 821) value) {first : Float}
  (hfirst : curve.head? = some first) (hstart : 2 ^ (-100 : ℤ) ≤ amount first)

include hcurve hfirst hstart

theorem isFinite_growth : (growth curve).isFinite = true := by
  have hfinite := (hcurve first (List.mem_of_mem_head? hfirst)).finite
  have hlarge := hstart.trans (le_abs_self _)
  obtain ⟨last, hlast⟩ : ∃ last, curve.getLast? = some last := by
    cases curve with
    | nil => cases hfirst
    | cons head rest => exact ⟨_, List.getLast?_cons⟩
  have hne : ¬ (first == 0) = true := by
    rw [← amount_eq_zero_iff (isNaN_of_isFinite hfinite)]
    exact (lt_of_lt_of_le (by positivity) hstart).ne'
  have hvalue : growth curve = last / first - 1 := by
    rw [growth, hfirst, hlast]
    exact if_neg hne
  have hquotient : Within (2 ^ 921) (last / first) :=
    (hcurve last (List.mem_of_getLast? hlast)).div_zpow hfinite hlarge (by norm_num) (by norm_num)
  rw [hvalue]
  exact isFinite_sub_one_iff.2 hquotient.finite

theorem isFinite_deepestDrawdown : (deepestDrawdown curve).isFinite = true := by
  have hfinite : ∀ value ∈ curve, value.isFinite = true := fun v hv ↦ (hcurve v hv).finite
  obtain ⟨hnone, hleast⟩ := deepestDrawdown_isLeast hfinite
  by_cases hfall : ∃ j d, IsFall curve j d
  · obtain ⟨j, d, h⟩ := hfall
    obtain ⟨⟨i, value, peak, hvalue, hpeak, -, hdeepest⟩, -⟩ := hleast j d h
    have hpeakwithin := hcurve peak (List.mem_of_mem_take hpeak.mem)
    -- the peak is not below the first value
    have hlarge : 2 ^ (-100 : ℤ) ≤ |amount peak| := by
      rw [List.head?_eq_getElem?] at hfirst
      have hle := hpeak.highest first (mem_take_of_getElem? (Nat.zero_le i) hfirst)
      obtain ⟨hfirstnumber, hpeaknumber⟩ := isNaN_of_le hle
      exact (hstart.trans ((le_iff_amount hfirstnumber hpeaknumber).1 hle)).trans (le_abs_self _)
    have hdifference : Within (2 ^ 822) (value - peak) :=
      (hcurve value (List.mem_of_getElem? hvalue)).sub hpeakwithin (represented_pow (by norm_num))
        (by rw [← two_mul, ← pow_succ'])
    rw [hdeepest]
    exact (hdifference.div_zpow (l := 922) hpeakwithin.finite hlarge (by norm_num)
      (by norm_num)).finite
  · rw [hnone fun j d h ↦ hfall ⟨j, d, h⟩]
    rfl

end Curve

section Profits

variable {profits : List Float} (hprofits : ∀ p ∈ profits, Within (2 ^ 767) p)
  (hcount : profits.length < 2 ^ 53)

include hprofits hcount

/-- The sum of some of the profits. -/
theorem within_total_filter (keep : Float → Bool) :
    Within (2 ^ 820) (total (profits.filter keep)) := by
  have hlength : (profits.filter keep).length < 2 ^ 53 :=
    (List.length_filter_le _ _).trans_lt hcount
  refine (within_total (k := 767) (by norm_num) hlength fun p hp ↦
    hprofits p (List.mem_of_mem_filter hp)).mono ?_
  have hcast : ((profits.filter keep).length : ℚ) ≤ 2 ^ 53 := by exact_mod_cast hlength.le
  calc ((profits.filter keep).length * 2 ^ 767 : ℚ) ≤ 2 ^ 53 * 2 ^ 767 :=
        mul_le_mul_of_nonneg_right hcast (by positivity)
    _ = 2 ^ 820 := by rw [← pow_add]

theorem isFinite_winPerLoss
    (happart : ∀ p ∈ profits, amount p = 0 ∨ 2 ^ (-153 : ℤ) ≤ |amount p|) :
    (winPerLoss profits).isFinite = true := by
  have hwon : Within (2 ^ 820) (grossProfit profits) := within_total_filter hprofits hcount _
  have hlost : Within (2 ^ 820) (grossLoss profits) := (within_total_filter hprofits hcount _).abs
  by_cases hloss : ∃ p ∈ profits, p < 0
  · have hpos := (zero_lt_grossLoss_iff hlost.finite).2 hloss
    obtain ⟨p, hp, hneg⟩ := hloss
    obtain ⟨hside, hle⟩ := (grossLoss_spec hlost.finite).2 p hp hneg
    have hlarge := (((happart p hp).resolve_left hside.ne).trans hle).trans (le_abs_self _)
    rw [winPerLoss_of_loss hpos]
    exact (hwon.div_zpow (l := 973) hlost.finite hlarge (by norm_num) (by norm_num)).finite
  · push Not at hloss
    rw [winPerLoss_of_no_loss hloss]
    rfl

theorem isFinite_average : (average profits).isFinite = true := by
  cases hempty : profits.isEmpty with
  | true =>
    have hvalue : average profits = 0 := if_pos hempty
    rw [hvalue]
    rfl
  | false =>
    have hvalue : average profits = total profits / Float.ofNat profits.length :=
      if_neg (by rw [hempty]; exact Bool.false_ne_true)
    have hpos : (0 : ℚ) < profits.length := by
      rw [Nat.cast_pos, List.length_pos_iff, ← List.isEmpty_eq_false_iff]
      exact hempty
    obtain ⟨hdivisor, hexact⟩ := within_ofNat hcount
    have htotal := within_total (by norm_num) hcount hprofits
    rw [hvalue]
    exact (htotal.div (c := 2 ^ 767) hdivisor.finite hpos (hexact ▸ le_abs_self _)
      (represented_pow (by norm_num)) (mul_comm _ _).le).finite

end Profits

end Metrics

end BarReplay
