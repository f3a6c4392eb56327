import BarReplay.Proofs.Metrics.Drawdown
import BarReplay.Proofs.Metrics.Totals

/-!
# Flat curves

An equity curve that repeats one value has no growth, no deviation and no fall. In doubles this is
so because the operations that are met on the way are exact: a positive double divided by itself is
one, a finite double less itself is zero, and zero is kept by sums, by products and by quotients.

The shape of what is computed from a flat curve is the same for every arithmetic
(`periodReturns_replicate`, `deepestDrawdown_replicate`); the values are those of doubles.
-/

open BarReplay.Decimal

namespace BarReplay

namespace Decimal

/-- A positive double divided by itself is one. -/
theorem div_self_of_isPositive {x : Float} (hx : isPositive x = true) : x / x = 1 := by
  have hfinite := isFinite_of_isPositive hx
  have hpos : amount x ≠ 0 := (amount_of_isPositive hx).2.ne'
  have hround := rounds_div hfinite hfinite hpos
  rw [div_self hpos] at hround
  have hone := hround.amount_eq rfl amount_one
  exact eq_of_amount_eq hround.isNaN rfl (hone.trans amount_one.symm) (hone.trans_ne one_ne_zero)

/-- Zero divided by anything above zero is zero, by infinity too. -/
theorem zero_div_of_zero_lt {x : Float} (hx : 0 < x) : 0 / x = 0 := by
  rcases isPositive_or_top hx with hpos | ⟨htop, -⟩
  · exact zero_div_of_isPositive hpos
  · exact ofModel_pack_of_eq (by rw [htop]; rfl)

/-- A count from two on is above one, also if it is too large to be exact or finite. -/
theorem zero_lt_ofNat_sub {n : ℕ} (hn : 2 ≤ n) : 0 < Float.ofNat n ∧ 0 < Float.ofNat n - 1 := by
  have hround : Rounds n (Float.ofNat n) := .above (Nat.cast_nonneg n) (isNearest_ofNat n)
  obtain ⟨-, htwo⟩ := amount_ofNat (n := 2) (by norm_num)
  have hmono := (rounds_amount (x := Float.ofNat 2) rfl).mono hround (by
    rw [htwo]
    exact_mod_cast hn)
  rw [htwo, Nat.cast_ofNat] at hmono
  have hpos := (zero_lt_iff_amount hround.isNaN).2 (by linarith)
  refine ⟨hpos, ?_⟩
  cases hfinite : (Float.ofNat n).isFinite with
  | true =>
    have hsub : Rounds (amount (Float.ofNat n) - amount 1.0) (Float.ofNat n - 1) :=
      rounds_sub hfinite (isFinite_of_isPositive isPositive_one)
    rw [zero_lt_iff_amount hsub.isNaN]
    have hone := (rounds_amount (x := 1.0) rfl).mono hsub (by rw [amount_one]; linarith)
    rw [amount_one] at hone
    exact one_pos.trans_le hone
  | false =>
    rw [infinity_sub (unpack_of_zero_le (float_le_of_lt rfl hround.isNaN hpos) hfinite)
      rfl]
    exact hpos

end Decimal

namespace Metrics

/-! ### What a flat curve leads to -/

section Shape

variable {α : Type} [Arithmetic α] {c : α}

theorem periodReturns_replicate (n : ℕ) : periodReturns (List.replicate n c) =
    (List.replicate (n - 1) (stepReturn? c c)).filterMap id := by
  induction n with
  | zero => rfl
  | succ n ih =>
    cases n with
    | zero => rfl
    | succ n =>
      have hcons : periodReturns (List.replicate (n + 2) c) =
          (stepReturn? c c).toList ++ periodReturns (List.replicate (n + 1) c) := rfl
      rw [hcons, ih, Nat.add_sub_cancel, Nat.add_sub_cancel, List.replicate_succ,
        List.filterMap_cons]
      rcases stepReturn? c c with - | r <;> rfl

/-- A flat curve is its own peak. -/
theorem withPeaks_replicate (hlow : Arithmetic.lowest < c) (hself : ¬ c < c) (n : ℕ) :
    withPeaks Arithmetic.lowest (List.replicate n c) = List.replicate n (c, c) := by
  have hrest (n : ℕ) : withPeaks c (List.replicate n c) = List.replicate n (c, c) := by
    induction n with
    | zero => rfl
    | succ n ih =>
      rw [List.replicate_succ, withPeaks, if_neg hself, ih]
      rfl
  cases n with
  | zero => rfl
  | succ n =>
    rw [List.replicate_succ, withPeaks, if_pos hlow, hrest]
    rfl

/-- A flat curve has no deepest fall if its value has none from itself. -/
theorem deepestDrawdown_replicate (hlow : Arithmetic.lowest < c) (hself : ¬ c < c)
    (hfall : drawdown? (c, c) = none ∨ drawdown? (c, c) = some 0) (hzero : lesser (0 : α) 0 = 0)
    (n : ℕ) : deepestDrawdown (List.replicate n c) = 0 := by
  rw [deepestDrawdown, withPeaks_replicate hlow hself]
  rcases hfall with hfall | hfall
  · rw [List.filterMap_replicate_of_none hfall]
  · rw [List.filterMap_replicate_of_some hfall]
    have hrest (n : ℕ) : (List.replicate n (0 : α)).foldl lesser 0 = 0 := by
      induction n with
      | zero => rfl
      | succ n ih => rw [List.replicate_succ, List.foldl_cons, hzero, ih]
    cases n with
    | zero => rfl
    | succ n => exact hrest n

end Shape

/-! ### Flat curves of doubles -/

/-- The peak before the first point is below every finite double. -/
theorem lowest_lt {x : Float} (hx : x.isFinite = true) : (Arithmetic.lowest : Float) < x := by
  by_contra hnot
  have hpeak := higher_lowest hx
  rw [higher, if_neg hnot] at hpeak
  rw [← hpeak] at hx
  exact absurd hx (by decide)

/-- **Zeros have no mean and no deviation**, however many there are. -/
theorem sharpe_zeros (n : ℕ) : sharpe (List.replicate n (0 : Float)) = 0 := by
  rw [sharpe, List.length_replicate]
  rcases Nat.lt_or_ge n 2 with hfew | hmany
  · exact if_pos hfew
  · obtain ⟨hcount, hless⟩ := zero_lt_ofNat_sub hmany
    have hmean : total (List.replicate n (0 : Float)) / Float.ofNat n = 0 := by
      rw [total_zeros, zero_div_of_zero_lt hcount]
    have hsquare : ((0 : Float) - 0) * (0 - 0) = 0 := rfl
    have hroot : Arithmetic.sqrt (0 : Float) = 0 := rfl
    rw [if_neg hmany.not_gt]
    show (if isPositive (Arithmetic.sqrt (total ((List.replicate n (0 : Float)).map fun r ↦
      (r - total (List.replicate n 0) / Float.ofNat n) *
        (r - total (List.replicate n 0) / Float.ofNat n)) / (Float.ofNat n - 1))) = true
      then _ else 0) = (0 : Float)
    rw [hmean, List.map_replicate, hsquare, total_zeros, zero_div_of_zero_lt hless, hroot]
    exact if_neg (by decide)

/-- Without trades nothing is won or lost. -/
theorem winPerLoss_nil : winPerLoss ([] : List Float) = 0 :=
  rfl

section Value

variable {c : Float} (hc : isNonNegative c = true)

include hc

theorem growth_replicate (n : ℕ) : growth (List.replicate (n + 1) c) = 0 := by
  have hlast : (List.replicate (n + 1) c).getLast?.getD 0 = c := by
    rw [List.getLast?_replicate, if_neg n.succ_ne_zero, Option.getD_some]
  show (if (c == 0) = true then 0 else (List.replicate (n + 1) c).getLast?.getD 0 / c - 1) = 0
  cases hzero : c == 0 with
  | true => exact if_pos rfl
  | false =>
    rw [hlast, div_self_of_isPositive (isPositive_of_isNonNegative hc hzero),
      if_neg Bool.false_ne_true]
    exact sub_self_of_isFinite rfl

/-- A step without a change has a return of zero, if it has one. -/
theorem stepReturn?_self : stepReturn? c c = none ∨ stepReturn? c c = some 0 := by
  cases hzero : c == 0 with
  | true => exact .inl (if_pos hzero)
  | false =>
    have hone : c / c - 1 = 0 := by
      rw [div_self_of_isPositive (isPositive_of_isNonNegative hc hzero)]
      exact sub_self_of_isFinite rfl
    refine .inr ((if_neg (Bool.eq_false_iff.1 hzero)).trans ?_)
    show (if Arithmetic.isFinite (c / c - 1) = true then some (c / c - 1) else none) = some 0
    rw [hone]
    rfl

/-- A value has no fall from itself. -/
theorem drawdown?_self : drawdown? (c, c) = none ∨ drawdown? (c, c) = some 0 := by
  cases hzero : c == 0 with
  | true => exact .inl (if_pos hzero)
  | false =>
    have hpos := isPositive_of_isNonNegative hc hzero
    refine .inr ((if_neg (Bool.eq_false_iff.1 hzero)).trans (congrArg some ?_))
    show (c - c) / c = 0
    rw [sub_self_of_isFinite (isFinite_of_isPositive hpos), zero_div_of_isPositive hpos]

theorem deepestDrawdown_flat (n : ℕ) : deepestDrawdown (List.replicate n c) = 0 := by
  have hfinite := isFinite_of_isNonNegative hc
  exact deepestDrawdown_replicate (lowest_lt hfinite)
    (float_not_lt (float_le_refl (isNaN_of_isFinite hfinite))) (drawdown?_self hc)
    rfl n

end Value

end Metrics

end BarReplay
