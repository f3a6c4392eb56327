import BarReplay.Proofs.Decimal.Arithmetic
import BarReplay.Proofs.Replay.Holding

/-!
# What a purchase spends

A purchase is sized by the cash that it commits, and the commission comes on top. So it may cost
more than the account holds: if all the cash is committed, and nothing is left for the commission
(`Standing.buys_overspends`). What it costs at most is the share of the cash that is committed, and
the commission on that (`Standing.Buys.costs_at_most`); and if the share leaves room for the
commission, the account can pay (`Standing.Buys.cost_bound`).

All this holds up to rounding. Six steps of a purchase round: the cash committed, the number of
shares that it buys and that number as a double, their value, one and the commission, and the cost.
Each adds a fixed part to its result at most, as long as the price is not so small that doubles have
lost their precision there.
-/

open BarReplay.Decimal

namespace BarReplay

namespace Standing

variable {costs : Costs Float} {fraction : Float} {index : ℕ} {bar : Bar Float}
  {before after : Standing Float} {p : Position Float}

/-- A purchase on accepted terms that is sized by the cash that it commits, as that is at least the
price of a share. -/
structure Buys (costs : Costs Float) (fraction : Float) (index : ℕ) (bar : Bar Float)
    (before after : Standing Float) (p : Position Float) : Prop where
  close : isPositive bar.close = true
  share : isShareOfAccount fraction = true
  commission : isNonNegative costs.commission = true
  slippage : isNonNegative costs.slippage = true
  bought : before.buy? costs fraction index bar = some (p, after)
  sized : p.entryPrice ≤ before.cash * fraction

/-- A purchase on accepted terms is found by buying. -/
theorem exists_buys_iff {P : Position Float → Standing Float → Prop}
    (hclose : isPositive bar.close = true) (hshare : isShareOfAccount fraction = true)
    (hcommission : isNonNegative costs.commission = true)
    (hslippage : isNonNegative costs.slippage = true) :
    (∃ p after, Buys costs fraction index bar before after p ∧ P p after) ↔
      ∃ q, q ∈ before.buy? costs fraction index bar ∧
        q.1.entryPrice ≤ before.cash * fraction ∧ P q.1 q.2 := by
  constructor
  · rintro ⟨p, after, h, hp⟩
    exact ⟨(p, after), h.bought, h.sized, hp⟩
  · rintro ⟨⟨p, after⟩, hbought, hsized, hp⟩
    exact ⟨p, after, ⟨hclose, hshare, hcommission, hslippage, hbought, hsized⟩, hp⟩

namespace Buys

/-- The steps of the purchase. -/
theorem steps (h : Buys costs fraction index bar before after p) :
    0 < before.cash * fraction ∧ p.entryPrice = bar.close * (1.0 + costs.slippage) ∧
      p.shares = max 1 (before.cash * fraction / p.entryPrice).toUInt64.toNat ∧
      p.costBasis = Float.ofNat p.shares * p.entryPrice * (1.0 + costs.commission) ∧
      after.cash = before.cash - p.costBasis := by
  obtain ⟨q, hq, hafter⟩ := Option.map_eq_some_iff.1 h.bought
  obtain ⟨rfl, rfl⟩ := Prod.mk.inj hafter
  have hpos := Position.exists_buy?_iff.1 ⟨q, hq⟩
  simp only [Position.buy?, hpos, if_true, Option.some.injEq] at hq
  subst hq
  exact ⟨hpos, rfl, rfl, rfl, rfl⟩

variable (h : Buys costs fraction index bar before after p)

include h

theorem isPositive_fraction : isPositive fraction = true :=
  Bool.and_eq_true_iff.2
    ⟨isFinite_of_isShareOfAccount h.share, (Bool.and_eq_true_iff.1 h.share).1⟩

theorem magnitude_fraction_le : magnitude fraction ≤ 1 := by
  have hle : fraction ≤ 1.0 := of_decide_eq_true (Bool.and_eq_true_iff.1 h.share).2
  rwa [(isUnsigned_of_isPositive h.isPositive_fraction).le_iff
    (isUnsigned_of_isPositive isPositive_one), magnitude_one] at hle

theorem zero_lt_cash : 0 < before.cash :=
  zero_lt_of_mul h.isPositive_fraction h.steps.1

/-- Slippage moves the price up, so it is above zero as the close is. -/
theorem zero_lt_price : 0 < p.entryPrice := by
  have hrate := isPositive_one_add h.slippage
  have hnearest := isNearest_mul (zero_lt_of_isPositive h.close) (zero_lt_of_isPositive hrate)
    (.inl (isFinite_of_isPositive h.close)) (.inl (isFinite_of_isPositive hrate))
  have hclose := (isUnsigned_of_isPositive h.close).isNearest
  have hle := hclose.mono hnearest
    (le_mul_of_one_le_right (magnitude_nonneg _) (one_le_magnitude_one_add h.slippage))
  rw [h.steps.2.1]
  exact hnearest.unsigned.zero_lt
    ((magnitude_pos (zero_lt_of_isPositive h.close)).trans_le hle)

/-- The number of shares is positive as a double. -/
theorem size : isPositive (Float.ofNat p.shares) = true ∧
    1 ≤ magnitude (Float.ofNat p.shares) := by
  obtain ⟨-, -, hshares, -⟩ := h.steps
  have hcount := (before.cash * fraction / p.entryPrice).toUInt64.toNat_lt
  exact isPositive_ofNat (by omega) (by omega)

/-- The shares are worth at least one of them. -/
theorem value :
    IsNearest (magnitude (Float.ofNat p.shares) * magnitude p.entryPrice)
        (Float.ofNat p.shares * p.entryPrice) ∧
      magnitude p.entryPrice ≤ magnitude (Float.ofNat p.shares * p.entryPrice) := by
  obtain ⟨hsize, hone⟩ := h.size
  have hnearest := isNearest_mul (zero_lt_of_isPositive hsize) h.zero_lt_price
    (.inl (isFinite_of_isPositive hsize)) (.inr hone)
  exact ⟨hnearest, (isUnsigned_of_zero_lt h.zero_lt_price).isNearest.mono hnearest
    (le_mul_of_one_le_left (magnitude_nonneg _) hone)⟩

/-- The position costs at least what its shares are worth. -/
theorem cost :
    IsNearest (magnitude (Float.ofNat p.shares * p.entryPrice) *
        magnitude (1.0 + costs.commission)) p.costBasis ∧
      magnitude (Float.ofNat p.shares * p.entryPrice) ≤ magnitude p.costBasis := by
  obtain ⟨hvalue, hle⟩ := h.value
  have hpos := hvalue.unsigned.zero_lt ((magnitude_pos h.zero_lt_price).trans_le hle)
  have hrate := isPositive_one_add h.commission
  have hone := one_le_magnitude_one_add h.commission
  have hnearest := isNearest_mul hpos (zero_lt_of_isPositive hrate) (.inr hone)
    (.inl (isFinite_of_isPositive hrate))
  rw [← h.steps.2.2.2.1] at hnearest
  exact ⟨hnearest, hvalue.unsigned.isNearest.mono hnearest
    (le_mul_of_one_le_right (magnitude_nonneg _) hone)⟩

theorem isPositive_cash (hcash : before.cash.isFinite = true) : isPositive before.cash = true :=
  Bool.and_eq_true_iff.2 ⟨hcash, decide_eq_true h.zero_lt_cash⟩

/-- A part of finite capital is committed, at least the price of a share. -/
theorem committed (hcash : before.cash.isFinite = true) :
    IsNearest (magnitude before.cash * magnitude fraction) (before.cash * fraction) ∧
      isPositive (before.cash * fraction) = true ∧
      magnitude p.entryPrice ≤ magnitude (before.cash * fraction) := by
  have hnearest :=
    isNearest_mul_of_isPositive (h.isPositive_cash hcash) h.isPositive_fraction
  have hfinite := hnearest.isFinite_of_le hcash
    (mul_le_of_le_one_right (magnitude_nonneg _) h.magnitude_fraction_le)
  exact ⟨hnearest, Bool.and_eq_true_iff.2 ⟨hfinite, decide_eq_true h.steps.1⟩,
    ((isUnsigned_of_zero_lt h.zero_lt_price).le_iff hnearest.unsigned).1 h.sized⟩

/-- No more shares are bought than the cash committed is worth, up to the rounding of the quotient
and of the number of shares. -/
theorem size_bound (hcash : before.cash.isFinite = true) :
    magnitude (Float.ofNat p.shares) * unrounded ^ 2 * magnitude p.entryPrice ≤
      magnitude (before.cash * fraction) := by
  obtain ⟨-, hcommitted, hsized⟩ := h.committed hcash
  have hpos := magnitude_pos h.zero_lt_price
  have hself := isUnsigned_of_zero_lt h.zero_lt_price
  have hfinite := hself.isNearest.isFinite_of_le (isFinite_of_isPositive hcommitted) hsized
  have hprice := hself.isPositive hfinite hpos
  have hquotient := isNearest_div hcommitted hprice
  have hone := hquotient.one_le ((one_le_div hpos).2 hsized)
  have hcount : (p.shares : ℚ) ≤ magnitude (before.cash * fraction / p.entryPrice) := by
    rw [h.steps.2.2.1, Nat.cast_max, Nat.cast_one]
    exact max_le hone (toUInt64_le hquotient.unsigned)
  have hsize := (isNearest_ofNat p.shares).relative (leastNormal_le_one.trans h.size.2)
  have hround := hquotient.relative (leastNormal_le_one.trans hone)
  calc magnitude (Float.ofNat p.shares) * unrounded ^ 2 * magnitude p.entryPrice
      = magnitude (Float.ofNat p.shares) * unrounded * unrounded * magnitude p.entryPrice := by ring
    _ ≤ magnitude (before.cash * fraction / p.entryPrice) * unrounded * magnitude p.entryPrice :=
        mul_le_mul_of_nonneg_right
          (mul_le_mul_of_nonneg_right (hsize.trans hcount) unrounded_pos.le) hpos.le
    _ ≤ magnitude (before.cash * fraction) / magnitude p.entryPrice * magnitude p.entryPrice :=
        mul_le_mul_of_nonneg_right hround hpos.le
    _ = magnitude (before.cash * fraction) := div_mul_cancel₀ _ hpos.ne'

/-- **A purchase costs what it commits and the commission on that**, up to six roundings. -/
theorem costs_at_most (hcash : before.cash.isFinite = true)
    (hnormal : leastNormal ≤ magnitude p.entryPrice) :
    magnitude p.costBasis * unrounded ^ 6 ≤
      magnitude before.cash * magnitude fraction * (1 + magnitude costs.commission) := by
  obtain ⟨hcommitted, -, hsized⟩ := h.committed hcash
  obtain ⟨hvalue, hworth⟩ := h.value
  obtain ⟨hcost, hmore⟩ := h.cost
  have hcommitted := hcommitted.relative (hnormal.trans hsized)
  have hvalue := hvalue.relative (hnormal.trans hworth)
  have hcost := hcost.relative ((hnormal.trans hworth).trans hmore)
  have hrate := (isNearest_one_add h.commission).relative
    (leastNormal_le_one.trans (one_le_magnitude_one_add h.commission))
  have hsize := h.size_bound hcash
  have hcommission := magnitude_nonneg costs.commission
  have hpart := unrounded_pos
  have hprice := magnitude_nonneg p.entryPrice
  have hnumber := magnitude_nonneg (Float.ofNat p.shares)
  have hsum := magnitude_nonneg (1.0 + costs.commission)
  generalize magnitude (1.0 + costs.commission) = rate at *
  generalize magnitude (Float.ofNat p.shares * p.entryPrice) = value at *
  generalize magnitude (Float.ofNat p.shares) = number at *
  generalize magnitude (before.cash * fraction) = committed at *
  calc magnitude p.costBasis * unrounded ^ 6
      = magnitude p.costBasis * unrounded * unrounded ^ 5 := by ring
    _ ≤ value * rate * unrounded ^ 5 := by gcongr
    _ = value * unrounded * (rate * unrounded) * unrounded ^ 3 := by ring
    _ ≤ number * magnitude p.entryPrice * (1 + magnitude costs.commission) * unrounded ^ 3 := by
        gcongr
    _ = number * unrounded ^ 2 * magnitude p.entryPrice * unrounded *
          (1 + magnitude costs.commission) := by ring
    _ ≤ committed * unrounded * (1 + magnitude costs.commission) := by gcongr
    _ ≤ magnitude before.cash * magnitude fraction * (1 + magnitude costs.commission) := by gcongr

/-- An account that commits a share with room for the commission can pay. -/
theorem affordable (hnormal : leastNormal ≤ magnitude p.entryPrice)
    (hroom : magnitude fraction * (1 + magnitude costs.commission) ≤ unrounded ^ 6) :
    magnitude p.costBasis ≤ magnitude before.cash := by
  rcases isPositive_or_top h.zero_lt_cash with hcash | ⟨-, htop⟩
  · have hcost := h.costs_at_most (isFinite_of_isPositive hcash) hnormal
    rw [mul_assoc] at hcost
    exact le_of_mul_le_mul_right
      (hcost.trans (mul_le_mul_of_nonneg_left hroom (magnitude_nonneg _)))
      (pow_pos unrounded_pos 6)
  · rw [htop]
    exact h.cost.1.unsigned.magnitude_le

/-- **What a purchase spends.** In finite capital it costs the share that is committed and the
commission on that, up to six roundings. If the share leaves room for the commission, it costs no
more than there is, and the cash that is left is not below zero, unless both are infinite. -/
theorem cost_bound (hnormal : leastNormal ≤ magnitude p.entryPrice) :
    (before.cash.isFinite = true →
      magnitude p.costBasis * unrounded ^ 6 ≤
        magnitude before.cash * magnitude fraction * (1 + magnitude costs.commission)) ∧
    (magnitude fraction * (1 + magnitude costs.commission) ≤ unrounded ^ 6 →
      p.costBasis ≤ before.cash ∧
        (before.cash.isFinite = true ∨ p.costBasis.isFinite = true → 0 ≤ after.cash)) := by
  refine ⟨fun hcash ↦ h.costs_at_most hcash hnormal, fun hroom ↦ ?_⟩
  have hle := h.affordable hnormal hroom
  have hcost := h.cost.1.unsigned
  have hpaid : p.costBasis ≤ before.cash :=
    (hcost.le_iff (isUnsigned_of_zero_lt h.zero_lt_cash)).2 hle
  refine ⟨hpaid, fun hfinite ↦ ?_⟩
  have hfinite : p.costBasis.isFinite = true :=
    hfinite.elim (fun hcash ↦ hcost.isNearest.isFinite_of_le hcash hle) id
  have hspent := hcost.isPositive hfinite
    (((magnitude_pos h.zero_lt_price).trans_le h.value.2).trans_le h.cost.2)
  rw [h.steps.2.2.2.2]
  exact (isUnsigned_sub h.zero_lt_cash hspent hpaid).zero_le

end Buys

/-- A share that leaves a hundredth of the cash has room for the usual commission. -/
theorem sample_cost_bound :
    ∃ p after, Buys .standard 0.99 1 (Sample.bar 1 100 25) ⟨10000, none⟩ after p ∧
      magnitude p.costBasis * unrounded ^ 6 ≤
        magnitude 10000 * magnitude 0.99 * (1 + magnitude Costs.standard.commission) ∧
      p.costBasis ≤ 10000 ∧ 0 ≤ after.cash := by
  have hbuys : ∃ p after, Buys .standard 0.99 1 (Sample.bar 1 100 25) ⟨10000, none⟩ after p ∧
      leastNormal ≤ magnitude p.entryPrice :=
    (exists_buys_iff (by decide +kernel) (by decide +kernel) (by decide +kernel)
      (by decide +kernel)).2 (by decide +kernel)
  have hfinite : (10000 : Float).isFinite = true := by decide +kernel
  have hroom : magnitude 0.99 * (1 + magnitude Costs.standard.commission) ≤ unrounded ^ 6 := by
    decide +kernel
  obtain ⟨p, after, h, hnormal⟩ := hbuys
  obtain ⟨hcost, hpaid⟩ := h.cost_bound hnormal
  exact ⟨p, after, h, hcost hfinite, (hpaid hroom).1, (hpaid hroom).2 (.inl hfinite)⟩

/-- There is a purchase sized by what it commits that costs more than there is, or that leaves no
cash that is at least zero. -/
def Overspends (costs : Costs Float) (fraction : Float) (bar : Bar Float)
    (before : Standing Float) : Prop :=
  ∃ p after, Buys costs fraction 1 bar before after p ∧
    ¬ (p.costBasis ≤ before.cash ∧ 0 ≤ after.cash)

/-- What is missing is the commission if all the cash is committed; the error of the quotient if
there is no commission; and the error of the commission, however small the share is, if the price is
the least of all. An infinite cost leaves nothing that could be compared of infinite cash. -/
theorem buys_overspends :
    Overspends ⟨0.001, 0⟩ 1 (Sample.bar 1 100 25) ⟨10000, none⟩ ∧
    Overspends ⟨0, 0⟩ 1 (Sample.bar 1 3.9 25) ⟨2000.6999999999998, none⟩ ∧
    Overspends ⟨0.17, 0⟩ 0.84 (Sample.bar 1 5e-324 25) ⟨1.5e-323, none⟩ ∧
    Overspends ⟨0, 0⟩ 0.5 (Sample.bar 1 1e308 25) ⟨1 / 0, none⟩ := by
  refine ⟨?_, ?_, ?_, ?_⟩ <;>
    exact (exists_buys_iff (by decide +kernel) (by decide +kernel) (by decide +kernel)
      (by decide +kernel)).2 (by decide +kernel)

end Standing

end BarReplay
