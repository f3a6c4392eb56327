import BarReplay.Proofs.Metrics.Flat

/-!
# Ranges of the performance

Some of what is reported of a run has a range that no run leaves. The share of trades won is between
zero and one, and one only if all are won: the counts are exact as doubles, and a quotient of
different counts is far enough below one not to be rounded to it (`ratio_between`).

The deepest fall is a number and not above zero. This needs no finite curve. The first point of a
curve that starts above zero has a fall of zero, and from then on a fall is only taken if it is no
higher, so one that is no number is passed over (`deepestDrawdown_of_start`).

What was won for one unit lost is not below zero as long as both sums are finite. As the sums are
taken over numbers on one side of zero, either is zero only if it is empty, so the quotient is zero
if nothing was won or nothing lost, and beyond that only if it is too small for a double
(`winPerLoss_spec`).
-/

open BarReplay.Decimal

namespace BarReplay

namespace Decimal

open Float.Model Float.Model.UnpackedFloat

/-! ### Vanishing results -/

/-- The number is above zero, but no more than half of the least double, and is rounded to zero. -/
def Vanishes (q : ℚ) : Prop :=
  0 < q ∧ q ≤ 2 ^ (-1075 : ℤ)

theorem IsNearest.eq_zero_iff {q : ℚ} {x : Float} (h : IsNearest q x) (hq : 0 < q) :
    x = 0 ↔ Vanishes q := by
  constructor
  · rintro rfl
    obtain ⟨y, hy, -, hvalue⟩ := represented_zpow (e := -1074) le_rfl (by norm_num)
    have hnearest := h.nearest y hy
    have hzero : magnitude 0 = 0 := by rw [← h.unsigned.amount_eq, amount_zero]
    rw [hzero, ← hy.amount_eq, hvalue, sub_zero, abs_of_pos hq] at hnearest
    refine ⟨hq, ?_⟩
    have hhalf : (2 : ℚ) ^ (-1074 : ℤ) = 2 * 2 ^ (-1075 : ℤ) := by
      rw [← zpow_one_add₀ two_ne_zero]
      norm_num
    rcases abs_cases (q - 2 ^ (-1074 : ℤ)) with ⟨habs, hside⟩ | ⟨habs, hside⟩ <;>
      rw [habs] at hnearest
    · have hpos : (0 : ℚ) < 2 ^ (-1074 : ℤ) := by positivity
      linarith
    · linarith
  · intro hvanish
    have hbits := (isNearest_iff.1 h).eq (isNearestRung_vanishing hq.le hvanish.2)
    exact float_ext (hbits.trans rfl)

/-! ### Distance from zero -/

/-- The distance of a finite double from zero is the number or its opposite. -/
theorem abs_eq_or {x : Float} (hx : x.isFinite = true) :
    x.abs = x ∧ 0 ≤ amount x ∨ x.abs = -x ∧ amount x ≤ 0 := by
  have hself (h : x.toModel.unpack.abs = x.toModel.unpack) : x.abs = x := ofModel_pack_of_eq h
  have hback (h : x.toModel.unpack.abs = x.toModel.unpack.neg) : x.abs = -x :=
    congrArg (fun u ↦ Float.ofModel (Float.Model.pack u)) h
  rcases unpack_of_isFinite hx with ⟨s, hu⟩ | ⟨s, m, e, hm, hu⟩
  · have hzero := amount_of_unpack_zero hu
    cases s with
    | positive => exact .inl ⟨hself (by rw [hu]; rfl), hzero.ge⟩
    | negative => exact .inr ⟨hback (by rw [hu]; rfl), hzero.le⟩
  · have hpos : (0 : ℚ) ≤ m * 2 ^ e := by positivity
    have hvalue := amount_of_unpack hu
    cases s with
    | positive => exact .inl ⟨hself (by rw [hu]; rfl), by simpa [hvalue, Sign.apply] using hpos⟩
    | negative => exact .inr ⟨hback (by rw [hu]; rfl), by simpa [hvalue, Sign.apply] using hpos⟩

theorem amount_abs {x : Float} (hx : x.isFinite = true) : amount x.abs = |amount x| := by
  rcases abs_eq_or hx with ⟨habs, hside⟩ | ⟨habs, hside⟩
  · rw [habs, abs_of_nonneg hside]
  · rw [habs, amount_opposite (isNaN_of_isFinite hx), abs_of_nonpos hside]

theorem Within.abs {bound : ℚ} {x : Float} (h : Within bound x) : Within bound x.abs := by
  refine ⟨?_, by rw [amount_abs h.finite, abs_abs]; exact h.le⟩
  rcases abs_eq_or h.finite with ⟨habs, -⟩ | ⟨habs, -⟩ <;> rw [habs]
  · exact h.finite
  · exact (isFinite_opposite x).trans h.finite

theorem isFinite_of_abs {x : Float} (h : x.abs.isFinite = true) : x.isFinite = true := by
  have hresult : x.toModel.unpack.abs.isFinite = true := isFinite_of_pack h
  show x.toModel.unpack.isFinite = true
  cases hu : x.toModel.unpack with
  | infinity | notANumber => rw [hu] at hresult; cases hresult
  | zero | finite => rfl

end Decimal

namespace Metrics

/-! ### The share won -/

/-- **A part of a whole is between zero and one**, and one only if it is the whole. -/
theorem ratio_between {part whole : ℕ} (hpart : part ≤ whole) (hwhole : whole < 2 ^ 53) :
    (0 : Float) ≤ ratio part whole ∧ (ratio part whole : Float) ≤ 1 ∧
      (whole ≠ 0 → ((ratio part whole : Float) = 1 ↔ part = whole)) := by
  rcases Nat.eq_zero_or_pos whole with rfl | hpos
  · have hnone : (ratio part 0 : Float) = 0 := rfl
    rw [hnone]
    exact ⟨float_le_refl rfl, rfl, fun h ↦ absurd rfl h⟩
  have hratio : (ratio part whole : Float) = Float.ofNat part / Float.ofNat whole :=
    if_neg hpos.ne'
  obtain ⟨hfinite, hamount⟩ := amount_ofNat (hpart.trans_lt hwhole)
  obtain ⟨hwholefinite, hwholeamount⟩ := amount_ofNat hwhole
  have hwholepos : (0 : ℚ) < whole := Nat.cast_pos.2 hpos
  have hround := rounds_div hfinite hwholefinite (hwholeamount.trans_ne hwholepos.ne')
  rw [hamount, hwholeamount, ← hratio] at hround
  have hquotient : (0 : ℚ) ≤ part / whole := by positivity
  have hone : (part / whole : ℚ) ≤ 1 := (div_le_one hwholepos).2 (Nat.cast_le.2 hpart)
  refine ⟨hround.zero_le hquotient, hround.le (rounds_amount (x := 1.0) rfl)
    (hone.trans amount_one.ge), fun _ ↦ ⟨fun h ↦ ?_, fun h ↦ ?_⟩⟩
  · by_contra hne
    -- the quotient is below one by a whole bit
    have hless : (part + 1 : ℚ) ≤ whole := by exact_mod_cast Nat.lt_of_le_of_ne hpart hne
    have hlarge : (whole : ℚ) ≤ 2 ^ 53 := by exact_mod_cast hwhole.le
    have hgap : (part / whole : ℚ) ≤ (2 ^ 53 - 1 : ℕ) * 2 ^ ((1021 : ℕ) - 1074 : ℤ) := by
      rw [div_le_iff₀ hwholepos]
      norm_num
      linarith
    have hbelow := (hround.within ((abs_of_nonneg hquotient).trans_le hgap)
      (represented_of_bits (by norm_num) (by norm_num))).le
    rw [h] at hbelow
    norm_num [show amount (1 : Float) = 1 from amount_one] at hbelow
  · subst h
    rw [div_self hwholepos.ne'] at hround
    have hsame := hround.amount_eq rfl amount_one
    exact eq_of_amount_eq hround.isNaN rfl (hsame.trans amount_one.symm)
      (hsame.trans_ne one_ne_zero)

/-! ### The deepest fall -/

theorem foldl_lesser_le_zero {a : Float} (ha : a ≤ 0) (xs : List Float) :
    xs.foldl lesser a ≤ 0 := by
  induction xs generalizing a with
  | nil => exact ha
  | cons b rest ih =>
    have hnumber := (isNaN_of_le ha).1
    have hself : (a == a) = true := (beq_iff_amount hnumber hnumber).2 rfl
    refine ih ?_
    rw [lesser, if_pos hself]
    split_ifs with hle
    · exact float_le_trans hle ha
    · exact ha

/-- **No curve that starts above zero has a deepest fall above zero**, not even one that overflows
or holds values that are no numbers. -/
theorem deepestDrawdown_of_start {first : Float} (hfirst : isPositive first = true)
    (rest : List Float) : deepestDrawdown (first :: rest) ≤ 0 := by
  have hfinite := isFinite_of_isPositive hfirst
  have hpeak : higher Arithmetic.lowest first = first := higher_lowest hfinite
  have hfall : drawdown? (first, first) = some 0 := by
    refine (if_neg (Bool.eq_false_iff.1 (ne_zero_of_isPositive hfirst))).trans (congrArg some ?_)
    show (first - first) / first = 0
    rw [sub_self_of_isFinite hfinite, zero_div_of_isPositive hfirst]
  have hwith : withPeaks Arithmetic.lowest (first :: rest) =
      (first, first) :: withPeaks first rest := by
    show (first, higher Arithmetic.lowest first) ::
      withPeaks (higher Arithmetic.lowest first) rest = (first, first) :: withPeaks first rest
    rw [hpeak]
  rw [deepestDrawdown, hwith, List.filterMap_cons, hfall]
  exact foldl_lesser_le_zero (float_le_refl rfl) _

/-! ### What was won for one unit lost -/

section Sums

variable {α : Type} [Arithmetic α]

/-- The profits above zero. -/
def gains (profits : List α) : List α :=
  profits.filter fun p ↦ decide (0 < p)

/-- The profits below zero. -/
def losses (profits : List α) : List α :=
  profits.filter fun p ↦ decide (p < 0)

/-- The sum of the profits above zero. -/
def grossProfit (profits : List α) : α :=
  total (gains profits)

/-- The sum of the profits below zero, as a distance from zero. -/
def grossLoss (profits : List α) : α :=
  Arithmetic.abs (total (losses profits))

end Sums

variable {profits : List Float}

theorem mem_gains {p : Float} : p ∈ gains profits ↔ p ∈ profits ∧ 0 < p := by
  rw [gains, List.mem_filter, decide_eq_true_iff]
  rfl

theorem mem_losses {p : Float} : p ∈ losses profits ↔ p ∈ profits ∧ p < 0 := by
  rw [losses, List.mem_filter, decide_eq_true_iff]
  rfl

/-- Without a profit nothing was won. -/
theorem grossProfit_of_none (h : ∀ p ∈ profits, ¬ 0 < p) : grossProfit profits = 0 := by
  have hnil : gains profits = [] :=
    List.eq_nil_iff_forall_not_mem.2 fun p hp ↦ h p (mem_gains.1 hp).1 (mem_gains.1 hp).2
  rw [grossProfit, hnil, total_nil]

/-- Without a loss nothing was lost. -/
theorem grossLoss_of_none (h : ∀ p ∈ profits, ¬ p < 0) : grossLoss profits = 0 := by
  have hnil : losses profits = [] :=
    List.eq_nil_iff_forall_not_mem.2 fun p hp ↦ h p (mem_losses.1 hp).1 (mem_losses.1 hp).2
  rw [grossLoss, hnil, total_nil]
  rfl

theorem winPerLoss_of_loss (h : 0 < grossLoss profits) :
    winPerLoss profits = grossProfit profits / grossLoss profits :=
  if_pos h

theorem winPerLoss_of_no_loss (h : ∀ p ∈ profits, ¬ p < 0) : winPerLoss profits = 0 := by
  have hnot : ¬ 0 < grossLoss profits := by
    rw [grossLoss_of_none h]
    decide
  exact if_neg hnot

/-- What was won is not below zero, and no profit is above it. -/
theorem grossProfit_spec (h : (grossProfit profits).isFinite = true) :
    0 ≤ amount (grossProfit profits) ∧
      ∀ p ∈ profits, 0 < p → 0 < amount p ∧ amount p ≤ amount (grossProfit profits) := by
  have hmember {p : Float} (hp : p ∈ gains profits) : 0 < amount p := by
    have hpos := (mem_gains.1 hp).2
    exact (zero_lt_iff_amount (isUnsigned_of_zero_lt hpos).number).1 hpos
  obtain ⟨hnonneg, hall⟩ := total_outweighs (.inl rfl : (1 : ℚ) = 1 ∨ _)
    (fun p hp ↦ by simpa using (hmember hp).le) h
  rw [one_mul] at hnonneg
  refine ⟨hnonneg, fun p hp hpos ↦ ?_⟩
  have hmem := mem_gains.2 ⟨hp, hpos⟩
  have hle := hall p hmem
  rw [one_mul, one_mul] at hle
  exact ⟨hmember hmem, hle⟩

/-- What was lost is not below zero, and no loss is beyond it. -/
theorem grossLoss_spec (h : (grossLoss profits).isFinite = true) :
    0 ≤ amount (grossLoss profits) ∧
      ∀ p ∈ profits, p < 0 → amount p < 0 ∧ |amount p| ≤ amount (grossLoss profits) := by
  have hfinite : (total (losses profits)).isFinite = true := isFinite_of_abs h
  have habs : amount (grossLoss profits) = |amount (total (losses profits))| := amount_abs hfinite
  have hmember {p : Float} (hp : p ∈ losses profits) : amount p < 0 := by
    have hneg := (mem_losses.1 hp).2
    rwa [lt_iff_amount (isNaN_of_isFinite (isFinite_of_total hfinite p hp)) rfl,
      amount_zero] at hneg
  obtain ⟨-, hall⟩ := total_outweighs (.inr rfl : _ ∨ (-1 : ℚ) = -1)
    (fun p hp ↦ by simpa using (hmember hp).le) hfinite
  rw [habs]
  refine ⟨abs_nonneg _, fun p hp hneg ↦ ?_⟩
  have hmem := mem_losses.2 ⟨hp, hneg⟩
  have hle := hall p hmem
  rw [neg_one_mul, neg_one_mul] at hle
  rw [abs_of_neg (hmember hmem)]
  exact ⟨hmember hmem, hle.trans (neg_le_abs _)⟩

/-- Something was lost exactly if there is a loss. -/
theorem zero_lt_grossLoss_iff (h : (grossLoss profits).isFinite = true) :
    0 < grossLoss profits ↔ ∃ p ∈ profits, p < 0 := by
  constructor
  · intro hpos
    by_contra hnone
    push Not at hnone
    rw [grossLoss_of_none hnone] at hpos
    exact absurd hpos (by decide)
  · rintro ⟨p, hp, hneg⟩
    obtain ⟨hside, hle⟩ := (grossLoss_spec h).2 p hp hneg
    exact (zero_lt_iff_amount (isNaN_of_isFinite h)).2 ((abs_pos.2 hside.ne).trans_le hle)

/-- **What was won for one unit lost is not below zero** if both sums are finite. It is zero exactly
if there is no loss, or no profit, or the quotient vanishes. -/
theorem winPerLoss_spec (hwon : (grossProfit profits).isFinite = true)
    (hlost : (grossLoss profits).isFinite = true) :
    0 ≤ winPerLoss profits ∧
      (winPerLoss profits = 0 ↔ (∀ p ∈ profits, ¬ p < 0) ∨ (∀ p ∈ profits, ¬ 0 < p) ∨
        Vanishes (amount (grossProfit profits) / amount (grossLoss profits))) := by
  obtain ⟨hwonneg, hgains⟩ := grossProfit_spec hwon
  by_cases hloss : ∃ p ∈ profits, p < 0
  · have hlostpos := (zero_lt_grossLoss_iff hlost).2 hloss
    have hpos := (zero_lt_iff_amount (isNaN_of_isFinite hlost)).1 hlostpos
    have hround := rounds_div hwon hlost hpos.ne'
    obtain ⟨p, hp, hneg⟩ := hloss
    rw [winPerLoss_of_loss hlostpos]
    refine ⟨hround.zero_le (by positivity), ?_⟩
    rw [or_iff_right fun hnone ↦ hnone p hp hneg]
    by_cases hgain : ∃ p ∈ profits, 0 < p
    · obtain ⟨p, hp, hgain⟩ := hgain
      obtain ⟨hside, hle⟩ := hgains p hp hgain
      have hquotient := div_pos (hside.trans_le hle) hpos
      rw [or_iff_right fun hnone ↦ hnone p hp hgain]
      cases hround with
      | above _ nearest => exact nearest.eq_zero_iff hquotient
      | below sign _ => exact absurd sign hquotient.not_ge
    · push Not at hgain
      rw [grossProfit_of_none hgain, zero_div_of_zero_lt hlostpos]
      exact iff_of_true rfl (.inl hgain)
  · push Not at hloss
    rw [winPerLoss_of_no_loss hloss]
    exact ⟨float_le_refl rfl, iff_of_true rfl (.inl hloss)⟩

end Metrics

end BarReplay
