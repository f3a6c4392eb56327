import BarReplay.Proofs.Decimal.Bounds
import BarReplay.Proofs.Replay.Selling

/-!
# Runs far from overflow

Nothing in a run keeps its amounts from overflowing. They do not if its capital and its closes are
far from the ends of the doubles and its rates are not gigantic (`Strategy.IsModerate`). A number of
shares has 64 bits, so a position costs at most `2 ^ 766` then and brings at most as much, and a bar
changes the cash by at most `2 ^ 768` (`IsBounded.move`). The cash after a number of bars is within
as many times this bound, which is a double for every number that can be counted exactly, so the
bound is kept by rounded sums without an error term.

A position also costs at least a close, so what a trade brings differs from what it cost by a part
of that, or not at all (`Position.IsBounded.sell`).
-/

open BarReplay.Decimal

namespace BarReplay

/-! ### Moderate amounts -/

/-- A close or a capital that is far from the ends of the doubles. -/
structure IsModerateAmount (x : Float) : Prop where
  le : 1e-30 ≤ x
  ge : x ≤ 1e150

/-- Capital, rates and closes of a run that are far from the ends of the doubles; there may be no
capital. -/
structure Strategy.IsModerate (s : Strategy Float) (terms : Terms Float) (bars : List (Bar Float)) :
    Prop where
  capital : (terms.capital == 0) = true ∨ IsModerateAmount terms.capital
  commission : (terms.rates s).commission ≤ 1e30
  slippage : (terms.rates s).slippage ≤ 1e30
  closes : ∀ bar ∈ bars, IsModerateAmount bar.close
  count : bars.length < 2 ^ 53

instance (x : Float) : Decidable (IsModerateAmount x) :=
  decidable_of_iff (1e-30 ≤ x ∧ x ≤ 1e150) ⟨fun h ↦ ⟨h.1, h.2⟩, fun h ↦ ⟨h.le, h.ge⟩⟩

/-- The limits in powers of two. -/
theorem amount_limits : (2 : ℚ) ^ (-100 : ℤ) ≤ amount 1e-30 ∧ amount 1e150 ≤ 2 ^ 500 ∧
    amount 1e30 ≤ 2 ^ 100 := by
  have hvalue {x : Float} (hx : 0 < x) : amount x = (Binary.ofFloat x).value :=
    (isUnsigned_of_zero_lt hx).amount_eq
  have hleast : Binary.ofFloat 1e-30 = ⟨5708990770823840, -152⟩ := rfl
  have hlargest : Binary.ofFloat 1e150 = ⟨5503284107318959, 446⟩ := by decide +kernel
  have hrate : Binary.ofFloat 1e30 = ⟨7105427357601002, 47⟩ := by decide +kernel
  rw [hvalue rfl, hvalue (by decide +kernel), hvalue (by decide +kernel), hleast,
    hlargest, hrate]
  refine ⟨by norm_num [Binary.value], ?_, by norm_num [Binary.value]⟩
  calc (5503284107318959 : ℚ) * 2 ^ (446 : ℤ) ≤ 2 ^ 54 * 2 ^ (446 : ℤ) :=
        mul_le_mul_of_nonneg_right (by norm_num) (by positivity)
    _ = 2 ^ 500 := by rw [← zpow_natCast, ← zpow_natCast, ← zpow_add₀ two_ne_zero]; norm_num

namespace IsModerateAmount

variable {x : Float} (h : IsModerateAmount x)

include h

theorem le_amount : 2 ^ (-100 : ℤ) ≤ amount x := by
  obtain ⟨hleast, hx⟩ := isNaN_of_le h.le
  exact amount_limits.1.trans ((le_iff_amount hleast hx).1 h.le)

theorem within : Within (2 ^ 500) x := by
  obtain ⟨hx, hlargest⟩ := isNaN_of_le h.ge
  refine ⟨isFinite_of_between rfl (by decide +kernel) h.le h.ge, ?_⟩
  rw [abs_of_nonneg ((by positivity : (0 : ℚ) ≤ 2 ^ (-100 : ℤ)).trans h.le_amount)]
  exact ((le_iff_amount hx hlargest).1 h.ge).trans amount_limits.2.1

end IsModerateAmount

/-- One more or one less than a moderate rate. -/
theorem within_one_rate {rate : Float} (hrate : isNonNegative rate = true) (hle : rate ≤ 1e30) :
    Within (2 ^ 101) (1 + rate) ∧ 1 ≤ |amount (1 + rate)| ∧ Within (2 ^ 101) (1 - rate) := by
  have hfinite := isFinite_of_isNonNegative hrate
  have hnumber := isNaN_of_isFinite hfinite
  have hpos : 0 ≤ amount rate :=
    (zero_le_iff_amount hnumber).1 (of_decide_eq_true (Bool.and_eq_true_iff.1 hrate).2)
  have hwithin : Within (2 ^ 100) rate := by
    refine ⟨hfinite, ?_⟩
    rw [abs_of_nonneg hpos]
    exact ((le_iff_amount hnumber (isNaN_of_le hle).2).1 hle).trans amount_limits.2.2
  have hone : Within 1 (1 : Float) := by
    refine ⟨rfl, ?_⟩
    rw [show amount (1 : Float) = 1 from amount_one, abs_one]
  have hsum : (1 + 2 ^ 100 : ℚ) ≤ 2 ^ 101 := by norm_num
  refine ⟨hone.add hwithin (represented_pow (by norm_num)) hsum, ?_,
    hone.sub hwithin (represented_pow (by norm_num)) hsum⟩
  have hmagnitude := one_le_magnitude_one_add hrate
  rw [← (amount_of_isPositive (isPositive_one_add hrate)).1] at hmagnitude
  exact hmagnitude.trans (le_abs_self _)

/-! ### Positions -/

/-- What a position that was bought on moderate terms is bounded by. -/
structure Position.IsBounded (p : Position Float) : Prop where
  price : Within (2 ^ 601) p.entryPrice
  size : Within (2 ^ 64) p.size
  cost : Within (2 ^ 766) p.costBasis
  le_cost : 2 ^ (-100 : ℤ) ≤ |amount p.costBasis|

/-- A number of shares has 64 bits. -/
theorem Position.within_size {costs : Costs Float} {fraction cash : Float} {index : ℕ}
    {bar : Bar Float} {p : Position Float}
    (h : Position.buy? costs fraction index bar cash = some p) : Within (2 ^ 64) p.size := by
  have hpos := Position.exists_buy?_iff.1 ⟨p, h⟩
  simp only [Position.buy?, hpos, if_true, Option.some.injEq] at h
  subst h
  have hcount := (cash * fraction / costs.buyPrice bar.close).toUInt64.toNat_lt
  refine Rounds.within (.above (Nat.cast_nonneg _) (isNearest_ofNat _)) ?_
    (represented_pow (by norm_num))
  rw [Nat.abs_cast]
  exact_mod_cast max_le (by norm_num) hcount.le

/-- The result of a trade within bounds, and its distance from zero if it is not zero. -/
structure IsBoundedResult (profit : Float) : Prop where
  within : Within (2 ^ 767) profit
  apart : amount profit = 0 ∨ 2 ^ (-153 : ℤ) ≤ |amount profit|

section Rates

variable {costs : Costs Float} (hcommission : isNonNegative costs.commission = true)
  (hslippage : isNonNegative costs.slippage = true) (hcommissionle : costs.commission ≤ 1e30)
  (hslippagele : costs.slippage ≤ 1e30) {index : ℕ} {bar : Bar Float}
  (hclose : IsModerateAmount bar.close) {p : Position Float}

include hcommission hslippage hcommissionle hslippagele hclose

/-- **What is bought on moderate terms is bounded.** -/
theorem Position.isBounded_of_buy? {fraction cash : Float}
    (h : Position.buy? costs fraction index bar cash = some p) : p.IsBounded := by
  have hbought := Position.boughtOn_of_buy? h
  obtain ⟨hpositive, hsizeone⟩ := Position.isPositive_size h
  obtain ⟨hslip, hslipone, -⟩ := within_one_rate hslippage hslippagele
  obtain ⟨hcharge, hchargeone, -⟩ := within_one_rate hcommission hcommissionle
  have hcloseone := hclose.le_amount.trans (le_abs_self _)
  have hsize : Within (2 ^ 64) p.size := Position.within_size h
  have hsizeone : 1 ≤ |amount p.size| := by
    rw [← (amount_of_isPositive hpositive).1] at hsizeone
    exact hsizeone.trans (le_abs_self _)
  -- the price, the value of the shares and the cost, each with both its bounds
  have hprice : Within (2 ^ 601) p.entryPrice := by
    rw [hbought.price]
    exact hclose.within.mul hslip (represented_pow (by norm_num)) (by rw [← pow_add])
  have hpricele : 2 ^ (-100 : ℤ) ≤ |amount p.entryPrice| := by
    rw [hbought.price]
    exact le_mul_of_le hclose.within.finite hslip.finite hcloseone zero_le_one hslipone
      (represented_zpow (by norm_num) (by norm_num)) (mul_one _).ge
  have hvalue : Within (2 ^ 665) (p.size * p.entryPrice) :=
    hsize.mul hprice (represented_pow (by norm_num)) (by rw [← pow_add])
  have hvaluele : 2 ^ (-100 : ℤ) ≤ |amount (p.size * p.entryPrice)| :=
    le_mul_of_le hsize.finite hprice.finite hsizeone (by positivity) hpricele
      (represented_zpow (by norm_num) (by norm_num)) (one_mul _).ge
  refine ⟨hprice, hsize, ?_, ?_⟩ <;> rw [hbought.cost]
  · exact hvalue.mul hcharge (represented_pow (by norm_num)) (by rw [← pow_add])
  · exact le_mul_of_le hvalue.finite hcharge.finite hvaluele zero_le_one hchargeone
      (represented_zpow (by norm_num) (by norm_num)) (mul_one _).ge

/-- **What a sale on moderate terms brings is bounded**, and is what it cost or differs from it by a
part of it. -/
theorem Position.IsBounded.sell (hp : p.IsBounded) (reason : ExitReason) :
    IsBoundedResult (p.sell costs index bar reason).profit ∧
      Within (2 ^ 768) ((p.sell costs index bar reason).proceeds p.costBasis) := by
  obtain ⟨-, -, hslip⟩ := within_one_rate hslippage hslippagele
  obtain ⟨-, -, hcharge⟩ := within_one_rate hcommission hcommissionle
  have hprice : Within (2 ^ 601) (costs.sellPrice bar.close) :=
    hclose.within.mul hslip (represented_pow (by norm_num)) (by rw [← pow_add])
  have hvalue : Within (2 ^ 665) (p.size * costs.sellPrice bar.close) :=
    hp.size.mul hprice (represented_pow (by norm_num)) (by rw [← pow_add])
  have hcredit : Within (2 ^ 766) (costs.credit (p.size * costs.sellPrice bar.close)) :=
    hvalue.mul hcharge (represented_pow (by norm_num)) (by rw [← pow_add])
  have hprofit : Within (2 ^ 767) (p.sell costs index bar reason).profit :=
    hcredit.sub hp.cost (represented_pow (by norm_num)) (by rw [← two_mul, ← pow_succ'])
  have hproceeds : Within (2 ^ 768) ((p.sell costs index bar reason).proceeds p.costBasis) := by
    refine (hp.cost.mono ?_).add hprofit (represented_pow (by norm_num))
      (by rw [← two_mul, ← pow_succ'])
    exact pow_le_pow_right₀ one_le_two (by norm_num)
  refine ⟨⟨hprofit, ?_⟩, hproceeds⟩
  have hround : Rounds (amount (costs.credit (p.size * costs.sellPrice bar.close)) -
      amount p.costBasis) (p.sell costs index bar reason).profit :=
    rounds_sub hcredit.finite hp.cost.finite
  by_cases hsame : amount p.costBasis = amount (costs.credit (p.size * costs.sellPrice bar.close))
  · rw [hsame, sub_self] at hround
    exact .inl (hround.amount_eq rfl amount_zero)
  · obtain ⟨k, -, hgap, hwhole⟩ := exists_gap_between hp.cost.finite hcredit.finite hsame
    have hpart : (2 : ℚ) ^ (-100 : ℤ) / 2 ^ 53 ≤ 2 ^ (k - 1074 : ℤ) :=
      (div_le_iff₀' (by positivity)).2 (hp.le_cost.trans hwhole)
    rw [abs_sub_comm] at hgap
    refine .inr (hround.beyond (le_trans (le_of_eq ?_) (hpart.trans hgap))
      (represented_zpow (by norm_num) (by norm_num)))
    rw [← zpow_natCast, ← zpow_sub₀ two_ne_zero]
    norm_num

omit hcommission hslippage hcommissionle hslippagele in
/-- The value of a position at a moderate close is bounded. -/
theorem Position.IsBounded.mark (hp : p.IsBounded) : Within (2 ^ 767) (p.mark bar.close) := by
  have hchange : Within (2 ^ 602) (bar.close - p.entryPrice) := by
    refine (hclose.within.mono ?_).sub hp.price (represented_pow (by norm_num))
      (by rw [← two_mul, ← pow_succ'])
    exact pow_le_pow_right₀ one_le_two (by norm_num)
  have hgain : Within (2 ^ 666) (p.unrealized bar.close) :=
    hchange.mul hp.size (represented_pow (by norm_num)) (by rw [← pow_add])
  refine hp.cost.add (hgain.mono ?_) (represented_pow (by norm_num))
    (by rw [← two_mul, ← pow_succ'])
  exact pow_le_pow_right₀ one_le_two (by norm_num)

end Rates

/-! ### Runs -/

/-- What an account and a ledger are bounded by after a number of bars. -/
structure IsBounded (k : ℕ) (standing : Standing Float) (ledger : List (Trade Float)) : Prop where
  cash : Within (k * 2 ^ 768) standing.cash
  position : ∀ p, standing.position = some p → p.IsBounded
  count : ledger.length ≤ k
  results : ∀ t ∈ ledger, IsBoundedResult t.profit

/-- A change of the cash leaves it within the bound of the next bar. -/
theorem within_next {k : ℕ} (hk : k + 1 < 2 ^ 53) {cash change : Float}
    (hcash : Within (k * 2 ^ 768) cash) (hchange : Within (2 ^ 768) change) :
    Within ((k + 1 : ℕ) * 2 ^ 768) (cash + change) ∧
      Within ((k + 1 : ℕ) * 2 ^ 768) (cash - change) := by
  have hroom : (k * 2 ^ 768 + 2 ^ 768 : ℚ) ≤ (k + 1 : ℕ) * 2 ^ 768 := by
    rw [Nat.cast_add_one, add_one_mul]
  exact ⟨hcash.add hchange (represented_mul_pow hk (by norm_num)) hroom,
    hcash.sub hchange (represented_mul_pow hk (by norm_num)) hroom⟩

/-- **Every move on moderate terms keeps the bounds.** -/
theorem IsBounded.move {s : Strategy Float} {costs : Costs Float}
    (hcommission : isNonNegative costs.commission = true)
    (hslippage : isNonNegative costs.slippage = true) (hcommissionle : costs.commission ≤ 1e30)
    (hslippagele : costs.slippage ≤ 1e30) {index : ℕ} {bar : Bar Float}
    (hclose : IsModerateAmount bar.close) {before after : Standing Float}
    {closed : Option (Trade Float)} (hmove : s.Move costs index bar before after closed) {k : ℕ}
    (hk : k + 1 < 2 ^ 53) {ledger : List (Trade Float)} (h : IsBounded k before ledger) :
    IsBounded (k + 1) after (ledger ++ closed.toList) := by
  obtain ⟨hcash, hposition, hcount, hresults⟩ := h
  have hmore : (k * 2 ^ 768 : ℚ) ≤ (k + 1 : ℕ) * 2 ^ 768 :=
    mul_le_mul_of_nonneg_right (Nat.cast_le.2 (Nat.le_succ k)) (by positivity)
  cases hmove with
  | wait cash pass =>
    rw [Option.toList_none, List.append_nil]
    exact ⟨hcash.mono hmore, hposition, hcount.trans (Nat.le_succ k), hresults⟩
  | buy cash p signal bought =>
    have hp := Position.isBounded_of_buy? hcommission hslippage hcommissionle hslippagele hclose
      bought
    have hcost : Within (2 ^ 768) p.costBasis :=
      hp.cost.mono (pow_le_pow_right₀ one_le_two (by norm_num))
    rw [Option.toList_none, List.append_nil]
    exact ⟨(within_next hk hcash hcost).2, fun q hq ↦ Option.some.inj hq ▸ hp,
      hcount.trans (Nat.le_succ k), hresults⟩
  | hold cash p keep =>
    rw [Option.toList_none, List.append_nil]
    exact ⟨hcash.mono hmore, hposition, hcount.trans (Nat.le_succ k), hresults⟩
  | sell cash p reason signal =>
    obtain ⟨hresult, hproceeds⟩ := (hposition p rfl).sell hcommission hslippage hcommissionle
      hslippagele hclose reason
    rw [Option.toList_some]
    refine ⟨(within_next hk hcash hproceeds).1,
      fun _ hnone ↦ absurd hnone.symm (Option.some_ne_none _), ?_, ?_⟩
    · rw [List.length_append, List.length_singleton]
      exact Nat.succ_le_succ hcount
    · intro t ht
      rcases List.mem_append.1 ht with ht | ht
      · exact hresults t ht
      · rw [List.mem_singleton.1 ht]
        exact hresult

namespace Strategy

variable {s : Strategy Float} {terms : Terms Float} {bars : List (Bar Float)} {o : Outcome Float}

theorem IsModerate.within_capital (h : s.IsModerate terms bars) :
    Within (2 ^ 500) terms.capital := by
  rcases h.capital with hzero | hamount
  · have hfinite := isFinite_of_isNonNegative (isNonNegative_of_eq_zero hzero)
    refine ⟨hfinite, ?_⟩
    rw [(amount_eq_zero_iff (isNaN_of_isFinite hfinite)).2 hzero, abs_zero]
    positivity
  · exact hamount.within

section Moderate

variable (h : s.run terms bars = .ok o) (hmoderate : s.IsModerate terms bars)

include h hmoderate

/-- **A moderate run keeps the bounds on every bar.** -/
theorem isBounded_at {k : ℕ} (hk : 1 ≤ k) (hle : k ≤ bars.length) :
    IsBounded k (s.standingAt terms bars k) (s.ledgerAt terms bars k) := by
  have hsound : terms.Sound s := (run_eq_ok_iff.1 h).1
  have hcount := hmoderate.count
  refine s.history_induction terms (motive := IsBounded) le_rfl ?_ ?_ hk hle
  · rw [s.standingAt_one, s.ledgerAt_one]
    refine ⟨hmoderate.within_capital.mono ?_,
      fun _ hnone ↦ absurd hnone.symm (Option.some_ne_none _), Nat.zero_le 1,
      fun t ht ↦ absurd ht List.not_mem_nil⟩
    rw [Nat.cast_one, one_mul]
    exact pow_le_pow_right₀ one_le_two (by norm_num)
  · intro j bar before after closed ledger _ hbar hmove hbounded
    have hj : j < bars.length := (List.getElem?_eq_some_iff.1 hbar).1
    exact hbounded.move hsound.commission hsound.slippage hmoderate.commission hmoderate.slippage
      (hmoderate.closes bar (List.mem_of_getElem? hbar)) hmove (by omega)

/-- **The equity of a moderate run is bounded.** -/
theorem within_equity {value : Float} (hvalue : value ∈ o.equity) : Within (2 ^ 821) value := by
  obtain ⟨i, hi⟩ := List.mem_iff_getElem?.1 hvalue
  rw [Outcome.getElem?_equity_of_run h, Option.map_eq_some_iff] at hi
  obtain ⟨bar, hbar, rfl⟩ := hi
  have hlt : i < bars.length := (List.getElem?_eq_some_iff.1 hbar).1
  have hcount := hmoderate.count
  obtain ⟨hcash, hposition, -, -⟩ := isBounded_at h hmoderate (Nat.le_add_left 1 i) hlt
  generalize s.standingAt terms bars (i + 1) = standing at hcash hposition ⊢
  obtain ⟨cash, position⟩ := standing
  have hroom : ((i + 1 : ℕ) * 2 ^ 768 + 2 ^ 768 : ℚ) ≤ 2 ^ 821 := by
    have hbars : ((i + 2 : ℕ) : ℚ) ≤ 2 ^ 53 := by
      exact_mod_cast (show i + 2 ≤ 2 ^ 53 by omega)
    calc ((i + 1 : ℕ) * 2 ^ 768 + 2 ^ 768 : ℚ) = (i + 2 : ℕ) * 2 ^ 768 := by
          rw [← add_one_mul, ← Nat.cast_add_one]
      _ ≤ 2 ^ 53 * 2 ^ 768 := mul_le_mul_of_nonneg_right hbars (by positivity)
      _ = 2 ^ 821 := by rw [← pow_add]
  cases position with
  | none => exact hcash.mono (le_trans (le_add_of_nonneg_right (by positivity)) hroom)
  | some p =>
    have hmark := (hposition p rfl).mark (hmoderate.closes bar (List.mem_of_getElem? hbar))
    exact hcash.add (hmark.mono (pow_le_pow_right₀ one_le_two (by norm_num)))
      (represented_pow (by norm_num)) hroom

end Moderate

end Strategy

end BarReplay
