import BarReplay.Proofs.Decimal.Differences
import BarReplay.Proofs.Replay.LastBar
import BarReplay.Proofs.Replay.Valuation

/-!
# What a sale brings

The rates of a trade are checked to be zero or more, and not to be at most one. A sale at a slippage
above one is filled below zero, a commission above one takes more than the shares are worth, and at
both the two losses make a gain (`Sample.sales_at_high_rates`). Rates written as percentages do
that.

At rates up to one a sale costs nothing: it is filled at a price between zero and the close, it
brings between nothing and what the shares are worth at the close, and the cash is not less after it
than before (`sale_costs_nothing`). The value of the shares may overflow. A commission of exactly
one leaves no part of an infinite value that would be a number, so the value has to be finite then;
and nothing is said of the cash if the position had an infinite cost.
-/

open BarReplay.Decimal

namespace BarReplay

section Proceeds

variable {α : Type} [Arithmetic α]

/-- The value of the shares at the price of the sale. -/
def Trade.gross (t : Trade α) : α :=
  Arithmetic.ofCount t.shares * t.exitPrice

/-- What the commission leaves of the value of the shares. -/
def Trade.net (costs : Costs α) (t : Trade α) : α :=
  costs.credit t.gross

end Proceeds

/-! ### Prices and proceeds -/

section Rates

variable {costs : Costs Float}

/-- **A sale is filled between zero and the close.** -/
theorem Costs.sellPrice_between {close : Float} (hclose : isPositive close = true)
    (hrate : isNonNegative costs.slippage = true) (hle : costs.slippage ≤ 1) :
    0 ≤ costs.sellPrice close ∧ costs.sellPrice close ≤ close := by
  obtain ⟨hlow, hhigh⟩ := one_sub_between hrate hle
  exact mul_between (isUnsigned_of_isPositive hclose).zero_le hlow hhigh
    (.inl (isFinite_of_isPositive hclose))

/-- **The commission leaves between nothing and all of a value.** -/
theorem Costs.credit_between {value : Float} (hvalue : 0 ≤ value)
    (hrate : isNonNegative costs.commission = true)
    (hle : costs.commission < 1 ∨ costs.commission ≤ 1 ∧ value.isFinite = true) :
    0 ≤ costs.credit value ∧ costs.credit value ≤ value := by
  rcases hle with hlt | ⟨hle, hfinite⟩
  · have hnumber := isNaN_of_isFinite (isFinite_of_isNonNegative hrate)
    have hle : costs.commission ≤ 1.0 :=
      (le_iff_amount hnumber rfl).2 ((lt_iff_amount hnumber rfl).1 hlt).le
    obtain ⟨hlow, hhigh⟩ := one_sub_between hrate hle
    exact mul_between hvalue hlow hhigh (.inr (zero_lt_one_sub hrate hlt))
  · obtain ⟨hlow, hhigh⟩ := one_sub_between hrate hle
    exact mul_between hvalue hlow hhigh (.inl hfinite)

end Rates

/-! ### What was bought -/

section Purchase

variable {costs : Costs Float} {fraction cash : Float} {index : ℕ} {bar : Bar Float}
  {p : Position Float}

/-- A number of shares is positive as a double. -/
theorem Position.isPositive_size (h : Position.buy? costs fraction index bar cash = some p) :
    isPositive p.size = true ∧ 1 ≤ magnitude p.size := by
  have hpos := Position.exists_buy?_iff.1 ⟨p, h⟩
  simp only [Position.buy?, hpos, if_true, Option.some.injEq] at h
  subst h
  have hcount := (cash * fraction / costs.buyPrice bar.close).toUInt64.toNat_lt
  exact isPositive_ofNat (Nat.le_max_left _ _) (max_le (by norm_num) hcount.le)

/-- A position is not bought for nothing. -/
theorem Position.zero_lt_costBasis (h : Position.buy? costs fraction index bar cash = some p)
    (hclose : isPositive bar.close = true) (hcommission : isNonNegative costs.commission = true)
    (hslippage : isNonNegative costs.slippage = true) : 0 < p.costBasis := by
  have hbought := Position.boughtOn_of_buy? h
  obtain ⟨hsize, hone⟩ := Position.isPositive_size h
  have hprice : 0 < p.entryPrice := by
    rw [hbought.price]
    exact (zero_lt_mul (zero_lt_of_isPositive hclose) (isPositive_one_add hslippage)
      (one_le_magnitude_one_add hslippage)).1
  have hvalue : 0 < p.size * p.entryPrice := (zero_lt_mul hprice hsize hone).2
  rw [hbought.cost]
  exact (zero_lt_mul hvalue (isPositive_one_add hcommission)
    (one_le_magnitude_one_add hcommission)).1

/-- What is bought is worth between nothing and its worth at the close, at a price between them. -/
theorem Position.worth_between {price close : Float} (hsize : isPositive p.size = true)
    (hclose : isPositive close = true) (hlow : 0 ≤ price) (hhigh : price ≤ close) :
    0 ≤ p.size * price ∧ p.size * price ≤ p.size * close := by
  have hclose := isFinite_of_isPositive hclose
  have hprice := isFinite_of_between (x := 0) (by decide +kernel) hclose hlow hhigh
  have hnumber := (isUnsigned_of_isPositive hsize).zero_le
  have hsize := isFinite_of_isPositive hsize
  exact ⟨zero_le_mul hsize hprice hnumber hlow,
    mul_le_mul_of_zero_le hsize hprice hclose hnumber hhigh⟩

end Purchase

namespace Strategy

/-! ### The account while a position is held -/

section Held

variable {α : Type} [Arithmetic α] {s : Strategy α} {terms : Terms α} {bars : List (Bar α)}

/-- An account is left alone while a position is held. -/
theorem standingAt_of_held {i k : ℕ} {p : Position α} (hik : i ≤ k)
    (h : ∀ j, i ≤ j → j ≤ k → (s.standingAt terms bars j).position = some p) :
    s.standingAt terms bars k = s.standingAt terms bars i := by
  induction k, hik using Nat.le_induction with
  | base => rfl
  | succ k hik ih =>
    rw [← ih fun j hij hjk ↦ h j hij (by omega)]
    rcases s.bar_or_rest terms bars k with ⟨hk, bar, hbar⟩ | ⟨hrest, -⟩
    · have hheld := h k hik (by omega)
      have hnext := h (k + 1) (by omega) le_rfl
      refine (standingAt_succ_of_rest hk hbar ?_ ?_).1
      · rintro q ⟨hnone, -⟩
        rw [hheld] at hnone
        cases hnone
      · intro t hclose
        rw [standingAt_succ_of_closesAt hk hbar hheld hclose] at hnext
        cases hnext
    · exact hrest

/-- What is sold was bought with the cash, and the cash that was left is what there is at the
sale. -/
theorem RoundTrip.bought {p : Position α} {t : Trade α} (h : s.RoundTrip terms bars p t) :
    ∃ bar cash, bars[t.entryIndex]? = some bar ∧
      Position.buy? (terms.rates s) s.fraction t.entryIndex bar cash = some p ∧
      (s.standingAt terms bars t.exitIndex).cash = cash - p.costBasis := by
  obtain ⟨hi, bar, hbar⟩ := h.opened.exists_bar
  obtain ⟨-, -, hbuy⟩ := (opensAt_iff hi hbar).1 h.opened
  obtain ⟨_, -, hlt, -⟩ := h.sold
  have hheld : s.standingAt terms bars t.exitIndex = s.standingAt terms bars (t.entryIndex + 1) :=
    standingAt_of_held hlt h.held
  refine ⟨bar, _, hbar, hbuy, ?_⟩
  rw [hheld, (standingAt_succ_of_opensAt hi hbar h.opened).1]

/-- What is sold is what was bought, at the price of the sale. -/
theorem RoundTrip.sale {p : Position α} {t : Trade α} (h : s.RoundTrip terms bars p t) :
    ∃ bar, bars[t.exitIndex]? = some bar ∧
      t.exitPrice = (terms.rates s).sellPrice bar.close ∧ t.shares = p.shares ∧
      t.gross = p.size * t.exitPrice ∧ t.profit = t.net (terms.rates s) - p.costBasis := by
  obtain ⟨bar, hbar, -, hsold⟩ := h.sold
  have hprice : t.exitPrice = (terms.rates s).sellPrice bar.close := by rw [hsold]; rfl
  have hshares : t.shares = p.shares := by rw [hsold]; rfl
  refine ⟨bar, hbar, hprice, hshares, by rw [Trade.gross, hshares]; rfl, ?_⟩
  rw [Trade.net, Trade.gross, hprice, hshares, hsold]
  rfl

end Held

/-! ### Sales -/

variable {s : Strategy Float} {terms : Terms Float} {bars : List (Bar Float)} {o : Outcome Float}

theorem Accepted.isPositive_fraction (hs : s.Accepted) : isPositive s.fraction = true := by
  obtain ⟨d, hd⟩ := hs
  obtain ⟨hshare, -, -, -, -, -, -, -, -, hfraction, -⟩ := Draft.check_eq_ok_iff.1 hd
  rw [← hfraction] at hshare
  exact Bool.and_eq_true_iff.2
    ⟨isFinite_of_isShareOfAccount hshare, (Bool.and_eq_true_iff.1 hshare).1⟩

/-- **A sale does not lower the cash** if it brings at least nothing. The cost that was taken from
the cash is given back with the profit. -/
theorem RoundTrip.cash_le {p : Position Float} {t : Trade Float}
    (h : s.RoundTrip terms bars p t) (hs : s.Accepted) (hsound : terms.Sound s)
    (hprices : ∀ bar ∈ bars, isPositive bar.close = true) (hnet : 0 ≤ t.net (terms.rates s))
    (hcost : p.costBasis.isFinite = true) :
    (s.standingAt terms bars t.exitIndex).cash ≤
      (s.standingAt terms bars (t.exitIndex + 1)).cash := by
  obtain ⟨bar, cash, hbar, hbuy, hcash⟩ := h.bought
  obtain ⟨_, -, -, -, -, hprofit⟩ := h.sale
  have hpaid := Position.zero_lt_costBasis hbuy (hprices bar (List.mem_of_getElem? hbar))
    hsound.commission hsound.slippage
  have hpaid := (isUnsigned_of_zero_lt hpaid).zero_le
  -- it was bought, so there was cash to commit
  have hfunds := zero_lt_of_mul hs.isPositive_fraction (Position.exists_buy?_iff.1 ⟨p, hbuy⟩)
  rw [h.credited.2, hcash, hprofit]
  exact le_add_of_zero_le (isFinite_sub_or (isUnsigned_of_zero_lt hfunds).zero_le hcost hpaid)
    (zero_le_add_sub hnet hcost hpaid)

/-- **A sale costs nothing at rates up to one.** It is filled between zero and the close. If the
commission is below one, or is one and the value of the shares is finite, the sale brings between
nothing and what the shares are worth at the close, and the cash is not less after it, unless the
cost of the position was infinite. -/
theorem sale_costs_nothing (hs : s.Accepted) (h : s.run terms bars = .ok o)
    (hslippage : (terms.rates s).slippage ≤ 1) {t : Trade Float} (ht : t ∈ o.trades) :
    ∃ p bar, s.RoundTrip terms bars p t ∧ bars[t.exitIndex]? = some bar ∧
      (0 ≤ t.exitPrice ∧ t.exitPrice ≤ bar.close) ∧
      t.profit = t.net (terms.rates s) - p.costBasis ∧
      ((terms.rates s).commission < 1 ∨
          (terms.rates s).commission ≤ 1 ∧ t.gross.isFinite = true →
        (0 ≤ t.net (terms.rates s) ∧ t.net (terms.rates s) ≤ Float.ofNat t.shares * bar.close) ∧
        (p.costBasis.isFinite = true →
          (s.standingAt terms bars t.exitIndex).cash ≤
            (s.standingAt terms bars (t.exitIndex + 1)).cash)) := by
  have hsound := (run_eq_ok_iff.1 h).1
  have hprices : ∀ bar ∈ bars, isPositive bar.close = true := fun bar hbar ↦
    isPositive_iff.2 ((exists_run_iff_soundInput.1 ⟨o, h⟩).prices bar hbar)
  rw [Outcome.trades_of_run h] at ht
  obtain ⟨-, p, htrip⟩ := mem_ledgerAt_iff_roundTrip.1 ht
  obtain ⟨bar, hbar, hprice, hshares, hgross, hprofit⟩ := htrip.sale
  obtain ⟨_, _, -, hbuy, -⟩ := htrip.bought
  have hclose := hprices bar (List.mem_of_getElem? hbar)
  have hfilled : 0 ≤ t.exitPrice ∧ t.exitPrice ≤ bar.close :=
    hprice ▸ Costs.sellPrice_between hclose hsound.slippage hslippage
  refine ⟨p, bar, htrip, hbar, hfilled, hprofit, fun hcommission ↦ ?_⟩
  -- a price between zero and the close gives a worth between nothing and that at the close
  obtain ⟨hworth, hbelow⟩ :=
    Position.worth_between (Position.isPositive_size hbuy).1 hclose hfilled.1 hfilled.2
  rw [← hgross] at hworth hbelow
  obtain ⟨hnet, hcharged⟩ := Costs.credit_between hworth hsound.commission hcommission
  exact ⟨⟨hnet, float_le_trans hcharged (hshares ▸ hbelow)⟩, htrip.cash_le hs hsound hprices hnet⟩

/-- The first sale of the sample run, at a thousandth for each rate. -/
theorem sample_sale_costs_nothing :
    ∃ t ∈ Sample.outcome.trades, ∃ p, Sample.strategy.RoundTrip Sample.terms Sample.bars p t ∧
      (0 ≤ t.exitPrice ∧ t.exitPrice ≤ 97) ∧
      0 ≤ t.net (Sample.terms.rates Sample.strategy) ∧
      (Sample.strategy.standingAt Sample.terms Sample.bars 3).cash ≤
        (Sample.strategy.standingAt Sample.terms Sample.bars 4).cash := by
  have hfirst : ∃ t ∈ Sample.outcome.trades, t.exitIndex = 3 ∧
      (t.lot.cost (Sample.terms.rates Sample.strategy).commission).isFinite = true := by
    decide +kernel
  obtain ⟨t, ht, hexit, hcost⟩ := hfirst
  obtain ⟨p, bar, htrip, hbar, hprice, -, hsale⟩ :=
    sale_costs_nothing ⟨_, Sample.draft_check⟩ Sample.run_eq (by decide +kernel) ht
  obtain ⟨⟨hnet, -⟩, hcash⟩ := hsale (.inl (by decide +kernel))
  rw [htrip.credited.1] at hcost
  rw [hexit] at hbar hcash
  obtain rfl : Sample.bar 3 97 75 = bar := Option.some.inj hbar
  exact ⟨t, ht, p, htrip, hprice, hnet, hcash hcost⟩

end Strategy

/-! ### Rates above one -/

namespace Sample

/-- Ten thousand in cash, and the given rates. -/
def charged (commission slippage : Float) : Terms Float :=
  { capital := 10000, commission := some commission, slippage := some slippage }

/-- The first days of the sample bars, with a close and an RSI of their own. -/
def quoted (quotes : List (Float × Float)) : List (Bar Float) :=
  bars.zipWith (fun bar quote ↦ { bar with close := quote.1, rsi := some quote.2 }) quotes

/-- Three days on which the close rises beyond what two thousand shares can be worth. -/
def surge : List (Bar Float) :=
  quoted [(1, 50), (1, 25), (1e308, 75)]

/-- What a run sells is in its ledger. -/
theorem exists_sale {terms : Terms Float} {days : List (Bar Float)} {P : Trade Float → Prop}
    (hterms : terms.Sound strategy) (hdays : barsError? false days = none)
    (h : ∃ t ∈ strategy.ledgerAt terms days days.length, P t) :
    ∃ o, strategy.run terms days = .ok o ∧ ∃ t ∈ o.trades, P t := by
  have hrun := Strategy.run_eq_ok_iff.2 ⟨hterms, hdays, rfl⟩
  exact ⟨_, hrun, Outcome.trades_of_run hrun ▸ h⟩

theorem charged_sound {commission slippage : Float} (hcommission : isNonNegative commission = true)
    (hslippage : isNonNegative slippage = true) : (charged commission slippage).Sound strategy :=
  ⟨show isNonNegative (10000 : Float) = true by decide +kernel, hcommission, hslippage⟩

/-- **Accepted rates do not keep a sale from costing something, nor from gaining by its costs.** At
a slippage of five the shares are sold below zero, and at a commission of five more is taken than
they bring. At both they bring more than they are worth at the close, and at a commission of one an
infinite value brings nothing that is a number. -/
theorem sales_at_high_rates : strategy.Accepted ∧
    (∃ o, strategy.run (charged 0 5) (bars.take 4) = .ok o ∧ ∃ t ∈ o.trades,
      t.exitPrice < 0 ∧ t.net ((charged 0 5).rates strategy) < 0) ∧
    (∃ o, strategy.run (charged 5 0) (bars.take 4) = .ok o ∧ ∃ t ∈ o.trades,
      0 ≤ t.exitPrice ∧ t.net ((charged 5 0).rates strategy) < 0) ∧
    (∃ o, strategy.run (charged 5 5) (bars.take 4) = .ok o ∧ ∃ t ∈ o.trades,
      Float.ofNat t.shares * 97 < t.net ((charged 5 5).rates strategy)) ∧
    ∃ o, strategy.run (charged 1 0) surge = .ok o ∧ ∃ t ∈ o.trades,
      ¬ 0 ≤ t.net ((charged 1 0).rates strategy) := by
  refine ⟨⟨_, draft_check⟩, ?_, ?_, ?_, ?_⟩ <;>
    exact exists_sale (charged_sound (by decide +kernel) (by decide +kernel)) (by decide +kernel)
      (by decide +kernel)

end Sample

end BarReplay
