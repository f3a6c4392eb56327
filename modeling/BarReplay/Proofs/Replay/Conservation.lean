import Mathlib
import BarReplay.Proofs.Replay.SideBySide
import BarReplay.Proofs.Replay.Valuation

/-!
# Conservation of money

In exact numbers no money is made or lost between the trades: what an account is worth is its
capital, the profits of its trades, and what the price of the position it holds has gained. The
costs of trading are in the profits and nowhere else, so this is so at any commission and slippage.

The recipe of a run is read here in rational numbers (`rationalArithmetic`). In doubles every sum is
rounded, and the same recipe keeps the identity only up to these roundings. The argument is that of
the replayed books (`Balances`): what a lot costs is taken from the cash and given back with its
profit, so in exact numbers it cancels (`cashAfter_eq`, `Lot.valueWith_eq`).
-/

namespace BarReplay

/-! ### Exact arithmetic -/

/-- What the rational numbers lack: roots, powers with any exponent, a value that is no number, and
a least number. Anything may stand in their places. -/
class Substitutes where
  sqrt : ℚ → ℚ
  pow : ℚ → ℚ → ℚ
  undefined : ℚ
  lowest : ℚ

/-- The arithmetic of rational numbers. Counts of shares have 64 bits. -/
instance rationalArithmetic [Substitutes] : Arithmetic ℚ where
  decLt := inferInstance
  decLe := inferInstance
  isFinite _ := true
  undefined := Substitutes.undefined
  lowest := Substitutes.lowest
  tolerance := 1 / 10 ^ 9
  yearDays := 252
  abs x := |x|
  sqrt := Substitutes.sqrt
  pow := Substitutes.pow
  ofCount n := n
  wholeCount x := min ⌊x⌋₊ (2 ^ 64 - 1)

section Exact

variable [Substitutes]

@[simp] theorem ofCount_eq_cast (n : Nat) : (Arithmetic.ofCount n : ℚ) = n := rfl

/-! ### The books in exact numbers -/

/-- Each trade adds its profit to the cash, whatever was paid for it. -/
theorem cashAfter_eq (commission capital : ℚ) (trades : List (Trade ℚ)) :
    cashAfter commission capital trades = capital + (trades.map Trade.profit).sum := by
  induction trades generalizing capital with
  | nil => simp [cashAfter]
  | cons t rest ih =>
    -- the cost of the first lot is taken from the cash and comes back with the profit
    have hfirst : cashAfter commission capital (t :: rest) = cashAfter commission
        (capital - t.lot.cost commission + (t.lot.cost commission + t.profit)) rest := rfl
    rw [hfirst, ih, List.map_cons, List.sum_cons]
    ring

/-- A lot is worth what was there before it and what its price has gained since. -/
theorem Lot.valueWith_eq (commission cash close : ℚ) (l : Lot ℚ) :
    l.valueWith commission cash close = cash + (close - l.price) * l.shares := by
  rw [Lot.valueWith, ofCount_eq_cast]
  ring

/-- What the price of the position has gained at the close, if a position is held. -/
def heldGain (position : Option (Position ℚ)) (close : ℚ) : ℚ :=
  match position with
  | none => 0
  | some p => (close - p.entryPrice) * p.shares

theorem heldGain_eq_unrealized (position : Option (Position ℚ)) (close : ℚ) :
    heldGain position close = position.elim 0 fun p ↦ p.unrealized close := by
  cases position <;> rfl

variable {s : Strategy ℚ} {terms : Terms ℚ} {bars : List (Bar ℚ)} {o : Outcome ℚ}

/-- If the books balance, no money has been made or lost but by the trades and by the price of the
position. -/
theorem Balances.equity_eq {commission capital : ℚ} {account : Standing ℚ}
    {ledger : List (Trade ℚ)} (h : Balances commission capital account ledger) (close : ℚ) :
    account.equity close =
      capital + (ledger.map Trade.profit).sum + heldGain account.position close := by
  rcases hp : account.position with - | p
  · rw [h.equity_of_flat hp, cashAfter_eq, heldGain, add_zero]
  · rw [h.equity_of_held hp, cashAfter_eq, Lot.valueWith_eq]
    rfl

/-- The average of the profits, taken as often as there are profits, is their sum. -/
theorem Metrics.average_mul_length (profits : List ℚ) :
    average profits * profits.length = profits.sum := by
  have htotal : total profits = profits.sum := by rw [total, List.sum_eq_foldl]
  rcases hempty : profits.isEmpty with - | -
  · have hlength : (profits.length : ℚ) ≠ 0 := by simpa using hempty
    rw [average, hempty, if_neg Bool.false_ne_true, htotal, ofCount_eq_cast,
      div_mul_cancel₀ _ hlength]
  · obtain rfl := List.isEmpty_iff.1 hempty
    simp

namespace Strategy

/-- The equity of a bar, in terms of the trades closed by then and of the position then held. -/
theorem getElem?_equity_eq (h : s.run terms bars = .ok o) {i : Nat} {bar : Bar ℚ}
    (hbar : bars[i]? = some bar) :
    o.equity[i]? = some (terms.capital +
      ((o.trades.filter fun t ↦ t.exitIndex ≤ i).map Trade.profit).sum +
      heldGain (s.standingAt terms bars (i + 1)).position bar.close) := by
  have hi : i + 1 ≤ bars.length := (List.getElem?_eq_some_iff.1 hbar).1
  have hledger : s.ledgerAt terms bars (i + 1) = o.trades.filter fun t ↦ t.exitIndex ≤ i := by
    simp only [ledgerAt_eq_filter hi, Outcome.trades_of_run h, Nat.lt_succ_iff]
  rw [Outcome.getElem?_equity_of_run h, hbar, Option.map_some,
    (s.balances_at terms (Nat.le_add_left 1 i) hi).equity_eq, hledger]

/-- What the account is worth at the end, in terms of all trades and of the open position. -/
theorem finalEquity_eq (h : s.run terms bars = .ok o) {last : Bar ℚ}
    (hlast : bars.getLast? = some last) : o.metrics.finalEquity =
      terms.capital + (o.trades.map Trade.profit).sum + heldGain o.position last.close := by
  rw [Outcome.finalEquity_of_run h hlast,
    (s.balances_at terms (length_pos_of_run h) (Nat.le_refl _)).equity_eq,
    ← Outcome.trades_of_run h, ← Outcome.position_of_run h]

/-- **Money is conserved.** In exact numbers the account is worth, after every bar, its capital and
the profits of the trades closed by then, and what the price of the position held has gained. At the
end it has gained the average profit as often as there were trades, and what the price of the open
position has gained. -/
theorem run_conserves_money (h : s.run terms bars = .ok o) :
    (∀ i bar, bars[i]? = some bar →
      o.equity[i]? = some (terms.capital +
        ((o.trades.filter fun t ↦ t.exitIndex ≤ i).map Trade.profit).sum +
        heldGain (s.standingAt terms bars (i + 1)).position bar.close)) ∧
      ∃ last, bars.getLast? = some last ∧
        o.metrics.finalEquity - terms.capital = o.metrics.averageTrade * o.metrics.totalTrades +
          o.position.elim 0 fun p ↦ p.unrealized last.close := by
  refine ⟨fun i bar ↦ getElem?_equity_eq h, ?_⟩
  obtain ⟨last, hlast⟩ : ∃ last, bars.getLast? = some last :=
    ⟨_, List.getLast?_eq_some_getLast (List.length_pos_iff.1 (length_pos_of_run h))⟩
  refine ⟨last, hlast, ?_⟩
  have hcount : o.metrics.totalTrades = o.trades.length := by
    rw [Outcome.metrics_of_run h]
    exact List.length_map _
  have haverage : o.metrics.averageTrade = Metrics.average (o.trades.map Trade.profit) := by
    rw [Outcome.metrics_of_run h]
    rfl
  have htotal : o.metrics.averageTrade * o.metrics.totalTrades =
      (o.trades.map Trade.profit).sum := by
    rw [haverage, hcount, ← List.length_map Trade.profit, Metrics.average_mul_length]
  rw [finalEquity_eq h hlast, htotal, heldGain_eq_unrealized]
  ring

end Strategy

end Exact

namespace Sample

/-- Some choice for what the rational numbers lack. -/
@[reducible]
def substitutes : Substitutes where
  sqrt x := x
  pow x _ := x
  undefined := 0
  lowest := 0

/-- The first five days of the sample in exact numbers, with an RSI that is low twice. -/
def exactBars : List (Bar ℚ) :=
  bars.zipWith (fun bar day ↦ { date := bar.date, close := day.1, rsi := some day.2 })
    [(100, 50), (100, 25), (110, 75), (104, 20), (108, 50)]

/-- The sample rules in exact numbers. -/
def exactStrategy : Strategy ℚ :=
  { name := strategy.name
    description := strategy.description
    entryRules := [⟨"rsi < 30", .compare (.field .rsi) .lt (.constant 30)⟩]
    exitRules := [⟨"rsi > 70", .compare (.field .rsi) .gt (.constant 70)⟩]
    stopLoss := none
    takeProfit := none
    fraction := 1 / 5
    costs := ⟨1 / 1000, 1 / 2000⟩ }

def exactTerms : Terms ℚ :=
  { capital := 10000, commission := none, slippage := none }

end Sample

/-- In exact numbers the sample strategy sells 19 shares, and holds 19 others at the end, which it
bought on its fourth bar and which are worth less on that bar than was paid for them. -/
theorem Strategy.sample_conserves_money :
    letI := Sample.substitutes
    ∃ o, Sample.exactStrategy.run Sample.exactTerms Sample.exactBars = .ok o ∧
      o.trades.map Trade.shares = [19] ∧ o.position.map Position.shares = some 19 ∧
      o.equity[3]? = some (10000 + (o.trades.map Trade.profit).sum + heldGain o.position 104) ∧
      o.metrics.finalEquity - 10000 =
        o.metrics.averageTrade * o.metrics.totalTrades +
          o.position.elim 0 fun p ↦ p.unrealized 108 := by
  let _ := Sample.substitutes
  have hrun : Sample.exactStrategy.run Sample.exactTerms Sample.exactBars =
      .ok (.ofDays (Sample.exactStrategy.history Sample.exactTerms Sample.exactBars)) := by
    refine run_eq_ok_iff.2 ⟨⟨?_, ?_, ?_⟩, ?_, rfl⟩ <;> decide +kernel
  obtain ⟨hcurve, last, hlast, hgain⟩ := run_conserves_money hrun
  obtain rfl : last = _ := (Option.some.inj hlast).symm
  exact ⟨_, hrun, by decide +kernel, by decide +kernel, (hcurve 3 _ rfl).trans (by decide +kernel),
    hgain⟩

end BarReplay
