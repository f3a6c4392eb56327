import BarReplay.Proofs.Metrics.Ranges
import BarReplay.Proofs.Replay.Idle
import BarReplay.Proofs.Replay.Ledger

/-!
# The performance of a run

What every run reports of its performance, whatever its bars are. The ranges of the single figures
are those that they have on the curves and the profits of runs: a curve starts with the capital, and
a run without capital is flat.
-/

open BarReplay.Decimal

namespace BarReplay

namespace Strategy

variable {s : Strategy Float} {terms : Terms Float} {bars : List (Bar Float)} {o : Outcome Float}

/-- **The deepest fall of a run is not above zero.** -/
theorem deepestDrawdown_of_run (h : s.run terms bars = .ok o) :
    Metrics.deepestDrawdown o.equity ≤ 0 := by
  have hsound : terms.Sound s := (run_eq_ok_iff.1 h).1
  have hhead := head?_equity_of_run h
  cases hzero : terms.capital == 0 with
  | true =>
    have hidle : s.Idle terms bars :=
      idle_of_no_capital (not_zero_lt_zero_mul hzero s.fraction)
    rw [(run_of_idle h hidle).2.2, Metrics.deepestDrawdown_flat hsound.capital]
    exact float_le_refl rfl
  | false =>
    obtain ⟨rest, hcurve⟩ : ∃ rest, o.equity = terms.capital :: rest := by
      cases hequity : o.equity with
      | nil => rw [hequity] at hhead; cases hhead
      | cons first rest =>
        rw [hequity] at hhead
        exact ⟨rest, congrArg (· :: rest) (Option.some.inj hhead)⟩
    rw [hcurve]
    exact Metrics.deepestDrawdown_of_start (isPositive_of_isNonNegative hsound.capital hzero) rest

/-- **The share of trades won is between zero and one**, and one exactly if all made a profit. -/
theorem winRate_of_run (h : s.run terms bars = .ok o) (hcount : o.trades.length < 2 ^ 53) :
    0 ≤ o.metrics.winRate ∧ o.metrics.winRate ≤ 1 ∧
      (o.trades ≠ [] → (o.metrics.winRate = 1 ↔ ∀ t ∈ o.trades, 0 < t.profit)) := by
  have hwinners : (Metrics.gains (o.trades.map Trade.profit)).length ≤ o.trades.length := by
    rw [← List.length_map Trade.profit]
    exact List.length_filter_le _ _
  have hrate : o.metrics.winRate =
      Metrics.ratio (Metrics.gains (o.trades.map Trade.profit)).length o.trades.length := by
    rw [Outcome.metrics_of_run h, ← List.length_map Trade.profit]
    rfl
  have hall : (Metrics.gains (o.trades.map Trade.profit)).length = o.trades.length ↔
      ∀ t ∈ o.trades, 0 < t.profit := by
    rw [← List.length_map Trade.profit, Metrics.gains, List.length_filter_eq_length_iff]
    simp only [List.forall_mem_map, decide_eq_true_iff]
    rfl
  obtain ⟨hlow, hhigh, hone⟩ := Metrics.ratio_between hwinners hcount
  rw [hrate, ← hall]
  exact ⟨hlow, hhigh, fun hne ↦ hone (List.length_pos_iff.2 hne).ne'⟩

/-- **Every run keeps to the ranges of its figures.** The share of trades won is between zero and
one, and one exactly if all trades made a profit. The deepest fall is a number and not above zero.
What was won for one unit lost is not below zero if both sums are finite, and it is zero exactly if
no trade made a loss, or none made a profit, or the quotient vanishes. -/
theorem performance_in_range (h : s.run terms bars = .ok o) (hcount : o.trades.length < 2 ^ 53) :
    (0 ≤ o.metrics.winRate ∧ o.metrics.winRate ≤ 1 ∧
      (o.trades ≠ [] → (o.metrics.winRate = 1 ↔ ∀ t ∈ o.trades, 0 < t.profit))) ∧
    (o.metrics.maxDrawdown.isNaN = false ∧ o.metrics.maxDrawdown ≤ 0) ∧
    ((Metrics.grossProfit (o.trades.map Trade.profit)).isFinite = true →
      (Metrics.grossLoss (o.trades.map Trade.profit)).isFinite = true →
      0 ≤ o.metrics.profitFactor ∧
        (o.metrics.profitFactor = 0 ↔ (∀ t ∈ o.trades, ¬ t.profit < 0) ∨
          (∀ t ∈ o.trades, ¬ 0 < t.profit) ∨
          Vanishes (amount (Metrics.grossProfit (o.trades.map Trade.profit)) /
            amount (Metrics.grossLoss (o.trades.map Trade.profit))))) := by
  have hmetrics := Outcome.metrics_of_run h
  have hfall := deepestDrawdown_of_run h
  refine ⟨winRate_of_run h hcount, ?_, fun hwon hlost ↦ ?_⟩
  · rw [hmetrics]
    exact ⟨(isNaN_of_le hfall).1, hfall⟩
  · obtain ⟨hpos, hzero⟩ := Metrics.winPerLoss_spec hwon hlost
    rw [List.forall_mem_map, List.forall_mem_map] at hzero
    rw [hmetrics]
    exact ⟨hpos, hzero⟩

/-- The sample run makes two trades at a loss. Over the days on which the close rises beyond all
bounds its last equity is no number, and the deepest fall still is one. -/
theorem sample_performance_in_range :
    Sample.strategy.run Sample.terms Sample.bars = .ok Sample.outcome ∧
      (Sample.outcome.trades.length = 2 ∧ Sample.outcome.metrics.winRate ≤ 1 ∧
        Sample.outcome.metrics.winRate ≠ 1 ∧ Sample.outcome.metrics.profitFactor = 0) ∧
      ∃ o, Sample.strategy.run (Sample.charged 1 0) Sample.surge = .ok o ∧
        o.metrics.finalEquity.isNaN = true ∧ o.metrics.maxDrawdown.isNaN = false ∧
        o.metrics.maxDrawdown ≤ 0 := by
  have hsurge : Sample.strategy.run (Sample.charged 1 0) Sample.surge =
      .ok (.ofDays (Sample.strategy.history (Sample.charged 1 0) Sample.surge)) := by
    refine run_eq_ok_iff.2 ⟨⟨?_, ?_, ?_⟩, ?_, rfl⟩ <;> decide +kernel
  obtain ⟨⟨-, hhigh, hone⟩, -, hfactor⟩ :=
    performance_in_range Sample.run_eq (by decide +kernel)
  obtain ⟨-, hfall, -⟩ := performance_in_range hsurge (by decide +kernel)
  refine ⟨Sample.run_eq, ⟨by decide +kernel, hhigh, ?_, ?_⟩, _, hsurge, by decide +kernel, hfall⟩
  · rw [ne_eq, hone (by decide +kernel)]
    decide +kernel
  · exact (hfactor (by decide +kernel) (by decide +kernel)).2.2 (.inr (.inl (by decide +kernel)))

end Strategy

end BarReplay
