import BarReplay.Proofs.Metrics.Finite
import BarReplay.Proofs.Replay.Magnitudes
import BarReplay.Proofs.Replay.Performance
import BarReplay.Proofs.Replay.Ruin
import BarReplay.Report

/-!
# Reports without gaps

A report has null in place of a figure that is not finite (`Outcome.hasNull_iff`). Of every run the
ratio of mean and deviation is finite and so is the share of trades won, and the return per year is
finite if and only if the power that it takes is. Of the other figures this can be said only if
nothing overflows on the way, as in runs on moderate terms: of these the return per year is the only
figure that can be missing (`Strategy.finite_figures`).

Terms and bars that are finite do not suffice. The value of a position is what it cost and what it
has gained since, and this sum may overflow although the position is worth no more than the largest
double (`Sample.mark_overflows`).
-/

open BarReplay.Decimal

namespace BarReplay

open Json (Value)

/-! ### Null in a report -/

namespace Json.Value

/-- The entries of an object. -/
def entries : Value → List (String × Value)
  | object entries => entries
  | _ => []

/-- The values in an array or under the keys of an object. -/
def parts : Value → List Value
  | array items => items
  | object entries => entries.map Prod.snd
  | _ => []

/-- A double is written as null exactly if it is not finite. -/
theorem null_eq_ofFloat_iff {x : Float} : null = ofFloat x ↔ ¬ x.isFinite = true := by
  rw [ofFloat]
  split_ifs with hx
  · exact iff_of_false nofun (not_not_intro hx)
  · exact iff_of_true rfl hx

theorem null_ne_ofNat (n : ℕ) : null ≠ ofNat n :=
  nofun

end Json.Value

/-- All figures of a performance are finite. -/
@[mk_iff]
structure Metrics.IsFinite (m : Metrics Float) : Prop where
  totalReturn : m.totalReturn.isFinite = true
  annualReturn : m.annualReturn.isFinite = true
  sharpeRatio : m.sharpeRatio.isFinite = true
  maxDrawdown : m.maxDrawdown.isFinite = true
  winRate : m.winRate.isFinite = true
  profitFactor : m.profitFactor.isFinite = true
  averageTrade : m.averageTrade.isFinite = true
  finalEquity : m.finalEquity.isFinite = true

theorem Metrics.null_mem_toJson_iff {m : Metrics Float} :
    Value.null ∈ m.toJson.parts ↔ ¬ m.IsFinite := by
  simp only [Metrics.toJson, Value.parts, List.map_cons, List.map_nil, List.mem_cons,
    List.not_mem_nil, or_false, Value.null_eq_ofFloat_iff, Value.null_ne_ofNat, false_or]
  simp only [Metrics.isFinite_iff, not_and_or]

namespace Outcome

variable {o : Outcome Float} {s : Strategy Float}

/-- The report has null in place of a figure or of a value of the curve. -/
def HasNull (o : Outcome Float) (s : Strategy Float) : Prop :=
  ∃ entry ∈ (o.toJson s).entries, (entry.1 = "metrics" ∨ entry.1 = "equity_curve") ∧
    Value.null ∈ entry.2.parts

/-- **A report has null in it exactly if a figure or a value of the curve is not finite.** -/
theorem hasNull_iff : o.HasNull s ↔
    ¬ (o.metrics.IsFinite ∧ ∀ value ∈ o.equity, value.isFinite = true) := by
  have hcurve : Value.null ∈ (Value.array (o.equity.map .ofFloat)).parts ↔
      ¬ ∀ value ∈ o.equity, value.isFinite = true := by
    rw [Value.parts, List.mem_map, not_forall]
    exact exists_congr fun x ↦ by rw [Classical.not_imp, eq_comm, Value.null_eq_ofFloat_iff]
  rw [not_and_or, ← Metrics.null_mem_toJson_iff, ← hcurve, HasNull, toJson, Value.entries]
  simp

end Outcome

/-! ### The figures of a run -/

namespace Strategy

variable {s : Strategy Float} {terms : Terms Float} {bars : List (Bar Float)} {o : Outcome Float}

section Moderate

variable (h : s.run terms bars = .ok o) (hmoderate : s.IsModerate terms bars)

include h hmoderate

/-- On moderate terms the curve leads to a finite return and a finite deepest fall. -/
theorem isFinite_curve_figures : (Metrics.growth o.equity).isFinite = true ∧
    (Metrics.deepestDrawdown o.equity).isFinite = true := by
  have hsound : terms.Sound s := (run_eq_ok_iff.1 h).1
  rcases hmoderate.capital with hzero | hamount
  · -- without capital the curve is flat
    have hidle : s.Idle terms bars := idle_of_no_capital (not_zero_lt_zero_mul hzero s.fraction)
    obtain ⟨n, hn⟩ := Nat.exists_eq_succ_of_ne_zero (length_pos_of_run h).ne'
    rw [(run_of_idle h hidle).2.2, hn, Metrics.growth_replicate hsound.capital,
      Metrics.deepestDrawdown_flat hsound.capital]
    decide
  · have hcurve : ∀ value ∈ o.equity, Within (2 ^ 821) value := fun _ ↦ within_equity h hmoderate
    have hfirst := head?_equity_of_run h
    exact ⟨Metrics.isFinite_growth hcurve hfirst hamount.le_amount,
      Metrics.isFinite_deepestDrawdown hcurve hfirst hamount.le_amount⟩

/-- On moderate terms the ledger leads to finite figures. -/
theorem isFinite_ledger_figures :
    (Metrics.winPerLoss (o.trades.map Trade.profit)).isFinite = true ∧
      (Metrics.average (o.trades.map Trade.profit)).isFinite = true ∧
      o.trades.length < 2 ^ 53 := by
  have hbounded := isBounded_at h hmoderate (length_pos_of_run h) le_rfl
  rw [← Outcome.trades_of_run h] at hbounded
  have hcount : (o.trades.map Trade.profit).length < 2 ^ 53 := by
    rw [List.length_map]
    exact hbounded.count.trans_lt hmoderate.count
  have hwithin : ∀ p ∈ o.trades.map Trade.profit, Within (2 ^ 767) p :=
    List.forall_mem_map.2 fun t ht ↦ (hbounded.results t ht).within
  have happart : ∀ p ∈ o.trades.map Trade.profit, amount p = 0 ∨ 2 ^ (-153 : ℤ) ≤ |amount p| :=
    List.forall_mem_map.2 fun t ht ↦ (hbounded.results t ht).apart
  refine ⟨Metrics.isFinite_winPerLoss hwithin hcount happart,
    Metrics.isFinite_average hwithin hcount, ?_⟩
  rwa [List.length_map] at hcount

end Moderate

/-- **Which figures of a run are finite.** The ratio of mean and deviation is finite in every run,
and so is the share of trades won. The return per year is finite exactly if the account is used up
or the power of its growth is finite. On moderate terms every value of the curve and every other
figure is finite, and the report has null in it exactly if the return per year is not. -/
theorem finite_figures (h : s.run terms bars = .ok o) :
    o.metrics.sharpeRatio.isFinite = true ∧
    (o.trades.length < 2 ^ 53 → o.metrics.winRate.isFinite = true) ∧
    (o.metrics.annualReturn.isFinite = true ↔
      1 + o.metrics.totalReturn ≤ 0 ∨
        (Arithmetic.pow (1 + o.metrics.totalReturn)
          (Arithmetic.yearDays / Arithmetic.ofCount (max 1 bars.length))).isFinite = true) ∧
    (s.IsModerate terms bars →
      (∀ value ∈ o.equity, value.isFinite = true) ∧
      (o.metrics.IsFinite ↔ o.metrics.annualReturn.isFinite = true) ∧
      (o.HasNull s ↔ ¬ o.metrics.annualReturn.isFinite = true)) := by
  have hmetrics := Outcome.metrics_of_run h
  have hsharpe : o.metrics.sharpeRatio.isFinite = true := by
    rw [hmetrics]
    exact Metrics.isFinite_sharpe _
  have hrate (hcount : o.trades.length < 2 ^ 53) : o.metrics.winRate.isFinite = true := by
    obtain ⟨hlow, hhigh, -⟩ := winRate_of_run h hcount
    exact isFinite_of_between rfl rfl hlow hhigh
  refine ⟨hsharpe, hrate, ?_, fun hmoderate ↦ ?_⟩
  · rw [hmetrics]
    exact Metrics.isFinite_annualized_iff
  · have hequity : ∀ value ∈ o.equity, value.isFinite = true :=
      fun value hvalue ↦ (within_equity h hmoderate hvalue).finite
    obtain ⟨hgrowth, hfall⟩ := isFinite_curve_figures h hmoderate
    obtain ⟨hfactor, haverage, hcount⟩ := isFinite_ledger_figures h hmoderate
    have hfinal : (o.equity.getLast?.getD 0).isFinite = true := by
      cases hlast : o.equity.getLast? with
      | none => rfl
      | some value => exact hequity value (List.mem_of_getLast? hlast)
    have hall : o.metrics.IsFinite ↔ o.metrics.annualReturn.isFinite = true := by
      refine ⟨fun hfinite ↦ hfinite.annualReturn, fun hannual ↦ ?_⟩
      refine ⟨?_, hannual, hsharpe, ?_, hrate hcount, ?_, ?_, ?_⟩ <;> rw [hmetrics]
      exacts [hgrowth, hfall, hfactor, haverage, hfinal]
    refine ⟨hequity, hall, ?_⟩
    rw [Outcome.hasNull_iff, hall, and_iff_left hequity]

/-- In the run that loses more than its capital no figure is missing. -/
theorem sample_finite_figures :
    ∃ o, Sample.strategy.run Sample.smallAccount Sample.ruinousDays = .ok o ∧
      o.metrics.IsFinite ∧ ¬ o.HasNull Sample.strategy ∧ o.metrics.annualReturn = -1 := by
  have hrun : Sample.strategy.run Sample.smallAccount Sample.ruinousDays =
      .ok (.ofDays (Sample.strategy.history Sample.smallAccount Sample.ruinousDays)) := by
    exact run_eq_ok_iff.2 ⟨⟨rfl, rfl, rfl⟩, rfl, rfl⟩
  obtain ⟨-, -, hannual, hrest⟩ := finite_figures hrun
  obtain ⟨-, hall, hnull⟩ := hrest
    ⟨by decide +kernel, by decide +kernel, by decide +kernel, by decide +kernel, by decide⟩
  have hfinite := hannual.2 (.inl (by decide +kernel))
  exact ⟨_, hrun, hall.2 hfinite, fun h ↦ hnull.1 h hfinite, by decide +kernel⟩

end Strategy

/-! ### A position that cannot be shown -/

namespace Sample

/-- The sample strategy without exits, committing all its capital. -/
def allIn : Strategy Float :=
  { strategy with exitRules := [], stopLoss := none, takeProfit := none, fraction := 1 }

theorem accepted_allIn : allIn.Accepted := by
  obtain ⟨-, -, -, hcommission, hslippage, hentry, -⟩ := Draft.check_eq_ok_iff.1 draft_check
  exact ⟨{ draft with exitRules := [], stopLoss := none, takeProfit := none, fraction := some 1 },
    Draft.check_eq_ok_iff.2 ⟨rfl, rfl, rfl, hcommission, hslippage, hentry, rfl, rfl,
      rfl, rfl, rfl⟩⟩

/-- A capital of 1e308, and half of every amount as commission. -/
def hugeAccount : Terms Float :=
  { capital := 1e308, commission := some 0.5, slippage := some 0 }

/-- Three days on which one share is bought for 1.5e308, commission included, and gains 5e307. -/
def hugeDays : List (Bar Float) :=
  quoted [(1e308, 50), (1e308, 25), (1.5e308, 50)]

/-- **A position may be worth a double, and the report has null in place of it.** A share was bought
for 1.5e308 out of 1e308 in cash and has gained 5e307, so the account is worth 1.5e308. The cost and
the gain are summed first, and that sum overflows. -/
theorem mark_overflows :
    allIn.Accepted ∧ hugeAccount.Sound allIn ∧ ∃ o, allIn.run hugeAccount hugeDays = .ok o ∧
      (∀ bar ∈ hugeDays, isPositive bar.close = true) ∧
      o.equity.map Float.isFinite = [true, true, false] ∧
      o.metrics.totalReturn.isFinite = false ∧ o.metrics.finalEquity.isFinite = false ∧
      o.HasNull allIn := by
  have hrun : allIn.run hugeAccount hugeDays =
      .ok (.ofDays (allIn.history hugeAccount hugeDays)) := by
    refine Strategy.run_eq_ok_iff.2 ⟨⟨?_, ?_, ?_⟩, ?_, rfl⟩ <;> decide +kernel
  have hfinal : (Outcome.ofDays (allIn.history hugeAccount hugeDays)).metrics.finalEquity.isFinite =
      false := by
    decide +kernel
  refine ⟨accepted_allIn, (Strategy.run_eq_ok_iff.1 hrun).1, _, hrun, by decide +kernel,
    by decide +kernel, by decide +kernel, hfinal, ?_⟩
  rw [Outcome.hasNull_iff]
  exact fun h ↦ Bool.eq_false_iff.1 hfinal h.1.finalEquity

end Sample

end BarReplay
