import BarReplay.Proofs.Metrics.Flat
import BarReplay.Proofs.Replay.Selling

/-!
# Runs that never enter

A run that finds nothing to buy, on any bar, waits on every bar. Its curve is flat, whatever the
arithmetic is (`run_of_idle`). Two things lead to that: no entry rule ever holds, or there is no
capital, and then there is nothing to commit when one does.

In doubles the performance of a flat curve is zero in every respect. The return per year takes a
power of one. How powers are taken is left to a library, so it is a parameter here: `Doubles pow`
are the doubles with powers taken by `pow`, and all that is asked of it is that the powers of one
are one.
-/

open BarReplay.Decimal

namespace BarReplay

namespace Strategy

/-! ### Waiting -/

section Waiting

variable {α : Type} [Arithmetic α] {s : Strategy α} {terms : Terms α} {bars : List (Bar α)}
  {o : Outcome α}

/-- No bar after the first one is an entry for an account that holds the capital. -/
def Idle (s : Strategy α) (terms : Terms α) (bars : List (Bar α)) : Prop :=
  ∀ i bar, 1 ≤ i → bars[i]? = some bar → s.EntrySignal bar →
    Position.buy? (terms.rates s) s.fraction i bar terms.capital = none

theorem Idle.standing_at (hidle : s.Idle terms bars) {k : ℕ} (hk : 1 ≤ k) (hle : k ≤ bars.length) :
    s.standingAt terms bars k = ⟨terms.capital, none⟩ ∧ s.ledgerAt terms bars k = [] := by
  refine s.history_induction terms
    (motive := fun _ standing ledger ↦ standing = ⟨terms.capital, none⟩ ∧ ledger = []) le_rfl
    ⟨s.standingAt_one terms bars, s.ledgerAt_one terms bars⟩ ?_ hk hle
  rintro i bar before after closed ledger hi hbar hmove ⟨rfl, rfl⟩
  cases hmove with
  | wait => exact ⟨rfl, rfl⟩
  | buy _ p signal bought =>
    have hnone := hidle i bar hi hbar (enters_iff.1 signal)
    rw [bought] at hnone
    cases hnone

/-- **A run that never enters reports its capital on every bar**, and no trade and no position. -/
theorem run_of_idle (h : s.run terms bars = .ok o) (hidle : s.Idle terms bars) :
    o.trades = [] ∧ o.position = none ∧ o.equity = List.replicate bars.length terms.capital := by
  obtain ⟨hstanding, hledger⟩ := hidle.standing_at (length_pos_of_run h) le_rfl
  refine ⟨(Outcome.trades_of_run h).trans hledger, ?_, List.ext_getElem? fun i ↦ ?_⟩
  · rw [Outcome.position_of_run h, hstanding]
  · rw [Outcome.getElem?_equity_of_run h]
    rcases Nat.lt_or_ge i bars.length with hi | hi
    · rw [List.getElem?_eq_getElem hi, List.getElem?_replicate_of_lt hi, Option.map_some,
        (hidle.standing_at (Nat.le_add_left 1 i) hi).1]
      rfl
    · rw [List.getElem?_eq_none hi, List.getElem?_eq_none (by simpa using hi)]
      rfl

theorem idle_of_no_signal
    (h : ∀ i bar, 1 ≤ i → bars[i]? = some bar → ¬ s.EntrySignal bar) : s.Idle terms bars :=
  fun i bar hi hbar hsignal ↦ absurd hsignal (h i bar hi hbar)

theorem idle_of_no_capital (h : ¬ 0 < terms.capital * s.fraction) : s.Idle terms bars := by
  refine fun i bar _ _ _ ↦ Option.eq_none_iff_forall_ne_some.2 fun p hp ↦ ?_
  exact h (Position.exists_buy?_iff.1 ⟨p, hp⟩)

end Waiting

end Strategy

/-! ### No capital -/

namespace Decimal

open Float.Model Float.Model.UnpackedFloat

/-- No share of nothing is above zero, not even if the share is no number. -/
theorem not_zero_lt_zero_mul {x : Float} (hx : (x == 0) = true) (y : Float) : ¬ 0 < x * y := by
  have hzero : UnpackedFloat.beq x.toModel.unpack (.zero .positive) = true := hx
  have hundefined : ¬ 0 < Float.ofModel (Float.Model.pack .notANumber) := by decide
  have hnothing (s : Sign) : ¬ 0 < Float.ofModel (Float.Model.pack (.zero s)) := by
    cases s <;> decide
  show ¬ 0 < Float.ofModel (Float.Model.pack
    (UnpackedFloat.mul Format.binary64 x.toModel.unpack y.toModel.unpack))
  generalize x.toModel.unpack = u at hzero ⊢
  generalize y.toModel.unpack = v
  cases u with
  | notANumber => cases hzero
  | infinity s | finite s => cases s <;> cases hzero
  | zero s =>
    cases v with
    | notANumber | infinity => exact hundefined
    | zero t | finite t => exact hnothing (s * t)

end Decimal

/-! ### Powers of a library -/

/-- The doubles, with powers taken by the given function. -/
def Doubles (_pow : Float → Float → Float) : Type :=
  Float

instance (pow : Float → Float → Float) : Arithmetic (Doubles pow) :=
  { (inferInstance : Arithmetic Float) with pow := pow }

-- with the powers of the doubles these are the doubles themselves
example : (inferInstance : Arithmetic (Doubles Float.pow)) = (inferInstance : Arithmetic Float) :=
  rfl

section Library

variable {pow : Float → Float → Float} (hpow : ∀ y, pow 1 y = 1)

include hpow

/-- **A flat curve has no performance**, apart from its last value. -/
theorem Metrics.compute_replicate {c : Doubles pow} (hc : isNonNegative c = true) {n : ℕ}
    (hn : 0 < n) :
    compute (List.replicate n c) [] n =
      { totalReturn := 0
        annualReturn := 0
        sharpeRatio := 0
        maxDrawdown := 0
        winRate := 0
        profitFactor := 0
        totalTrades := 0
        averageTrade := 0
        finalEquity := c } := by
  obtain ⟨n, rfl⟩ := Nat.exists_eq_succ_of_ne_zero hn.ne'
  -- what is known of doubles is read here as known of doubles with these powers
  have hfinite := isFinite_of_isNonNegative (x := c) hc
  have hself : ¬ c < c := float_not_lt (float_le_refl (isNaN_of_isFinite hfinite))
  have hlow : Arithmetic.lowest < c := lowest_lt hfinite
  have hstep : stepReturn? c c = none ∨ stepReturn? c c = some 0 := stepReturn?_self hc
  have hnofall : drawdown? (c, c) = none ∨ drawdown? (c, c) = some 0 := drawdown?_self hc
  have hlesser : lesser (0 : Doubles pow) 0 = 0 := show lesser (0 : Float) 0 = 0 by decide
  have hpower (y : Doubles pow) : Arithmetic.pow (1 : Doubles pow) y = 1 := hpow y
  have hfactor : (1 + 0 : Doubles pow) = 1 := show (1 + 0 : Float) = 1 by decide
  have hpos : ¬ (1 : Doubles pow) ≤ 0 := show ¬ (1 : Float) ≤ 0 by decide
  have hback : (1 - 1 : Doubles pow) = 0 := show (1 - 1 : Float) = 0 by decide
  have hwon : winPerLoss ([] : List (Doubles pow)) = 0 := winPerLoss_nil
  have hgrowth : growth (List.replicate (n + 1) c) = 0 := growth_replicate hc n
  have hannual : annualized (0 : Doubles pow) (n + 1) = 0 := by
    simp only [annualized, hfactor, if_neg hpos, hpower, hback]
  have hsharpe : sharpe (periodReturns (List.replicate (n + 1) c)) = 0 := by
    rw [periodReturns_replicate]
    rcases hstep with hstep | hstep <;> rw [hstep]
    · rw [List.filterMap_replicate_of_none rfl]
      rfl
    · rw [List.filterMap_replicate_of_some (show id (some (0 : Doubles pow)) = some 0 from rfl)]
      exact sharpe_zeros n
  have hfall : deepestDrawdown (List.replicate (n + 1) c) = 0 :=
    deepestDrawdown_replicate hlow hself hnofall hlesser (n + 1)
  have hlast : (List.replicate (n + 1) c).getLast?.getD 0 = c := by
    rw [List.getLast?_replicate, if_neg n.succ_ne_zero, Option.getD_some]
  rw [compute, hgrowth, hannual, hsharpe, hfall, hlast, hwon]
  rfl

/-- **A run that never enters is flat.** If no entry rule holds on any bar after the first, or there
is no capital, the run makes no trade and ends without a position, every equity value is the
capital, and so is the final equity; everything else that is reported is zero. -/
theorem Strategy.idle_run_is_flat {s : Strategy (Doubles pow)} {terms : Terms (Doubles pow)}
    {bars : List (Bar (Doubles pow))} {o : Outcome (Doubles pow)} (h : s.run terms bars = .ok o)
    (hidle : (∀ i bar, 1 ≤ i → bars[i]? = some bar → ¬ s.EntrySignal bar) ∨
      (terms.capital == 0) = true) :
    o.trades = [] ∧ o.position = none ∧ o.equity = List.replicate bars.length terms.capital ∧
      o.metrics =
        { totalReturn := 0
          annualReturn := 0
          sharpeRatio := 0
          maxDrawdown := 0
          winRate := 0
          profitFactor := 0
          totalTrades := 0
          averageTrade := 0
          finalEquity := terms.capital } := by
  have hsound : terms.Sound s := (run_eq_ok_iff.1 h).1
  obtain ⟨htrades, hposition, hequity⟩ := run_of_idle h <| by
    rcases hidle with hsignal | hcapital
    · exact idle_of_no_signal hsignal
    · exact idle_of_no_capital (not_zero_lt_zero_mul hcapital s.fraction)
  refine ⟨htrades, hposition, hequity, ?_⟩
  rw [Outcome.metrics_of_run h, htrades, hequity]
  exact Metrics.compute_replicate hpow hsound.capital (length_pos_of_run h)

end Library

/-! ### Runs that wait -/

namespace Sample

/-- Three days on which the RSI is neither low nor high. -/
def quietDays : List (Bar Float) :=
  quoted [(100, 50), (110, 60), (90, 40)]

/-- The terms of the sample run, without capital. -/
def penniless : Terms Float :=
  { terms with capital := 0 }

/-- The sample strategy, in doubles that have their bases in place of powers: one for those of
one. -/
def strategyWithoutPowers : Strategy (Doubles fun x _ ↦ x) :=
  strategy

end Sample

/-- The sample strategy finds no entry on three quiet days, and none that it can pay for without
capital. -/
theorem Strategy.sample_idle_run_is_flat :
    ∃ o o', Sample.strategyWithoutPowers.run Sample.terms Sample.quietDays = .ok o ∧
      Sample.strategyWithoutPowers.run Sample.penniless Sample.bars = .ok o' ∧
      (o.trades = [] ∧ o.equity = List.replicate 3 (10000 : Float) ∧
        o.metrics.annualReturn = 0 ∧ o.metrics.finalEquity = (10000 : Float)) ∧
      (o'.trades = [] ∧ o'.position = none ∧ o'.metrics.sharpeRatio = 0) := by
  have hquiet : Sample.strategyWithoutPowers.run Sample.terms Sample.quietDays = .ok (.ofDays
      (Sample.strategyWithoutPowers.history Sample.terms Sample.quietDays)) := by
    exact Strategy.run_eq_ok_iff.2 ⟨⟨rfl, rfl, rfl⟩, rfl, rfl⟩
  have hpoor : Sample.strategyWithoutPowers.run Sample.penniless Sample.bars = .ok (.ofDays
      (Sample.strategyWithoutPowers.history Sample.penniless Sample.bars)) := by
    exact Strategy.run_eq_ok_iff.2 ⟨⟨rfl, rfl, rfl⟩, rfl, rfl⟩
  have hsignal : ∀ bar ∈ Sample.quietDays,
      Sample.strategyWithoutPowers.enters bar.reading = false := by
    decide
  obtain ⟨htrades, -, hequity, hmetrics⟩ := idle_run_is_flat (fun _ ↦ rfl) hquiet
    (.inl fun _ bar _ hbar h ↦
      Bool.eq_false_iff.1 (hsignal bar (List.mem_of_getElem? hbar)) (enters_iff.2 h))
  obtain ⟨htrades', hposition', -, hmetrics'⟩ := idle_run_is_flat (fun _ ↦ rfl) hpoor
    (.inr rfl)
  refine ⟨_, _, hquiet, hpoor, ⟨htrades, hequity, ?_, ?_⟩, htrades', hposition', ?_⟩
  · rw [hmetrics]
  · rw [hmetrics]
    rfl
  · rw [hmetrics']

end BarReplay
