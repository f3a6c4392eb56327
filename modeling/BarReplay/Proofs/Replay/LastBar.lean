import BarReplay.Proofs.Decimal.Zero
import BarReplay.Proofs.Replay.Failure
import BarReplay.Proofs.Replay.Signals
import BarReplay.Proofs.Rule.Canonical
import BarReplay.Proofs.Strategy.Acceptance
import BarReplay.Report

/-!
# The signal of the last bar

A signal is asked for without an account, and a run decides with one. They decide the same on the
last bar: a run that can enter there does so if the signal says so, and a run that holds a position
there leaves it for the reason that the signal gives, unless the price has moved far enough since
the position was opened.

A signal knows nothing of such a move. It asks about a position bought at the last close, whose
price has not changed: the difference of a close with itself is exactly zero, and so is what
dividing it by the close gives (`Signal.change_notional`). Zero is neither a fall nor a rise by a
threshold, because an accepted strategy has no threshold of zero (`Accepted.isPositive_stopLoss`).
-/

namespace BarReplay

/-! ### Thresholds -/

/-- Zero switches a threshold off, so one that is left on is positive. -/
theorem Draft.isPositive_of_threshold {key : String} {x : Option Float} {limit : Float}
    (h : threshold key x = .ok (some limit)) : isPositive limit = true := by
  cases x with
  | none => simp [threshold] at h
  | some a =>
    rw [threshold] at h
    cases hzero : a == 0 with
    | true => simp [hzero] at h
    | false =>
      rw [hzero, if_neg Bool.false_ne_true] at h
      cases hread : nonNegative key a with
      | error e =>
        rw [hread] at h
        cases h
      | ok b =>
        obtain ⟨hrange, rfl⟩ := nonNegative_eq_ok_iff.1 hread
        rw [hread] at h
        obtain rfl : a = limit := Option.some.inj (Except.ok.inj h)
        exact isPositive_of_isNonNegative hrange hzero

namespace Strategy

theorem Accepted.isPositive_stopLoss {s : Strategy Float} (hs : s.Accepted) {limit : Float}
    (h : s.stopLoss = some limit) : isPositive limit = true := by
  obtain ⟨d, hd⟩ := hs
  obtain ⟨-, hstop, -⟩ := Draft.check_eq_ok_iff.1 hd
  exact Draft.isPositive_of_threshold (h ▸ hstop)

theorem Accepted.isPositive_takeProfit {s : Strategy Float} (hs : s.Accepted) {limit : Float}
    (h : s.takeProfit = some limit) : isPositive limit = true := by
  obtain ⟨d, hd⟩ := hs
  obtain ⟨-, -, htake, -⟩ := Draft.check_eq_ok_iff.1 hd
  exact Draft.isPositive_of_threshold (h ▸ htake)

/-- Where no threshold is reached, the rules alone decide, whatever the position. -/
theorem exit?_of_rules {α : Type} [Arithmetic α] {s : Strategy α} {p : Position α} {bar : Bar α}
    (hstop : ¬ s.StopLossSignal p bar) (htake : ¬ s.TakeProfitSignal p bar) :
    s.exit? p bar = (Rule.firstHolding? s.exitRules bar.reading).map .rule := by
  rw [exit?, if_neg (mt hitsStopLoss_iff.1 hstop), if_neg (mt hitsTakeProfit_iff.1 htake)]

end Strategy

/-! ### The notional position -/

section Notional

variable {s : Strategy Float} {bar : Bar Float} {index : Nat}

/-- The price of the notional position has not changed at all. -/
theorem Signal.change_notional (h : isPositive bar.close = true) :
    (Signal.notional index bar).change bar.close = 0 := by
  have hfinite : bar.close.isFinite = true := (Bool.and_eq_true_iff.1 h).1
  show (bar.close - bar.close) / bar.close = 0
  rw [sub_self_of_isFinite hfinite, zero_div_of_isPositive h]

/-- No threshold of an accepted strategy is reached by the notional position. -/
theorem Strategy.Accepted.exit?_notional (hs : s.Accepted) (h : isPositive bar.close = true) :
    s.exit? (Signal.notional index bar) bar =
      (Rule.firstHolding? s.exitRules bar.reading).map .rule := by
  refine exit?_of_rules ?_ ?_
  · rintro ⟨limit, hlimit, hle⟩
    rw [Signal.change_notional h] at hle
    exact not_zero_le_neg_of_isPositive (hs.isPositive_stopLoss hlimit) hle
  · rintro ⟨limit, hlimit, hle⟩
    rw [Signal.change_notional h] at hle
    exact not_le_zero_of_isPositive (hs.isPositive_takeProfit hlimit) hle

/-- A signal of an accepted strategy is there as soon as the last of at least two bars has a price.
Its reasons to leave are the exit rules that hold. -/
theorem Strategy.Accepted.exists_signal (hs : s.Accepted) {bars : List (Bar Float)}
    (hlength : 2 ≤ bars.length) (hlast : bars.getLast? = some bar)
    (h : isPositive bar.close = true) :
    ∃ signal, s.signal bars = .ok signal ∧ signal.enters = s.enters bar.reading ∧
      signal.exit = (Rule.firstHolding? s.exitRules bar.reading).map .rule := by
  refine ⟨⟨s.enters bar.reading, s.exit? (Signal.notional (bars.length - 1) bar) bar,
    Signal.shown s bar⟩, ?_, rfl, hs.exit?_notional h⟩
  rw [Strategy.signal, if_neg (Nat.not_lt.2 hlength), hlast]
  exact if_pos h

end Notional

namespace Strategy

variable {s : Strategy Float} {terms : Terms Float} {bars : List (Bar Float)}

/-! ### The signal and the run -/

/-- The signal agrees with the run on its last bar, which is bar `i`. -/
structure SignalAgrees (s : Strategy Float) (terms : Terms Float) (bars : List (Bar Float))
    (i : Nat) (bar : Bar Float) (signal : Signal) : Prop where
  /-- The reason to leave is the first exit rule that holds, and never a threshold. -/
  exit_eq_some_iff : ∀ reason, signal.exit = some reason ↔
    ∃ k, reason = .rule k ∧ s.ExitRuleSignal bar k ∧ ∀ j < k, ¬ s.ExitRuleSignal bar j
  /-- With something to commit and no position, the run opens one if the signal is to enter. -/
  opens_iff : (s.standingAt terms bars i).position = none →
    0 < (s.standingAt terms bars i).cash * s.fraction →
      ((∃ p, s.OpensAt terms bars i p) ↔ signal.enters = true)
  /-- A position that has reached no threshold is closed if the signal is to leave. -/
  closes_iff : ∀ p, (s.standingAt terms bars i).position = some p →
    ¬ s.StopLossSignal p bar → ¬ s.TakeProfitSignal p bar →
      ((∃ t, s.ClosesAt terms bars i t) ↔ signal.exit.isSome = true)
  /-- Such a position is closed for the reason that the signal gives. -/
  reason_eq : ∀ p, (s.standingAt terms bars i).position = some p →
    ¬ s.StopLossSignal p bar → ¬ s.TakeProfitSignal p bar →
      ∀ t, s.ClosesAt terms bars i t → signal.exit = some t.reason

/-- **The signal agrees with the run.** An accepted strategy that can be run on two bars or more
gives a signal, which says what the run does on the last of them. -/
theorem signal_agrees_of_run (hs : s.Accepted) {o : Outcome Float} (hlength : 2 ≤ bars.length)
    (h : s.run terms bars = .ok o) :
    ∃ bar signal, bars.getLast? = some bar ∧ s.signal bars = .ok signal ∧
      s.SignalAgrees terms bars (bars.length - 1) bar signal := by
  have hbar : bars[bars.length - 1]? = some bars[bars.length - 1] :=
    List.getElem?_eq_getElem (by omega)
  have hprice : isPositive bars[bars.length - 1].close = true :=
    isPositive_iff.2 ((exists_run_iff_soundInput.1 ⟨o, h⟩).prices _ (List.getElem_mem _))
  generalize bars[bars.length - 1] = bar at hbar hprice
  have hlast : bars.getLast? = some bar := List.getLast?_eq_getElem?.trans hbar
  have hi : 1 ≤ bars.length - 1 := by omega
  obtain ⟨signal, hsignal, henters, hexit⟩ := hs.exists_signal hlength hlast hprice
  refine ⟨bar, signal, hlast, hsignal, ⟨fun reason ↦ ?_, fun hflat hfunds ↦ ?_,
    fun p hp hstop htake ↦ ?_, fun p hp hstop htake t ht ↦ ?_⟩⟩
  · rw [hexit, Option.map_eq_some_iff]
    constructor
    · rintro ⟨k, hk, rfl⟩
      exact ⟨k, rfl, firstHolding?_eq_some_iff.1 hk⟩
    · rintro ⟨k, rfl, hk⟩
      exact ⟨k, firstHolding?_eq_some_iff.2 hk, rfl⟩
  · rw [(obeysSignals hi hbar).opens_iff hflat, henters, enters_iff]
    exact and_iff_left hfunds
  · rw [hexit, ← exit?_of_rules hstop htake, Option.isSome_iff_exists, exists_exit?_iff]
    exact (obeysSignals hi hbar).closes_iff p hp
  · obtain ⟨q, hq, hleaves, -⟩ := (obeysSignals hi hbar).closed t ht
    obtain rfl : p = q := Option.some.inj (hp.symm.trans hq)
    rw [hexit, ← exit?_of_rules hstop htake, exit?_eq_some_iff]
    exact hleaves

end Strategy

namespace Sample

/-- The sample strategy as it is written down. -/
def draft : Draft :=
  { name := "RSI reversal"
    entryRules := ["rsi < 30"]
    exitRules := ["rsi > 70"]
    stopLoss := some 0.05
    takeProfit := some 0.1 }

theorem draft_check : draft.check = .ok strategy := by
  have hparse {e : Expr Float} {text : String} (he : e.IsReadable) (htext : e.text = text) :
      Rule.parse text = .ok ⟨text, e⟩ := by
    subst htext
    rw [Rule.parse, parse_eq_ok_iff.2 (Rule.isRule_text he)]
    rfl
  have hentry : Rule.parse "rsi < 30" =
      .ok ⟨"rsi < 30", .compare (.field .rsi) .lt (.constant 30)⟩ :=
    hparse (by decide) (by decide +kernel)
  have hexit : Rule.parse "rsi > 70" =
      .ok ⟨"rsi > 70", .compare (.field .rsi) .gt (.constant 70)⟩ :=
    hparse (by decide) (by decide +kernel)
  refine Draft.check_eq_ok_iff.2 ⟨by decide +kernel, by decide +kernel, by decide +kernel,
    by decide +kernel, by decide +kernel, ?_, ?_, rfl, rfl, rfl, rfl⟩
  · show Draft.rules .entry ["rsi < 30"] = _
    rw [Draft.rules, Draft.rulesFrom, hentry]
    rfl
  · show Draft.rules .exit ["rsi > 70"] = _
    rw [Draft.rules, Draft.rulesFrom, hexit]
    rfl

/-- The sample strategy succeeds on the first days of the sample. -/
theorem exists_run_firstDays {n : Nat} (hn : n = 4 ∨ n = 5) :
    ∃ o, strategy.run terms (bars.take n) = .ok o := by
  rcases hn with rfl | rfl
  all_goals
    exact ⟨_, Strategy.run_eq_ok_iff.2 ⟨⟨by decide +kernel, by decide +kernel, by decide +kernel⟩,
      by decide +kernel, rfl⟩⟩

end Sample

namespace Strategy

/-- On the fourth sample bar the signal is to leave, and the run does so for its first exit rule. On
the fifth the signal is to enter, and the run opens a position. -/
theorem sample_signal_agrees :
    (∃ signal, Sample.strategy.signal (Sample.bars.take 4) = .ok signal ∧
      Sample.strategy.SignalAgrees Sample.terms (Sample.bars.take 4) 3 (Sample.bar 3 97 75) signal ∧
      signal.exit = some (.rule 0) ∧
      (Sample.strategy.ledgerAt Sample.terms (Sample.bars.take 4) 4).map Trade.reason = [.rule 0]) ∧
    ∃ signal, Sample.strategy.signal (Sample.bars.take 5) = .ok signal ∧ signal.enters = true ∧
      ∃ p, Sample.strategy.OpensAt Sample.terms (Sample.bars.take 5) 4 p := by
  have haccepted : Sample.strategy.Accepted := ⟨_, Sample.draft_check⟩
  constructor
  · obtain ⟨o, hrun⟩ := Sample.exists_run_firstDays (.inl rfl)
    obtain ⟨bar, signal, hlast, hsignal, hagrees⟩ :=
      signal_agrees_of_run haccepted (by decide) hrun
    obtain rfl : Sample.bar 3 97 75 = bar := Option.some.inj hlast
    refine ⟨signal, hsignal, hagrees, ?_, by decide +kernel⟩
    exact (hagrees.exit_eq_some_iff _).2 ⟨0, rfl, ⟨_, rfl, by decide +kernel⟩, by simp⟩
  · obtain ⟨o, hrun⟩ := Sample.exists_run_firstDays (.inr rfl)
    obtain ⟨bar, signal, hlast, hsignal, hagrees⟩ :=
      signal_agrees_of_run haccepted (by decide) hrun
    obtain rfl : Sample.bar 4 98 20 = bar := Option.some.inj hlast
    have hopens : ∃ p, Sample.strategy.OpensAt Sample.terms (Sample.bars.take 5) 4 p :=
      ⟨((Sample.strategy.standingAt Sample.terms (Sample.bars.take 5) 5).position.get
        (by decide +kernel)), by decide +kernel, by simp⟩
    exact ⟨signal, hsignal, (hagrees.opens_iff hopens.choose_spec.1 (by decide +kernel)).1 hopens,
      hopens⟩

end Strategy

end BarReplay
