import BarReplay.Proofs.Replay.Holding

/-!
# Trading on signals

A run trades on the signals of its rules and thresholds, on every one of them and on nothing else.

The signals are said here of the bar, the rules and the thresholds alone: `EntrySignal` that some
entry rule holds, `StopLossSignal` and `TakeProfitSignal` that the price has moved far enough, and
`ExitRuleSignal` that the exit rule with a given index holds. `LeavesFor` settles which of several
reasons to leave is the one that counts. `ObeysSignals` is what they ask of one bar, in terms of the
account and the ledger before and after it; `obeysSignals` says that every bar of a run does it.
-/

namespace BarReplay

variable {α : Type} [Arithmetic α]

namespace Strategy

variable (s : Strategy α)

/-! ### Signals -/

/-- Some entry rule holds on the bar. -/
def EntrySignal (bar : Bar α) : Prop :=
  ∃ r ∈ s.entryRules, r.expr.holds bar.reading = true

/-- The price has fallen by the stop-loss or more since the position was opened. -/
def StopLossSignal (p : Position α) (bar : Bar α) : Prop :=
  ∃ limit, s.stopLoss = some limit ∧ p.change bar.close ≤ -limit

/-- The price has risen by the take-profit or more since the position was opened. -/
def TakeProfitSignal (p : Position α) (bar : Bar α) : Prop :=
  ∃ limit, s.takeProfit = some limit ∧ limit ≤ p.change bar.close

/-- The exit rule with index `k` holds on the bar. -/
def ExitRuleSignal (bar : Bar α) (k : Nat) : Prop :=
  ∃ r, s.exitRules[k]? = some r ∧ r.expr.holds bar.reading = true

/-- The reason for which the position is left: the stop-loss comes before the take-profit, and both
come before the rules, of which the first that holds counts. -/
def LeavesFor (p : Position α) (bar : Bar α) : ExitReason → Prop
  | .stopLoss => s.StopLossSignal p bar
  | .takeProfit => ¬ s.StopLossSignal p bar ∧ s.TakeProfitSignal p bar
  | .rule k => ¬ s.StopLossSignal p bar ∧ ¬ s.TakeProfitSignal p bar ∧ s.ExitRuleSignal bar k ∧
      ∀ j < k, ¬ s.ExitRuleSignal bar j

variable {s} {p : Position α} {bar : Bar α}

theorem enters_iff : s.enters bar.reading = true ↔ s.EntrySignal bar := by
  rw [enters, Rule.anyHolds, Rule.firstHolding?, List.findIdx?_isSome, List.any_eq_true]
  rfl

theorem hitsStopLoss_iff : p.hitsStopLoss bar.close s.stopLoss = true ↔ s.StopLossSignal p bar := by
  rcases h : s.stopLoss with - | limit <;> simp [StopLossSignal, Position.hitsStopLoss, h]

theorem hitsTakeProfit_iff :
    p.hitsTakeProfit bar.close s.takeProfit = true ↔ s.TakeProfitSignal p bar := by
  rcases h : s.takeProfit with - | limit <;> simp [TakeProfitSignal, Position.hitsTakeProfit, h]

/-- The rule that is found is the first that holds. -/
theorem firstHolding?_eq_some_iff {k : Nat} :
    Rule.firstHolding? s.exitRules bar.reading = some k ↔
      s.ExitRuleSignal bar k ∧ ∀ j < k, ¬ s.ExitRuleSignal bar j := by
  have hsignal : ∀ {j} (hj : j < s.exitRules.length),
      s.ExitRuleSignal bar j ↔ s.exitRules[j].expr.holds bar.reading = true := by
    intro j hj
    simp [ExitRuleSignal, List.getElem?_eq_getElem hj]
  rw [Rule.firstHolding?, List.findIdx?_eq_some_iff_getElem]
  constructor
  · rintro ⟨hk, hholds, hfirst⟩
    refine ⟨(hsignal hk).2 hholds, fun j hj ↦ ?_⟩
    rw [hsignal (Nat.lt_trans hj hk)]
    exact hfirst j hj
  · rintro ⟨⟨r, hr, hholds⟩, hfirst⟩
    have hk : k < s.exitRules.length := (List.getElem?_eq_some_iff.1 hr).1
    refine ⟨hk, (hsignal hk).1 ⟨r, hr, hholds⟩, fun j hj ↦ ?_⟩
    rw [← hsignal (Nat.lt_trans hj hk)]
    exact hfirst j hj

theorem exists_firstHolding?_iff :
    (∃ k, Rule.firstHolding? s.exitRules bar.reading = some k) ↔ ∃ k, s.ExitRuleSignal bar k := by
  rw [Rule.firstHolding?, ← Option.isSome_iff_exists, List.findIdx?_isSome, List.any_eq_true]
  simp only [ExitRuleSignal, List.mem_iff_getElem?]
  constructor
  · rintro ⟨r, ⟨k, hk⟩, hr⟩
    exact ⟨k, r, hk, hr⟩
  · rintro ⟨k, r, hk, hr⟩
    exact ⟨r, ⟨k, hk⟩, hr⟩

/-- The reason that a strategy gives for leaving a position is the one that counts. -/
theorem exit?_eq_some_iff {reason : ExitReason} :
    s.exit? p bar = some reason ↔ s.LeavesFor p bar reason := by
  rw [exit?]
  by_cases hstop : s.StopLossSignal p bar
  · rw [if_pos (hitsStopLoss_iff.2 hstop)]
    cases reason <;> simp [LeavesFor, hstop]
  rw [if_neg (mt hitsStopLoss_iff.1 hstop)]
  by_cases htake : s.TakeProfitSignal p bar
  · rw [if_pos (hitsTakeProfit_iff.2 htake)]
    cases reason <;> simp [LeavesFor, hstop, htake]
  rw [if_neg (mt hitsTakeProfit_iff.1 htake)]
  cases reason with
  | stopLoss => simp [LeavesFor, hstop]
  | takeProfit => simp [LeavesFor, htake]
  | rule k => simp [LeavesFor, hstop, htake, firstHolding?_eq_some_iff]

/-- There is a reason to leave exactly when one of the signals is there. -/
theorem exists_exit?_iff :
    (∃ reason, s.exit? p bar = some reason) ↔
      s.StopLossSignal p bar ∨ s.TakeProfitSignal p bar ∨ ∃ k, s.ExitRuleSignal bar k := by
  rw [exit?, ← exists_firstHolding?_iff, ← hitsStopLoss_iff, ← hitsTakeProfit_iff]
  rcases p.hitsStopLoss bar.close s.stopLoss with - | -
  · rcases p.hitsTakeProfit bar.close s.takeProfit with - | -
    · rcases Rule.firstHolding? s.exitRules bar.reading with - | k <;> simp
    · simp
  · simp

/-! ### Obeying the signals -/

/-- What the signals ask of bar `i`, in terms of the account and the ledger when the bar is reached
and when the next is. -/
structure ObeysSignals (s : Strategy α) (terms : Terms α) (bars : List (Bar α)) (i : Nat)
    (bar : Bar α) : Prop where
  /-- Without a position, one is opened exactly if there is an entry signal and something to
  commit. -/
  opens_iff : (s.standingAt terms bars i).position = none →
    ((∃ p, s.OpensAt terms bars i p) ↔
      s.EntrySignal bar ∧ 0 < (s.standingAt terms bars i).cash * s.fraction)
  /-- The position opened is the one that the cash buys on this bar, and it is paid for. -/
  opened : ∀ p, s.OpensAt terms bars i p →
    Position.buy? (terms.rates s) s.fraction i bar (s.standingAt terms bars i).cash = some p ∧
      s.standingAt terms bars (i + 1) =
        ⟨(s.standingAt terms bars i).cash - p.costBasis, some p⟩ ∧
      s.ledgerAt terms bars (i + 1) = s.ledgerAt terms bars i
  /-- A position is closed exactly if there is a signal to leave it. -/
  closes_iff : ∀ p, (s.standingAt terms bars i).position = some p →
    ((∃ t, s.ClosesAt terms bars i t) ↔
      s.StopLossSignal p bar ∨ s.TakeProfitSignal p bar ∨ ∃ k, s.ExitRuleSignal bar k)
  /-- The trade closed is the sale of the position held, for the reason that counts, and it is
  credited. -/
  closed : ∀ t, s.ClosesAt terms bars i t → ∃ p,
    (s.standingAt terms bars i).position = some p ∧ s.LeavesFor p bar t.reason ∧
      t = p.sell (terms.rates s) i bar t.reason ∧
      s.standingAt terms bars (i + 1) =
        ⟨(s.standingAt terms bars i).cash + (p.costBasis + t.profit), none⟩
  /-- Otherwise the bar leaves everything as it was. -/
  rests : (∀ p, ¬ s.OpensAt terms bars i p) → (∀ t, ¬ s.ClosesAt terms bars i t) →
    s.standingAt terms bars (i + 1) = s.standingAt terms bars i ∧
      s.ledgerAt terms bars (i + 1) = s.ledgerAt terms bars i

/-- **Every bar obeys the signals.** -/
theorem obeysSignals {terms : Terms α} {bars : List (Bar α)} {i : Nat} (hi : 1 ≤ i)
    (hbar : bars[i]? = some bar) : s.ObeysSignals terms bars i bar where
  opens_iff hflat := by
    simp only [opensAt_iff hi hbar, hflat, true_and, exists_and_left, Position.exists_buy?_iff,
      enters_iff]
  opened p hopen := by
    obtain ⟨-, -, hbuy⟩ := (opensAt_iff hi hbar).1 hopen
    exact ⟨hbuy, standingAt_succ_of_opensAt hi hbar hopen⟩
  closes_iff p hp := by
    rw [← exists_exit?_iff]
    simp only [closesAt_iff hi hbar, hp, Option.some.injEq, exists_eq_left']
    exact ⟨fun ⟨_, reason, hreason, _⟩ ↦ ⟨reason, hreason⟩,
      fun ⟨reason, hreason⟩ ↦ ⟨_, reason, hreason, rfl⟩⟩
  closed t hclose := by
    obtain ⟨p, hp, reason, hreason, ht⟩ := (closesAt_iff hi hbar).1 hclose
    obtain rfl : t.reason = reason := by rw [ht]; rfl
    exact ⟨p, hp, exit?_eq_some_iff.1 hreason, ht, standingAt_succ_of_closesAt hi hbar hp hclose⟩
  rests := standingAt_succ_of_rest hi hbar

/-- **A run misses no signal and trades on nothing else.** It starts with its capital and an empty
ledger; every later bar obeys the signals; and what it reports are the trades that its bars closed,
in their order, and the position, if any, that was opened and not closed. -/
theorem run_obeysSignals {terms : Terms α} {bars : List (Bar α)} {o : Outcome α}
    (h : s.run terms bars = .ok o) :
    (s.standingAt terms bars 1 = ⟨terms.capital, none⟩ ∧ s.ledgerAt terms bars 1 = []) ∧
      (∀ i bar, 1 ≤ i → bars[i]? = some bar → s.ObeysSignals terms bars i bar) ∧
      (o.trades = s.ledgerAt terms bars bars.length ∧
        o.position = (s.standingAt terms bars bars.length).position) ∧
      (∀ t, t ∈ o.trades ↔ ∃ p, s.RoundTrip terms bars p t) ∧
      ∀ i p, s.OpensAt terms bars i p ↔ p.entryIndex = i ∧
        (o.position = some p ∨ ∃ t ∈ o.trades, s.RoundTrip terms bars p t) := by
  rw [Outcome.trades_of_run h, Outcome.position_of_run h]
  refine ⟨⟨s.standingAt_one terms bars, s.ledgerAt_one terms bars⟩, fun i bar ↦ obeysSignals,
    ⟨rfl, rfl⟩, fun t ↦ ?_, fun i p ↦ opensAt_iff_reported⟩
  rw [mem_ledgerAt_iff_roundTrip]
  refine ⟨And.right, fun ⟨p, htrip⟩ ↦ ⟨?_, p, htrip⟩⟩
  obtain ⟨-, bar, hbar⟩ := htrip.closed.exists_bar
  exact (List.getElem?_eq_some_iff.1 hbar).1

/-- The sample strategy leaves its first position for its rule, and its second for the stop-loss
although the rule holds on the same bar. -/
theorem sample_obeysSignals :
    Sample.strategy.run Sample.terms Sample.bars = .ok Sample.outcome ∧
      (∀ i bar, 1 ≤ i → Sample.bars[i]? = some bar →
        Sample.strategy.ObeysSignals Sample.terms Sample.bars i bar) ∧
      Sample.outcome.trades.map Trade.reason = [.rule 0, .stopLoss] :=
  ⟨Sample.run_eq, (run_obeysSignals Sample.run_eq).2.1, by decide +kernel⟩

end Strategy

end BarReplay
