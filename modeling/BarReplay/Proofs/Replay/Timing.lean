import BarReplay.Proofs.Replay.SideBySide
import BarReplay.Proofs.Replay.Signals

/-!
# When a run trades

Money decides how many shares a run trades, and nothing else about its trades. Two runs over the
same bars whose strategies have the same rules and thresholds, and which pay the same slippage, buy
and sell on the same bars, at the same prices and for the same reasons, whatever their capital,
their commission and the share of the account that they commit. This holds as long as neither passes
an entry signal over because it has nothing to commit (`FundsEntries`).

The part of an account that the next trade depends on is then the `Fill` that opened its position.
One bar settles it from the triggers alone, in a run without a position (`Move.fill_of_flat`) and in
one that holds a position (`Move.fill_of_held`); so two runs keep having the same fills
(`Move.sameTiming`), from bar to bar.
-/

namespace BarReplay

variable {α : Type}

/-! ### Fills -/

/-- A purchase or a sale but for the number of shares: its bar and the price of a share. -/
structure Fill (α : Type) where
  date : Date
  index : Nat
  price : α
  deriving DecidableEq

/-- A trade but for its amounts. -/
structure Trade.Timing (α : Type) where
  entry : Fill α
  exit : Fill α
  reason : ExitReason
  deriving DecidableEq

/-- The fill that opened the position. -/
def Position.entry (p : Position α) : Fill α :=
  ⟨p.entryDate, p.entryIndex, p.entryPrice⟩

/-- The fills that opened and closed a position, and why it was closed. -/
def Trade.timing (t : Trade α) : Trade.Timing α :=
  ⟨⟨t.entryDate, t.entryIndex, t.entryPrice⟩, ⟨t.exitDate, t.exitIndex, t.exitPrice⟩, t.reason⟩

variable [Arithmetic α]

/-- The fill of a purchase on a bar. -/
def Costs.buyFill (costs : Costs α) (index : Nat) (bar : Bar α) : Fill α :=
  ⟨bar.date, index, costs.buyPrice bar.close⟩

/-- The fill of a sale on a bar. -/
def Costs.sellFill (costs : Costs α) (index : Nat) (bar : Bar α) : Fill α :=
  ⟨bar.date, index, costs.sellPrice bar.close⟩

theorem Position.BoughtOn.entry_eq {p : Position α} {costs : Costs α} {index : Nat} {bar : Bar α}
    (h : p.BoughtOn costs index bar) : p.entry = costs.buyFill index bar := by
  rw [Position.entry, h.date, h.index, h.price, Costs.buyFill]

theorem Position.timing_sell (p : Position α) (costs : Costs α) (index : Nat) (bar : Bar α)
    (reason : ExitReason) :
    (p.sell costs index bar reason).timing = ⟨p.entry, costs.sellFill index bar, reason⟩ :=
  rfl

section Slippage

variable {costs costs' : Costs α} (h : costs.slippage = costs'.slippage)

include h

/-- The commission has no part in the price of a share. -/
theorem Costs.buyFill_eq_of_slippage (index : Nat) (bar : Bar α) :
    costs.buyFill index bar = costs'.buyFill index bar := by
  rw [buyFill, buyFill, buyPrice, buyPrice, h]

theorem Costs.sellFill_eq_of_slippage (index : Nat) (bar : Bar α) :
    costs.sellFill index bar = costs'.sellFill index bar := by
  rw [sellFill, sellFill, sellPrice, sellPrice, h]

end Slippage

namespace Strategy

/-! ### Triggers -/

/-- The strategies enter and leave on the same signals. -/
structure SameTriggers (s s' : Strategy α) : Prop where
  entryRules : s.entryRules = s'.entryRules
  exitRules : s.exitRules = s'.exitRules
  stopLoss : s.stopLoss = s'.stopLoss
  takeProfit : s.takeProfit = s'.takeProfit

variable {s s' : Strategy α}

theorem SameTriggers.enters_eq (h : s.SameTriggers s') (reading : Reading α) :
    s.enters reading = s'.enters reading := by
  rw [enters, enters, h.entryRules]

/-- Of a position, the price at which it was opened is all that its exit depends on. -/
theorem SameTriggers.exit?_eq (h : s.SameTriggers s') {p p' : Position α} (hp : p.entry = p'.entry)
    (bar : Bar α) : s.exit? p bar = s'.exit? p' bar := by
  have hprice : p.entryPrice = p'.entryPrice := congrArg Fill.price hp
  have hchange : p.change = p'.change := by
    funext close
    rw [Position.change, Position.change, hprice]
  have hstop : p.hitsStopLoss bar.close s.stopLoss = p'.hitsStopLoss bar.close s'.stopLoss := by
    rw [h.stopLoss]
    rcases s'.stopLoss with - | limit
    · rfl
    · rw [Position.hitsStopLoss, Position.hitsStopLoss, hchange]
  have htake :
      p.hitsTakeProfit bar.close s.takeProfit = p'.hitsTakeProfit bar.close s'.takeProfit := by
    rw [h.takeProfit]
    rcases s'.takeProfit with - | limit
    · rfl
    · rw [Position.hitsTakeProfit, Position.hitsTakeProfit, hchange]
  rw [exit?, exit?, hstop, htake, h.exitRules]

/-! ### One bar -/

section Move

variable {costs costs' : Costs α} {index : Nat} {bar : Bar α}
  {before after before' after' : Standing α} {closed closed' : Option (Trade α)}

/-- Without a position, one is opened exactly on an entry signal if that is funded. -/
theorem Move.fill_of_flat (h : s.Move costs index bar before after closed)
    (hflat : before.position = none)
    (hfunds : s.enters bar.reading = true → 0 < before.cash * s.fraction) :
    after.position.map Position.entry =
        (if s.enters bar.reading then some (costs.buyFill index bar) else none) ∧
      closed = none := by
  cases h with
  | wait cash pass =>
    have hquiet : ¬ s.enters bar.reading = true := by
      intro signal
      have hbuy : ∃ p, Position.buy? costs s.fraction index bar cash = some p :=
        Position.exists_buy?_iff.2 (hfunds signal)
      simp [pass signal] at hbuy
    rw [if_neg hquiet]
    exact ⟨rfl, rfl⟩
  | buy cash p signal bought =>
    rw [if_pos signal, Option.map_some, (Position.boughtOn_of_buy? bought).entry_eq]
    exact ⟨rfl, rfl⟩
  | hold cash p keep => cases hflat
  | sell cash p reason signal => cases hflat

/-- A position is kept as it is, or closed for the reason to leave it. -/
theorem Move.fill_of_held (h : s.Move costs index bar before after closed) {p : Position α}
    (hp : before.position = some p) :
    after.position.map Position.entry =
        (if s.exit? p bar = none then some p.entry else none) ∧
      closed.map Trade.timing =
        (s.exit? p bar).map fun reason ↦ ⟨p.entry, costs.sellFill index bar, reason⟩ := by
  cases h with
  | wait cash pass => cases hp
  | buy cash q signal bought => cases hp
  | hold cash q keep =>
    obtain rfl : q = p := Option.some.inj hp
    rw [keep, if_pos rfl]
    exact ⟨rfl, rfl⟩
  | sell cash q reason signal =>
    obtain rfl : q = p := Option.some.inj hp
    rw [signal, if_neg (by simp), Option.map_some, Option.map_some, Position.timing_sell]
    exact ⟨rfl, rfl⟩

/-- **Money has no part in the timing of a move.** If two accounts hold positions with the same
fill, or none, they still do after the bar, and what is closed on it has the same timing. -/
theorem Move.sameTiming (htriggers : s.SameTriggers s')
    (hslippage : costs.slippage = costs'.slippage)
    (h : s.Move costs index bar before after closed)
    (h' : s'.Move costs' index bar before' after' closed')
    (hfill : before.position.map Position.entry = before'.position.map Position.entry)
    (hfunds : before.position = none → s.enters bar.reading = true →
      0 < before.cash * s.fraction)
    (hfunds' : before'.position = none → s'.enters bar.reading = true →
      0 < before'.cash * s'.fraction) :
    after.position.map Position.entry = after'.position.map Position.entry ∧
      closed.map Trade.timing = closed'.map Trade.timing := by
  rcases hp : before.position with - | p
  · have hp' : before'.position = none := by simpa [hp] using hfill.symm
    obtain ⟨hafter, rfl⟩ := h.fill_of_flat hp (hfunds hp)
    obtain ⟨hafter', rfl⟩ := h'.fill_of_flat hp' (hfunds' hp')
    rw [hafter, hafter', htriggers.enters_eq, Costs.buyFill_eq_of_slippage hslippage]
    exact ⟨rfl, rfl⟩
  · obtain ⟨p', hp', hentry⟩ : ∃ p', before'.position = some p' ∧ p'.entry = p.entry := by
      simpa [hp] using hfill.symm
    obtain ⟨hafter, hclosed⟩ := h.fill_of_held hp
    obtain ⟨hafter', hclosed'⟩ := h'.fill_of_held hp'
    rw [hafter, hafter', hclosed, hclosed', htriggers.exit?_eq hentry.symm, hentry,
      Costs.sellFill_eq_of_slippage hslippage]
    exact ⟨rfl, rfl⟩

end Move

/-! ### Whole runs -/

/-- No entry signal is passed over for want of cash: wherever the account holds no position and an
entry rule holds, there is something to commit. -/
def FundsEntries (s : Strategy α) (terms : Terms α) (bars : List (Bar α)) : Prop :=
  ∀ i bar, 1 ≤ i → bars[i]? = some bar → (s.standingAt terms bars i).position = none →
    s.EntrySignal bar → 0 < (s.standingAt terms bars i).cash * s.fraction

/-- That entries are funded can be looked up bar by bar. -/
instance (s : Strategy α) (terms : Terms α) (bars : List (Bar α)) :
    Decidable (s.FundsEntries terms bars) :=
  decidable_of_iff
    (∀ i : Fin bars.length, 1 ≤ i.val → (s.standingAt terms bars i).position.isNone = true →
      s.enters bars[i].reading = true → 0 < (s.standingAt terms bars i).cash * s.fraction) <| by
    simp only [FundsEntries, ← enters_iff, Option.isNone_iff_eq_none]
    constructor
    · rintro h i bar hi hbar
      obtain ⟨hlt, rfl⟩ := List.getElem?_eq_some_iff.1 hbar
      exact h ⟨i, hlt⟩ hi
    · intro h i hi
      exact h i bars[i] hi (List.getElem?_eq_getElem i.isLt)

variable {terms terms' : Terms α} {bars : List (Bar α)} {o o' : Outcome α}

/-- At every bar two runs have traded at the same times. -/
theorem sameTiming_at (htriggers : s.SameTriggers s')
    (hslippage : (terms.rates s).slippage = (terms'.rates s').slippage)
    (hfunds : s.FundsEntries terms bars) (hfunds' : s'.FundsEntries terms' bars) (n : Nat)
    (hn : 1 + n ≤ bars.length) :
    (s.standingAt terms bars (1 + n)).position.map Position.entry =
        (s'.standingAt terms' bars (1 + n)).position.map Position.entry ∧
      (s.ledgerAt terms bars (1 + n)).map Trade.timing =
        (s'.ledgerAt terms' bars (1 + n)).map Trade.timing := by
  induction n with
  | zero => simp only [Nat.add_zero, standingAt_one, ledgerAt_one, and_self, Option.map_none]
  | succ n ih =>
    obtain ⟨hfill, hledger⟩ := ih (by omega)
    have hi : 1 ≤ 1 + n := Nat.le_add_right 1 n
    have hbar : bars[1 + n]? = some bars[1 + n] := List.getElem?_eq_getElem hn
    obtain ⟨hafter, hclosed⟩ :=
      (s.advance_move _ _ _ _).sameTiming htriggers hslippage (s'.advance_move _ _ _ _) hfill
        (fun hflat signal ↦ hfunds _ _ hi hbar hflat (enters_iff.1 signal))
        (fun hflat signal ↦ hfunds' _ _ hi hbar hflat (enters_iff.1 signal))
    rw [← Nat.add_assoc, s.standingAt_succ terms hi hbar, s'.standingAt_succ terms' hi hbar,
      s.ledgerAt_succ terms hi hbar, s'.ledgerAt_succ terms' hi hbar]
    refine ⟨hafter, ?_⟩
    rw [List.map_append, List.map_append, hledger, ← Option.toList_map, ← Option.toList_map,
      hclosed]

/-- **When a run trades does not depend on money.** Two runs over the same bars succeed, have the
same rules and thresholds and pay the same slippage; they may differ in capital, in commission and
in the share of the account that they commit. If neither lacks the cash for an entry signal, then
their ledgers are equally long and agree, trade by trade, on the bars, the dates and the prices of
both fills and on the reason for the exit, and they end with positions opened on the same bar, date
and price, or with none. -/
theorem run_timing_eq (h : s.run terms bars = .ok o) (h' : s'.run terms' bars = .ok o')
    (htriggers : s.SameTriggers s')
    (hslippage : (terms.rates s).slippage = (terms'.rates s').slippage)
    (hfunds : s.FundsEntries terms bars) (hfunds' : s'.FundsEntries terms' bars) :
    o.trades.map Trade.timing = o'.trades.map Trade.timing ∧
      o.position.map Position.entry = o'.position.map Position.entry := by
  obtain ⟨n, hn⟩ : ∃ n, bars.length = 1 + n := Nat.exists_eq_add_of_le (length_pos_of_run h)
  obtain ⟨hfill, hledger⟩ := sameTiming_at htriggers hslippage hfunds hfunds' n hn.ge
  rw [Outcome.trades_of_run h, Outcome.trades_of_run h', Outcome.position_of_run h,
    Outcome.position_of_run h', hn]
  exact ⟨hledger, hfill⟩

end Strategy

namespace Sample

/-- The sample strategy with all of its cash and at a commission of its own. -/
def boldStrategy : Strategy Float :=
  { strategy with name := "RSI reversal, all in", fraction := 1, costs := ⟨0.003, 0.001⟩ }

def smallTerms : Terms Float :=
  { capital := 500, commission := none, slippage := none }

/-- What the run of the bold strategy on a small capital reports. -/
def boldOutcome : Outcome Float :=
  .ofDays (boldStrategy.history smallTerms bars)

theorem bold_run_eq : boldStrategy.run smallTerms bars = .ok boldOutcome := by
  refine Strategy.run_eq_ok_iff.2 ⟨⟨?_, ?_, ?_⟩, ?_, rfl⟩ <;> decide +kernel

end Sample

/-- The sample run trades twenty shares at a time and the bold one a handful, and they trade at the
same times. -/
theorem Strategy.sample_timing_eq :
    Sample.strategy.FundsEntries Sample.terms Sample.bars ∧
      Sample.boldStrategy.FundsEntries Sample.smallTerms Sample.bars ∧
      Sample.outcome.trades.map Trade.timing = Sample.boldOutcome.trades.map Trade.timing ∧
      Sample.outcome.trades.map Trade.shares ≠ Sample.boldOutcome.trades.map Trade.shares := by
  have hfunds : Sample.strategy.FundsEntries Sample.terms Sample.bars := by decide +kernel
  have hfunds' : Sample.boldStrategy.FundsEntries Sample.smallTerms Sample.bars := by
    decide +kernel
  have htriggers : Sample.strategy.SameTriggers Sample.boldStrategy := ⟨rfl, rfl, rfl, rfl⟩
  have hslippage : (Sample.terms.rates Sample.strategy).slippage =
      (Sample.smallTerms.rates Sample.boldStrategy).slippage := by decide +kernel
  obtain ⟨htiming, -⟩ :=
    run_timing_eq Sample.run_eq Sample.bold_run_eq htriggers hslippage hfunds hfunds'
  exact ⟨hfunds, hfunds', htiming, by decide +kernel⟩

end BarReplay
