import BarReplay.Proofs.Replay.Failure
import BarReplay.Proofs.Replay.Holding
import BarReplay.Proofs.Replay.SideBySide

/-!
# Cutting and resuming a run

A run can be cut after any bar that leaves no position and be resumed there as a run of its own,
whose capital is the value of the account at the cut. The resumed run does on its bars what the
whole run does on them, operation by operation; it counts its bars from the cut, and so do the
trades and the position that it reports (`countedFrom`).

This needs three things of a run: that its first bar, on which it only takes stock, leaves no trace
but the account; that account and bar are all that a later bar depends on; and that no decision
looks at the index of a bar. The third is `Move.countedFrom`; the others are the start and the step
of an induction over both runs, whose invariant is `Resumes`.
-/

namespace BarReplay

variable {α : Type}

/-! ### Counting bars from the cut -/

/-- The position, its bar counted from bar `k` on. -/
def Position.countedFrom (k : Nat) (p : Position α) : Position α :=
  { p with entryIndex := p.entryIndex - k }

/-- The trade, its bars counted from bar `k` on. -/
def Trade.countedFrom (k : Nat) (t : Trade α) : Trade α :=
  { t with entryIndex := t.entryIndex - k, exitIndex := t.exitIndex - k }

/-- The account, the bar of its position counted from bar `k` on. -/
def Standing.countedFrom (k : Nat) (standing : Standing α) : Standing α :=
  ⟨standing.cash, standing.position.map (Position.countedFrom k)⟩

variable [Arithmetic α]

theorem Position.buy?_countedFrom (k : Nat) (costs : Costs α) (fraction : α) (index : Nat)
    (bar : Bar α) (cash : α) :
    Position.buy? costs fraction (index - k) bar cash =
      (Position.buy? costs fraction index bar cash).map (Position.countedFrom k) := by
  by_cases h : 0 < cash * fraction <;> simp [Position.buy?, Position.countedFrom, h]

/-- What an account is worth does not depend on how bars are counted. -/
theorem Standing.equity_countedFrom (k : Nat) (standing : Standing α) (close : α) :
    (standing.countedFrom k).equity close = standing.equity close := by
  obtain ⟨cash, - | p⟩ := standing <;> rfl

namespace Strategy

variable {s : Strategy α}

/-- No decision looks at the index of a bar: with its bars counted from bar `k` on, a move is a
move. -/
theorem Move.countedFrom {costs : Costs α} {index : Nat} {bar : Bar α} {before after : Standing α}
    {closed : Option (Trade α)} (h : s.Move costs index bar before after closed) (k : Nat) :
    s.Move costs (index - k) bar (before.countedFrom k) (after.countedFrom k)
      (closed.map (Trade.countedFrom k)) := by
  cases h with
  | wait cash pass =>
    refine .wait cash fun signal ↦ ?_
    rw [Position.buy?_countedFrom, pass signal, Option.map_none]
  | buy cash p signal bought =>
    refine .buy cash (p.countedFrom k) signal ?_
    rw [Position.buy?_countedFrom, bought, Option.map_some]
  | hold cash p keep => exact .hold cash (p.countedFrom k) keep
  | sell cash p reason signal => exact .sell cash (p.countedFrom k) reason signal

/-! ### The whole run and the resumed one -/

/-- The resumed run has come as far as the whole run: it holds the same, and its ledger is the part
of the whole ledger that was opened behind the cut. -/
structure Resumes (k : Nat) (whole : Standing α) (ledger : List (Trade α)) (resumed : Standing α)
    (resumedLedger : List (Trade α)) : Prop where
  account : resumed = whole.countedFrom k
  opened : ∀ p, whole.position = some p → k < p.entryIndex
  ledger : resumedLedger = (ledger.filter fun t ↦ k < t.entryIndex).map (Trade.countedFrom k)

/-- What is held behind the cut after a move was opened behind the cut, and so was what is sold. -/
theorem Move.opened_behind {costs : Costs α} {k index : Nat} {bar : Bar α}
    {before after : Standing α} {closed : Option (Trade α)} (hk : k < index)
    (h : s.Move costs index bar before after closed)
    (hopened : ∀ p, before.position = some p → k < p.entryIndex) :
    (∀ p, after.position = some p → k < p.entryIndex) ∧
      ∀ t, closed = some t → k < t.entryIndex := by
  cases h with
  | wait cash pass => simp
  | buy cash p signal bought =>
    have hentry : p.entryIndex = index := (Position.boughtOn_of_buy? bought).index
    simp [hentry, hk]
  | hold cash p keep => exact ⟨hopened, by simp⟩
  | sell cash p reason signal =>
    have hentry : k < p.entryIndex := hopened p rfl
    simp [Position.sell, hentry]

/-- Both runs make the same move behind the cut. -/
theorem Resumes.move {costs : Costs α} {k index : Nat} {bar : Bar α}
    {before after before' after' : Standing α} {closed closed' : Option (Trade α)}
    {ledger ledger' : List (Trade α)} (h : Resumes k before ledger before' ledger')
    (hk : k < index) (hmove : s.Move costs index bar before after closed)
    (hmove' : s.Move costs (index - k) bar before' after' closed') :
    Resumes k after (ledger ++ closed.toList) after' (ledger' ++ closed'.toList) := by
  obtain ⟨rfl, hopened, rfl⟩ := h
  -- the move of the whole run is possible in the resumed run, so it is the one made there
  obtain ⟨rfl, rfl⟩ := (hmove.countedFrom k).unique hmove'
  obtain ⟨hafter, hclosed⟩ := hmove.opened_behind hk hopened
  refine ⟨rfl, hafter, ?_⟩
  rw [List.filter_append, List.map_append]
  rcases closed with - | t
  · rfl
  · simp [hclosed t rfl]

variable {terms : Terms α} {bars : List (Bar α)} {o : Outcome α} {k : Nat} {capital : α}

/-- The value of an account without a position is its cash. -/
theorem standingAt_of_flat (h : s.run terms bars = .ok o)
    (hflat : (s.standingAt terms bars (k + 1)).position = none)
    (hequity : o.equity[k]? = some capital) :
    s.standingAt terms bars (k + 1) = ⟨capital, none⟩ := by
  rw [Outcome.getElem?_equity_of_run h] at hequity
  obtain ⟨bar, -, hvalue⟩ := Option.map_eq_some_iff.1 hequity
  rcases hstanding : s.standingAt terms bars (k + 1) with ⟨cash, position⟩
  rw [hstanding] at hflat hvalue
  obtain rfl : position = none := hflat
  obtain rfl : cash = capital := hvalue
  rfl

/-- Behind the cut the resumed run goes on as the whole run does. -/
theorem resumes_at (hstart : s.standingAt terms bars (k + 1) = ⟨capital, none⟩) (n : Nat)
    (hn : k + 1 + n ≤ bars.length) :
    Resumes k (s.standingAt terms bars (k + 1 + n)) (s.ledgerAt terms bars (k + 1 + n))
      (s.standingAt { terms with capital := capital } (bars.drop k) (1 + n))
      (s.ledgerAt { terms with capital := capital } (bars.drop k) (1 + n)) := by
  refine paired_induction s s terms { terms with capital := capital } (motive := fun _ ↦ Resumes k)
    (Nat.le_add_left 1 k) (Nat.le_refl 1) ?_ ?_ n hn (by rw [List.length_drop]; omega)
  · rw [hstart, standingAt_one, ledgerAt_one]
    refine ⟨rfl, by simp, ?_⟩
    -- what was sold by the cut was bought before it
    rw [List.filter_eq_nil_iff.2, List.map_nil]
    intro t ht
    obtain ⟨hexit, p, htrip⟩ := mem_ledgerAt_iff_roundTrip.1 ht
    obtain ⟨-, -, hlt, -⟩ := htrip.sold
    simp only [decide_eq_true_eq]
    omega
  · intro n bar bar' before before' after after' closed closed' ledger ledger' hbar hbar' hmove
      hmove' h
    have hindex : k + 1 + n - k = 1 + n := by omega
    obtain rfl : bar = bar' := by
      rw [List.getElem?_drop, ← Nat.add_assoc, hbar] at hbar'
      exact Option.some.inj hbar'
    exact h.move (by omega) hmove (hindex ▸ hmove')

/-- The bars behind the cut are in order. -/
theorem exists_run_drop (h : s.run terms bars = .ok o) (hk : k < bars.length)
    (hcapital : IsAmount capital) :
    ∃ r, s.run { terms with capital := capital } (bars.drop k) = .ok r := by
  have hsound := exists_run_iff_soundInput.1 ⟨o, h⟩
  refine exists_run_iff_soundInput.2
    { capital := hcapital
      commission := hsound.commission
      slippage := hsound.slippage
      nonempty := by rw [ne_eq, List.drop_eq_nil_iff]; omega
      prices := fun bar hbar ↦ hsound.prices bar (List.mem_of_mem_drop hbar)
      dates := hsound.dates.drop k }

/-- **A run can be cut and resumed.** If no position is held after bar `k` and the account is then
worth an amount, a run over the bars from `k` on that starts with this amount succeeds; its equity
curve is the rest of the curve, its trades are those opened behind the cut, and its position is that
of the whole run, which was opened behind the cut, with all bars counted from `k`. -/
theorem run_resumes (h : s.run terms bars = .ok o)
    (hflat : (s.standingAt terms bars (k + 1)).position = none)
    (hequity : o.equity[k]? = some capital) (hcapital : IsAmount capital) :
    ∃ r, s.run { terms with capital := capital } (bars.drop k) = .ok r ∧
      r.equity = o.equity.drop k ∧
      r.trades = (o.trades.filter fun t ↦ k < t.entryIndex).map (Trade.countedFrom k) ∧
      r.position = o.position.map (Position.countedFrom k) ∧
      ∀ p, o.position = some p → k < p.entryIndex := by
  have hstart := standingAt_of_flat h hflat hequity
  have hk : k < bars.length := by
    rw [Outcome.getElem?_equity_of_run h] at hequity
    obtain ⟨bar, hbar, -⟩ := Option.map_eq_some_iff.1 hequity
    exact (List.getElem?_eq_some_iff.1 hbar).1
  obtain ⟨r, hr⟩ := exists_run_drop h hk hcapital
  have hlength : (bars.drop k).length = 1 + (bars.length - (k + 1)) := by
    rw [List.length_drop]
    omega
  have hend := resumes_at hstart (bars.length - (k + 1)) (by omega)
  rw [show k + 1 + (bars.length - (k + 1)) = bars.length by omega, ← hlength] at hend
  refine ⟨r, hr, List.ext_getElem? fun i ↦ ?_, ?_, ?_, ?_⟩
  · rw [List.getElem?_drop, Outcome.getElem?_equity_of_run h, Outcome.getElem?_equity_of_run hr,
      List.getElem?_drop]
    rcases hbar : bars[k + i]? with - | bar
    · rfl
    · have hi : k + i < bars.length := (List.getElem?_eq_some_iff.1 hbar).1
      have haccount := (resumes_at hstart i (by omega)).account
      rw [Option.map_some, Option.map_some, Nat.add_comm i, haccount, Standing.equity_countedFrom,
        Nat.add_right_comm]
  · rw [Outcome.trades_of_run h, Outcome.trades_of_run hr, hend.ledger]
  · rw [Outcome.position_of_run h, Outcome.position_of_run hr, hend.account]
    rfl
  · rw [Outcome.position_of_run h]
    exact hend.opened

/-- The sample run holds nothing after its fourth bar, having sold on it. Resumed there with what
the account is then worth, it buys and sells as before, and holds the last position at its end. -/
theorem sample_run_resumes :
    ∃ capital, (Sample.strategy.standingAt Sample.terms Sample.bars (3 + 1)).position = none ∧
      Sample.outcome.equity[3]? = some capital ∧ IsAmount capital ∧
      ∃ r,
        Sample.strategy.run { Sample.terms with capital := capital } (Sample.bars.drop 3) = .ok r ∧
        r.equity = Sample.outcome.equity.drop 3 ∧
        (r.trades.map fun t ↦ (t.entryIndex, t.exitIndex)) = [(1, 2)] ∧
        r.position.map Position.entryIndex = some 3 := by
  have hflat : (Sample.strategy.standingAt Sample.terms Sample.bars (3 + 1)).position = none := by
    decide +kernel
  have hequity : Sample.outcome.equity[3]? = some (Sample.outcome.equity[3]?.getD 0) := by
    decide +kernel
  have hcapital : IsAmount (Sample.outcome.equity[3]?.getD 0) := by decide +kernel
  obtain ⟨r, hr, hcurve, htrades, hposition, -⟩ :=
    run_resumes Sample.run_eq hflat hequity hcapital
  refine ⟨_, hflat, hequity, hcapital, r, hr, hcurve, ?_, ?_⟩
  · rw [htrades]
    decide +kernel
  · rw [hposition]
    decide +kernel

end Strategy

end BarReplay
