import BarReplay.Proofs.Replay.Holding

/-!
# The shape of the ledger

The ledger of a run fits its bars. Every trade names the two bars between which it was held, with
their dates and in their order (`Trade.FitsBars`), trades follow each other without overlap, and the
position that is still open comes after all of them.

That the dates of a trade are in order is not settled by the trade but by the bars: a run that
succeeds has found no bar at fault, and its dates rise.
-/

namespace BarReplay

variable {α : Type} [Arithmetic α]

/-- A trade that was held from one of the bars to a later one. -/
structure Trade.FitsBars (t : Trade α) (bars : List (Bar α)) : Prop where
  entry_pos : 1 ≤ t.entryIndex
  entry_lt_exit : t.entryIndex < t.exitIndex
  exit_lt_length : t.exitIndex < bars.length
  entryDate : bars[t.entryIndex]?.map Bar.date = some t.entryDate
  exitDate : bars[t.exitIndex]?.map Bar.date = some t.exitDate
  entryDate_lt_exitDate : t.entryDate < t.exitDate
  shares_pos : 1 ≤ t.shares

namespace Strategy

variable {s : Strategy α} {terms : Terms α} {bars : List (Bar α)} {o : Outcome α}

/-- The bars of a run that succeeds are in the order of their dates. -/
theorem date_lt_of_run (h : s.run terms bars = .ok o) {i j : Nat} {a b : Bar α} (hij : i < j)
    (ha : bars[i]? = some a) (hb : bars[j]? = some b) : a.date < b.date := by
  obtain ⟨-, hbars, -⟩ := run_eq_ok_iff.1 h
  rw [barsError?_of_ne_nil (ne_nil_of_barsError?_eq_none hbars)] at hbars
  obtain ⟨hi, rfl⟩ := List.getElem?_eq_some_iff.1 ha
  obtain ⟨hj, rfl⟩ := List.getElem?_eq_some_iff.1 hb
  exact List.pairwise_iff_getElem.1 (dates_rise hbars).1 i j hi hj hij

/-- A round trip is a trade that fits the bars. -/
theorem RoundTrip.fitsBars {p : Position α} {t : Trade α} (htrip : s.RoundTrip terms bars p t)
    (h : s.run terms bars = .ok o) : t.FitsBars bars := by
  obtain ⟨entry, hentry, hbought⟩ := htrip.opened.boughtOn
  obtain ⟨exit, hexit, hlt, ht⟩ := htrip.sold
  have hentryDate : t.entryDate = entry.date := by rw [ht, ← hbought.date]; rfl
  have hexitDate : t.exitDate = exit.date := by rw [ht]; rfl
  have hshares : t.shares = p.shares := by rw [ht]; rfl
  exact
    { entry_pos := htrip.opened.exists_bar.1
      entry_lt_exit := hlt
      exit_lt_length := (List.getElem?_eq_some_iff.1 hexit).1
      entryDate := by rw [hentry, hentryDate]; rfl
      exitDate := by rw [hexit, hexitDate]; rfl
      entryDate_lt_exitDate := by
        rw [hentryDate, hexitDate]
        exact date_lt_of_run h hlt hentry hexit
      shares_pos := hshares ▸ hbought.shares }

/-- The equity curve starts with the capital. -/
theorem head?_equity_of_run (h : s.run terms bars = .ok o) :
    o.equity.head? = some terms.capital := by
  obtain ⟨-, hbars, -⟩ := run_eq_ok_iff.1 h
  rw [List.head?_eq_getElem?, Outcome.getElem?_equity_of_run h, s.standingAt_one]
  cases bars with
  | nil => cases hbars
  | cons first rest => rfl

/-- **The ledger of a run fits its bars.** There is a value for every bar, the first being the
capital; every trade fits the bars; each is closed before the next is opened; the position that is
still open was opened after the first bar and after the last trade, and is none of them; and the
number of trades is reported. -/
theorem run_ledger_fits (h : s.run terms bars = .ok o) :
    (o.equity.length = bars.length ∧ o.equity.head? = some terms.capital) ∧
      (∀ t ∈ o.trades, t.FitsBars bars) ∧
      (o.trades.Pairwise fun t u ↦ t.exitIndex < u.entryIndex) ∧
      (∀ p, o.position = some p → 1 ≤ p.entryIndex ∧ p.entryIndex < bars.length ∧
        ∀ t ∈ o.trades, t.exitIndex < p.entryIndex ∧ t.entryIndex ≠ p.entryIndex) ∧
      o.metrics.totalTrades = o.trades.length := by
  have htrades := Outcome.trades_of_run h
  refine ⟨⟨?_, head?_equity_of_run h⟩, fun t ht ↦ ?_, ?_, fun p hp ↦ ?_, ?_⟩
  · obtain ⟨-, -, rfl⟩ := run_eq_ok_iff.1 h
    simp [Outcome.ofDays]
  · obtain ⟨-, p, htrip⟩ := mem_ledgerAt_iff_roundTrip.1 (htrades ▸ ht)
    exact htrip.fitsBars h
  · exact htrades ▸ ledgerAt_pairwise bars.length
  · rw [Outcome.position_of_run h] at hp
    obtain ⟨hlt, hopen, -⟩ := opensAt_of_held hp
    refine ⟨hopen.exists_bar.1, hlt, fun t ht ↦ ?_⟩
    rw [htrades] at ht
    have hbefore := exitIndex_lt_of_held hp ht
    obtain ⟨-, q, htrip⟩ := mem_ledgerAt_iff_roundTrip.1 ht
    obtain ⟨-, -, hheld, -⟩ := htrip.sold
    exact ⟨hbefore, by omega⟩
  · obtain ⟨-, -, rfl⟩ := run_eq_ok_iff.1 h
    simp [Outcome.ofDays, Metrics.compute]

/-- The sample run closes two trades and holds a third position at its end. -/
theorem sample_ledger_fits :
    Sample.strategy.run Sample.terms Sample.bars = .ok Sample.outcome ∧
      (Sample.outcome.trades.map fun t ↦ (t.entryIndex, t.exitIndex)) = [(1, 3), (4, 5)] ∧
      (Sample.outcome.position.map Position.entryIndex) = some 6 ∧
      (∀ t ∈ Sample.outcome.trades, t.FitsBars Sample.bars) ∧
      Sample.outcome.metrics.totalTrades = Sample.outcome.trades.length :=
  ⟨Sample.run_eq, by decide +kernel, by decide +kernel, (run_ledger_fits Sample.run_eq).2.1,
    (run_ledger_fits Sample.run_eq).2.2.2.2⟩

end Strategy

end BarReplay
