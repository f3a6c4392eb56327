import BarReplay.Proofs.Replay.Success
import Mathlib.Order.Nat

/-!
# The history of a run

A run is followed bar by bar. When bar `i` is reached, the account holds `Strategy.standingAt … i`
and `Strategy.ledgerAt … i` lists the trades closed so far; after the last bar these are the
position and the trades that the run reports. Both are read off the days that the run computes, so
the recurrences below (`standingAt_succ`, `ledgerAt_succ`) are theorems and not definitions.

What one bar can do is said once: `Strategy.Move` has one constructor for each of the four things
that can happen, each with the whole condition under which it happens, and every bar makes a move
(`advance_move`). Whatever is to hold of every run is then shown of one move, and carried along the
bars by `history_induction`; no later proof looks into `Strategy.advance` again.

The first bar only takes stock. It makes no move, and so the induction starts at bar `1`.
-/

namespace BarReplay

variable {α : Type} [Arithmetic α]

/-! ### What a stretch of days leaves -/

/-- What the account holds after the given days, `start` being what it held before them. -/
def standingAfter (start : Standing α) (days : List (Day α)) : Standing α :=
  (days.getLast?.map Day.standing).getD start

omit [Arithmetic α] in
@[simp] theorem standingAfter_nil (start : Standing α) : standingAfter start [] = start := rfl

omit [Arithmetic α] in
@[simp] theorem standingAfter_cons (start : Standing α) (d : Day α) (days : List (Day α)) :
    standingAfter start (d :: days) = standingAfter d.standing days := by
  rcases h : days.getLast? with - | last <;> simp [standingAfter, List.getLast?_cons, h]

omit [Arithmetic α] in
theorem standingAfter_concat (start : Standing α) (days : List (Day α)) (d : Day α) :
    standingAfter start (days ++ [d]) = d.standing := by
  simp [standingAfter]

namespace Strategy

variable (s : Strategy α) (costs : Costs α)

@[simp] theorem advance_bar (index : Nat) (bar : Bar α) (before : Standing α) :
    (s.advance costs index bar before).bar = bar := by
  unfold advance
  repeat' split
  all_goals rfl

@[simp] theorem length_daysFrom (index : Nat) (before : Standing α) (bars : List (Bar α)) :
    (s.daysFrom costs index before bars).length = bars.length := by
  induction bars generalizing index before with
  | nil => rfl
  | cons bar rest ih => simp [daysFrom, ih]

/-- The first days are those of the first bars: a day knows nothing of later bars. -/
theorem take_daysFrom (k index : Nat) (before : Standing α) (bars : List (Bar α)) :
    (s.daysFrom costs index before bars).take k = s.daysFrom costs index before (bars.take k) := by
  induction bars generalizing k index before with
  | nil => simp [daysFrom]
  | cons bar rest ih =>
    cases k with
    | zero => rfl
    | succ k => simp [daysFrom, ih]

/-- Each day is what the strategy makes of its bar and of what the days before it left. -/
theorem getElem?_daysFrom (index j : Nat) (before : Standing α) (bars : List (Bar α)) :
    (s.daysFrom costs index before bars)[j]? =
      bars[j]?.map fun bar ↦ s.advance costs (index + j) bar
        (standingAfter before ((s.daysFrom costs index before bars).take j)) := by
  -- the index and the standing move on with the bars, so the induction is for all of them
  induction bars generalizing index j before with
  | nil => simp [daysFrom]
  | cons bar rest ih =>
    cases j with
    | zero => simp [daysFrom]
    | succ j =>
      simp only [daysFrom, List.getElem?_cons_succ, List.take_succ_cons, standingAfter_cons]
      rw [ih, Nat.add_assoc, Nat.add_comm 1]

/-! ### The account and the ledger at each bar -/

variable (terms : Terms α) (bars : List (Bar α))

/-- What the account holds when bar `i` is reached. -/
def standingAt (i : Nat) : Standing α :=
  standingAfter ⟨terms.capital, none⟩ ((s.history terms bars).take i)

/-- The trades closed before bar `i`, in the order in which they were closed. -/
def ledgerAt (i : Nat) : List (Trade α) :=
  ((s.history terms bars).take i).filterMap Day.closed

@[simp] theorem length_history : (s.history terms bars).length = bars.length := by
  cases bars with
  | nil => rfl
  | cons first rest => simp [history, days]

theorem take_history (k : Nat) :
    (s.history terms bars).take k = s.history terms (bars.take k) := by
  cases bars with
  | nil => simp [history, days]
  | cons first rest =>
    cases k with
    | zero => rfl
    | succ k => simp [history, days, take_daysFrom]

variable {bars}

theorem getElem?_history_zero :
    (s.history terms bars)[0]? = bars[0]?.map fun bar ↦ ⟨bar, ⟨terms.capital, none⟩, none⟩ := by
  cases bars <;> rfl

/-- From the second bar on, each day is what the strategy makes of its bar and of what the account
holds when the bar is reached. -/
theorem getElem?_history {i : Nat} (hi : 1 ≤ i) :
    (s.history terms bars)[i]? = bars[i]?.map fun bar ↦
      s.advance (terms.rates s) i bar (s.standingAt terms bars i) := by
  obtain ⟨j, rfl⟩ := Nat.exists_eq_add_of_le' hi
  cases bars with
  | nil => rfl
  | cons first rest =>
    simp only [standingAt, history, days, List.getElem?_cons_succ, List.take_succ_cons,
      standingAfter_cons]
    rw [getElem?_daysFrom, Nat.add_comm 1]

variable (bars)

theorem standingAt_one : s.standingAt terms bars 1 = ⟨terms.capital, none⟩ := by
  cases bars <;> rfl

theorem ledgerAt_one : s.ledgerAt terms bars 1 = [] := by
  cases bars <;> rfl

variable {bars}

theorem standingAt_succ {i : Nat} {bar : Bar α} (hi : 1 ≤ i) (hbar : bars[i]? = some bar) :
    s.standingAt terms bars (i + 1) =
      (s.advance (terms.rates s) i bar (s.standingAt terms bars i)).standing := by
  have hday : (s.history terms bars)[i]? = _ := s.getElem?_history terms hi
  rw [hbar, Option.map_some] at hday
  rw [standingAt, List.take_add_one, hday, Option.toList_some, standingAfter_concat]

theorem ledgerAt_succ {i : Nat} {bar : Bar α} (hi : 1 ≤ i) (hbar : bars[i]? = some bar) :
    s.ledgerAt terms bars (i + 1) = s.ledgerAt terms bars i ++
      (s.advance (terms.rates s) i bar (s.standingAt terms bars i)).closed.toList := by
  have hday : (s.history terms bars)[i]? = _ := s.getElem?_history terms hi
  rw [hbar, Option.map_some] at hday
  rw [ledgerAt, List.take_add_one, hday, Option.toList_some, List.filterMap_append, ← ledgerAt]
  rfl

/-! ### What can happen on a bar -/

/-- What a strategy does to an account on one bar: the account before and after it, and the trade
closed on it, if any. -/
inductive Move (s : Strategy α) (costs : Costs α) (index : Nat) (bar : Bar α) :
    Standing α → Standing α → Option (Trade α) → Prop where
  /-- There is no position, and no signal to buy one or nothing to buy it with. -/
  | wait (cash : α)
      (pass : s.enters bar.reading = true →
        Position.buy? costs s.fraction index bar cash = none) :
      s.Move costs index bar ⟨cash, none⟩ ⟨cash, none⟩ none
  /-- There is no position, and one is bought. -/
  | buy (cash : α) (p : Position α) (signal : s.enters bar.reading = true)
      (bought : Position.buy? costs s.fraction index bar cash = some p) :
      s.Move costs index bar ⟨cash, none⟩ ⟨cash - p.costBasis, some p⟩ none
  /-- The position is kept, as there is no reason to leave it. -/
  | hold (cash : α) (p : Position α) (keep : s.exit? p bar = none) :
      s.Move costs index bar ⟨cash, some p⟩ ⟨cash, some p⟩ none
  /-- The position is sold for a reason. -/
  | sell (cash : α) (p : Position α) (reason : ExitReason)
      (signal : s.exit? p bar = some reason) :
      s.Move costs index bar ⟨cash, some p⟩
        ⟨cash + (p.sell costs index bar reason).proceeds p.costBasis, none⟩
        (some (p.sell costs index bar reason))

/-- On every bar the strategy makes a move. -/
theorem advance_move (index : Nat) (bar : Bar α) (before : Standing α) :
    s.Move costs index bar before (s.advance costs index bar before).standing
      (s.advance costs index bar before).closed := by
  obtain ⟨cash, - | p⟩ := before
  · rcases hsignal : s.enters bar.reading with - | -
    · simp only [advance, hsignal]
      exact .wait cash (by simp [hsignal])
    rcases hbuy : Position.buy? costs s.fraction index bar cash with - | p
    · simp only [advance, hsignal, Standing.buy?, hbuy]
      exact .wait cash fun _ ↦ hbuy
    · simp only [advance, hsignal, Standing.buy?, hbuy]
      exact .buy cash p hsignal hbuy
  · rcases hexit : s.exit? p bar with - | reason
    · simp only [advance, hexit]
      exact .hold cash p hexit
    · simp only [advance, hexit, Standing.sell]
      exact .sell cash p reason hexit

/-- The move of a bar, in terms of what the account holds when the bar and the next are reached. -/
theorem move_at {i : Nat} {bar : Bar α} (hi : 1 ≤ i) (hbar : bars[i]? = some bar) :
    ∃ before after closed, s.standingAt terms bars i = before ∧
      s.standingAt terms bars (i + 1) = after ∧
      s.ledgerAt terms bars (i + 1) = s.ledgerAt terms bars i ++ closed.toList ∧
      s.Move (terms.rates s) i bar before after closed :=
  ⟨_, _, _, rfl, s.standingAt_succ terms hi hbar, s.ledgerAt_succ terms hi hbar,
    s.advance_move _ _ _ _⟩

/-- On the first bar, and when there are no more bars, nothing happens. -/
theorem bar_or_rest (bars : List (Bar α)) (i : Nat) :
    (1 ≤ i ∧ ∃ bar, bars[i]? = some bar) ∨
      (s.standingAt terms bars (i + 1) = s.standingAt terms bars i ∧
        s.ledgerAt terms bars (i + 1) = s.ledgerAt terms bars i) := by
  rcases Nat.eq_zero_or_pos i with rfl | hi
  · exact .inr ⟨s.standingAt_one terms bars, s.ledgerAt_one terms bars⟩
  rcases hbar : bars[i]? with - | bar
  · have hlen : (s.history terms bars).length ≤ i := by
      simpa using List.getElem?_eq_none_iff.1 hbar
    right
    simp only [standingAt, ledgerAt, List.take_of_length_le hlen,
      List.take_of_length_le (Nat.le_succ_of_le hlen), and_self]
  · exact .inl ⟨hi, bar, rfl⟩

/-- **What every move keeps holds all along a run.** A property of the bar reached, of the account
and of the ledger that holds at bar `i` and is kept by every move holds at every later bar. -/
theorem history_induction {motive : Nat → Standing α → List (Trade α) → Prop} {i k : Nat}
    (hi : 1 ≤ i) (start : motive i (s.standingAt terms bars i) (s.ledgerAt terms bars i))
    (step : ∀ {j bar before after closed ledger}, i ≤ j → bars[j]? = some bar →
      s.Move (terms.rates s) j bar before after closed → motive j before ledger →
        motive (j + 1) after (ledger ++ closed.toList))
    (hik : i ≤ k) (hk : k ≤ bars.length) :
    motive k (s.standingAt terms bars k) (s.ledgerAt terms bars k) := by
  induction k, hik using Nat.le_induction with
  | base => exact start
  | succ j hij ih =>
    have hbar : bars[j]? = some bars[j] := List.getElem?_eq_getElem hk
    rw [s.standingAt_succ terms (by omega) hbar, s.ledgerAt_succ terms (by omega) hbar]
    exact step hij hbar (s.advance_move _ _ _ _) (ih (by omega))

end Strategy

/-! ### What a run reports -/

section Reports

variable {s : Strategy α} {terms : Terms α} {bars : List (Bar α)} {o : Outcome α}

theorem Outcome.trades_of_run (h : s.run terms bars = .ok o) :
    o.trades = s.ledgerAt terms bars bars.length := by
  obtain ⟨-, -, rfl⟩ := Strategy.run_eq_ok_iff.1 h
  rw [Strategy.ledgerAt, List.take_of_length_le (by simp)]
  rfl

/-- The position reported is that of the last standing, of none if there are no days. -/
theorem Outcome.position_ofDays (cash : α) (days : List (Day α)) :
    (Outcome.ofDays days).position = (standingAfter ⟨cash, none⟩ days).position := by
  show days.getLast?.bind _ = _
  rw [standingAfter]
  rcases days.getLast? with - | d <;> rfl

theorem Outcome.position_of_run (h : s.run terms bars = .ok o) :
    o.position = (s.standingAt terms bars bars.length).position := by
  obtain ⟨-, -, rfl⟩ := Strategy.run_eq_ok_iff.1 h
  rw [Strategy.standingAt, List.take_of_length_le (by simp), Outcome.position_ofDays terms.capital]

/-- The equity of a bar is the value, at its close, of what the account holds after it. -/
theorem Outcome.getElem?_equity_of_run (h : s.run terms bars = .ok o) (i : Nat) :
    o.equity[i]? = bars[i]?.map fun bar ↦ (s.standingAt terms bars (i + 1)).equity bar.close := by
  obtain ⟨-, -, rfl⟩ := Strategy.run_eq_ok_iff.1 h
  show ((s.history terms bars).map Day.equity)[i]? = _
  rw [List.getElem?_map]
  rcases Nat.eq_zero_or_pos i with rfl | hi
  · rw [s.getElem?_history_zero, s.standingAt_one]
    rcases bars[0]? with - | bar <;> rfl
  · rw [s.getElem?_history terms hi]
    rcases hbar : bars[i]? with - | bar
    · rfl
    · rw [s.standingAt_succ terms hi hbar]
      simp [Day.equity]

/-- The performance reported is that of the equity curve and of the trades. -/
theorem Outcome.metrics_of_run (h : s.run terms bars = .ok o) :
    o.metrics = Metrics.compute o.equity (o.trades.map Trade.profit) bars.length := by
  obtain ⟨-, -, rfl⟩ := Strategy.run_eq_ok_iff.1 h
  simp [Outcome.ofDays]

/-- The final equity reported is the value, at the last close, of what the account then holds. -/
theorem Outcome.finalEquity_of_run (h : s.run terms bars = .ok o) {last : Bar α}
    (hlast : bars.getLast? = some last) :
    o.metrics.finalEquity = (s.standingAt terms bars bars.length).equity last.close := by
  have hpos : 0 < bars.length := Strategy.length_pos_of_run h
  have hlength : o.equity.length = bars.length := by
    obtain ⟨-, -, rfl⟩ := Strategy.run_eq_ok_iff.1 h
    simp [Outcome.ofDays]
  rw [List.getLast?_eq_getElem?] at hlast
  rw [Outcome.metrics_of_run h]
  show o.equity.getLast?.getD 0 = _
  rw [List.getLast?_eq_getElem?, hlength, Outcome.getElem?_equity_of_run h, hlast,
    Nat.sub_add_cancel hpos]
  rfl

end Reports

/-! ### A run to look at -/

namespace Sample

/-- A day of January 2024. -/
def bar (day : Fin 31) (close rsi : Float) : Bar Float :=
  { date := ⟨2024, 1, day + 1, by simp only [IsDate, daysInMonth]; omega⟩
    close := close
    rsi := some rsi }

/-- Eight days on which the sample strategy buys three times. -/
def bars : List (Bar Float) :=
  [bar 0 100 50, bar 1 100 25, bar 2 96 40, bar 3 97 75, bar 4 98 20, bar 5 90 80, bar 6 99 10,
    bar 7 99 50]

/-- Buys with a fifth of the cash when the RSI is low, and sells when it is high or the price has
moved far enough. -/
def strategy : Strategy Float :=
  { name := "RSI reversal"
    description := ""
    entryRules := [⟨"rsi < 30", .compare (.field .rsi) .lt (.constant 30)⟩]
    exitRules := [⟨"rsi > 70", .compare (.field .rsi) .gt (.constant 70)⟩]
    stopLoss := some 0.05
    takeProfit := some 0.1
    fraction := 0.2
    costs := .standard }

def terms : Terms Float :=
  { capital := 10000, commission := none, slippage := some 0.001 }

/-- What the run of the sample strategy reports. -/
def outcome : Outcome Float :=
  .ofDays (strategy.history terms bars)

theorem run_eq : strategy.run terms bars = .ok outcome := by
  refine Strategy.run_eq_ok_iff.2 ⟨⟨?_, ?_, ?_⟩, ?_, rfl⟩ <;> decide +kernel

end Sample

end BarReplay
