import BarReplay.Proofs.Replay.Holding

/-!
# The value of an account

The equity curve of a run can be computed again from what the run reports: the capital, the trades,
the position and the closes. A trade and a position both report a purchase, a `Lot`, with the bars
over which it was held; `cashAfter` keeps the books of the trades, and `replayedCurve` values the
account on every bar. The sums are taken in the order in which the run takes them, so the replay is
exact even where sums are rounded.

The cost basis of a position is not reported with its trade, and is computed again from the lot.
That the run credits the cost that it has debited, and no other, is part of the invariant
`Balances`, which is kept by every move (`Balances.move`).
-/

namespace BarReplay

/-- A number of shares bought at a price on one bar, and sold on another if they were sold. -/
structure Lot (α : Type) where
  shares : Nat
  price : α
  entryIndex : Nat
  exitIndex : Option Nat

variable {α : Type}

/-- The lot is held after bar `i`. -/
def Lot.Spans (l : Lot α) (i : Nat) : Prop :=
  l.entryIndex ≤ i ∧ ∀ j ∈ l.exitIndex, i < j

instance (l : Lot α) (i : Nat) : Decidable (l.Spans i) :=
  inferInstanceAs (Decidable (_ ∧ _))

/-- What is bought with a position. -/
def Position.lot (p : Position α) : Lot α :=
  ⟨p.shares, p.entryPrice, p.entryIndex, none⟩

/-- What is bought and sold with a trade. -/
def Trade.lot (t : Trade α) : Lot α :=
  ⟨t.shares, t.entryPrice, t.entryIndex, some t.exitIndex⟩

theorem Position.lot_spans {p : Position α} {i : Nat} : p.lot.Spans i ↔ p.entryIndex ≤ i := by
  simp [Lot.Spans, Position.lot]

theorem Trade.lot_spans {t : Trade α} {i : Nat} :
    t.lot.Spans i ↔ t.entryIndex ≤ i ∧ i < t.exitIndex := by
  simp [Lot.Spans, Trade.lot]

/-- The lots of the trades and of the position. -/
def lots (trades : List (Trade α)) (position : Option (Position α)) : List (Lot α) :=
  trades.map Trade.lot ++ position.toList.map Position.lot

theorem mem_lots {trades : List (Trade α)} {position : Option (Position α)} {l : Lot α} :
    l ∈ lots trades position ↔ (∃ t ∈ trades, t.lot = l) ∨ ∃ p, position = some p ∧ p.lot = l := by
  simp [lots]

variable [Arithmetic α]

/-! ### The replay -/

/-- What is paid for the lot at the given commission. -/
def Lot.cost (commission : α) (l : Lot α) : α :=
  Arithmetic.ofCount l.shares * l.price * (1 + commission)

/-- The value at a close of an account that buys the lot with its cash. -/
def Lot.valueWith (commission cash close : α) (l : Lot α) : α :=
  (cash - l.cost commission) +
    (l.cost commission + (close - l.price) * Arithmetic.ofCount l.shares)

/-- The cash after the given trades, of which each is paid for and then brings back its cost and its
profit. -/
def cashAfter (commission capital : α) (trades : List (Trade α)) : α :=
  trades.foldl (fun cash t ↦
    (cash - t.lot.cost commission) + (t.lot.cost commission + t.profit)) capital

theorem cashAfter_concat (commission capital : α) (trades : List (Trade α)) (t : Trade α) :
    cashAfter commission capital (trades ++ [t]) =
      (cashAfter commission capital trades - t.lot.cost commission) +
        (t.lot.cost commission + t.profit) := by
  simp [cashAfter]

/-- The value of the account after bar `i`: the cash after the trades closed by then, or, if a lot
spans the bar, the value of the lot bought with the cash that was there before it. -/
def replayedValue (commission capital : α) (trades : List (Trade α))
    (position : Option (Position α)) (i : Nat) (close : α) : α :=
  match (lots trades position).find? fun l ↦ l.Spans i with
  | none => cashAfter commission capital (trades.filter fun t ↦ t.exitIndex ≤ i)
  | some l =>
    l.valueWith commission
      (cashAfter commission capital (trades.filter fun t ↦ t.exitIndex < l.entryIndex)) close

/-- The values of the account at the given closes. -/
def replayedCurve (commission capital : α) (trades : List (Trade α))
    (position : Option (Position α)) (closes : List α) : List α :=
  closes.mapIdx (replayedValue commission capital trades position)

/-! ### The books balance -/

/-- The cash is what the ledger says, less the cost of the position, which is what was paid. -/
inductive Balances (commission capital : α) : Standing α → List (Trade α) → Prop where
  | flat (ledger : List (Trade α)) :
      Balances commission capital ⟨cashAfter commission capital ledger, none⟩ ledger
  | held (ledger : List (Trade α)) (p : Position α) (cost : p.costBasis = p.lot.cost commission) :
      Balances commission capital ⟨cashAfter commission capital ledger - p.costBasis, some p⟩ ledger

theorem Balances.equity_of_flat {commission capital close : α} {standing : Standing α}
    {ledger : List (Trade α)} (h : Balances commission capital standing ledger)
    (hp : standing.position = none) :
    standing.equity close = cashAfter commission capital ledger := by
  cases h with
  | flat => rfl
  | held => cases hp

theorem Balances.equity_of_held {commission capital close : α} {standing : Standing α}
    {ledger : List (Trade α)} {p : Position α} (h : Balances commission capital standing ledger)
    (hp : standing.position = some p) :
    standing.equity close =
      p.lot.valueWith commission (cashAfter commission capital ledger) close := by
  cases h with
  | flat => cases hp
  | held _ q cost =>
    obtain rfl : q = p := Option.some.inj hp
    rw [Lot.valueWith, ← cost]
    rfl

variable {s : Strategy α}

/-- The books balance after a move if they did before it. -/
theorem Balances.move {costs : Costs α} {capital : α} {index : Nat} {bar : Bar α}
    {before after : Standing α} {closed : Option (Trade α)} {ledger : List (Trade α)}
    (h : Balances costs.commission capital before ledger)
    (hmove : s.Move costs index bar before after closed) :
    Balances costs.commission capital after (ledger ++ closed.toList) := by
  cases hmove with
  | wait cash pass => simpa using h
  | hold cash p keep => simpa using h
  | buy cash p signal bought =>
    rw [Option.toList_none, List.append_nil]
    cases h with
    | flat => exact .held ledger p (Position.boughtOn_of_buy? bought).cost
  | sell cash p reason signal =>
    cases h with
    | held _ _ cost =>
      -- the trade does not know the cost basis, but its lot has the same cost
      have hcost : (p.sell costs index bar reason).lot.cost costs.commission = p.costBasis :=
        cost.symm
      rw [Option.toList_some, Trade.proceeds, ← hcost, ← cashAfter_concat]
      exact .flat _

namespace Strategy

variable {terms : Terms α} {bars : List (Bar α)} {o : Outcome α}

variable (s terms) in
/-- **The books balance all along a run.** -/
theorem balances_at {k : Nat} (hk : 1 ≤ k) (hle : k ≤ bars.length) :
    Balances (terms.rates s).commission terms.capital (s.standingAt terms bars k)
      (s.ledgerAt terms bars k) := by
  refine s.history_induction terms
    (motive := fun _ ↦ Balances (terms.rates s).commission terms.capital)
    (Nat.le_refl 1) ?_ ?_ hk hle
  · rw [s.standingAt_one, s.ledgerAt_one]
    exact .flat []
  · intro j bar before after closed ledger _ _ hmove h
    exact h.move hmove

/-! ### The lots that span a bar -/

section Lots

variable {i k : Nat} {p : Position α} (hik : i < k)

include hik

/-- A lot that spans a bar is the one that is held after it. -/
theorem held_of_spans {l : Lot α}
    (hl : l ∈ lots (s.ledgerAt terms bars k) (s.standingAt terms bars k).position)
    (hspans : l.Spans i) :
    ∃ p e, (s.standingAt terms bars (i + 1)).position = some p ∧
      l = { p.lot with exitIndex := e } := by
  rcases mem_lots.1 hl with ⟨t, ht, rfl⟩ | ⟨p, hp, rfl⟩
  · -- a trade: the position was held on all the bars of its round trip
    obtain ⟨-, p, htrip⟩ := mem_ledgerAt_iff_roundTrip.1 ht
    obtain ⟨bar, -, -, hsold⟩ := htrip.sold
    obtain ⟨hlo, hhi⟩ := Trade.lot_spans.1 hspans
    refine ⟨p, some t.exitIndex, htrip.held (i + 1) (by omega) (by omega), ?_⟩
    rw [hsold]
    rfl
  · -- the position: it has been held ever since it was opened
    obtain ⟨-, -, hsince⟩ := opensAt_of_held hp
    have hlo : p.entryIndex ≤ i := Position.lot_spans.1 hspans
    exact ⟨p, none, hsince (i + 1) (by omega) (by omega), rfl⟩

/-- What is held after a bar has a lot that spans it. -/
theorem exists_spans_of_held (hp : (s.standingAt terms bars (i + 1)).position = some p) :
    ∃ l ∈ lots (s.ledgerAt terms bars k) (s.standingAt terms bars k).position, l.Spans i := by
  obtain ⟨hlt, -, -⟩ := opensAt_of_held hp
  rcases held_or_roundTrip (show i + 1 ≤ k from hik) hp with hheld | ⟨t, htrip, hlo, hhi⟩
  · refine ⟨p.lot, mem_lots.2 (.inr ⟨p, hheld, rfl⟩), Position.lot_spans.2 ?_⟩
    omega
  · have hentry : t.entryIndex = p.entryIndex := htrip.entryIndex_eq
    refine ⟨t.lot, mem_lots.2 (.inl ⟨t, ?_, rfl⟩), Trade.lot_spans.2 ?_⟩
    · exact mem_ledgerAt_iff_roundTrip.2 ⟨hhi, p, htrip⟩
    · omega

/-- The ledger of a time at which a position is held lists what was closed before it was opened. -/
theorem ledgerAt_eq_filter_of_held (hp : (s.standingAt terms bars (i + 1)).position = some p) :
    s.ledgerAt terms bars (i + 1) =
      (s.ledgerAt terms bars k).filter fun t ↦ t.exitIndex < p.entryIndex := by
  obtain ⟨hlt, -, -⟩ := opensAt_of_held hp
  rw [ledgerAt_eq_filter (show i + 1 ≤ k from hik)]
  refine List.filter_congr fun t ht ↦ ?_
  -- closed by now and closed before `p` was opened is the same, as `p` is held now
  rw [decide_eq_decide]
  refine ⟨fun hexit ↦ exitIndex_lt_of_held hp ?_, fun hexit ↦ by omega⟩
  rw [ledgerAt_eq_filter (show i + 1 ≤ k from hik)]
  exact List.mem_filter.2 ⟨ht, decide_eq_true hexit⟩

end Lots

/-- Lots do not overlap: each is sold before the next is bought. -/
theorem lots_pairwise (k : Nat) :
    (lots (s.ledgerAt terms bars k) (s.standingAt terms bars k).position).Pairwise
      fun l m ↦ ∃ j ∈ l.exitIndex, j < m.entryIndex := by
  rw [lots, List.pairwise_append, List.pairwise_map]
  refine ⟨(ledgerAt_pairwise k).imp fun {t u} htu ↦ ⟨t.exitIndex, rfl, htu⟩, ?_,
    fun l hl m hm ↦ ?_⟩
  · cases (s.standingAt terms bars k).position <;> simp
  · obtain ⟨t, ht, rfl⟩ := List.mem_map.1 hl
    obtain ⟨p, hp, rfl⟩ := List.mem_map.1 hm
    exact ⟨t.exitIndex, rfl, exitIndex_lt_of_held (Option.mem_toList.1 hp) ht⟩

/-- The replay gives the value that the account has after each bar. -/
theorem replayedValue_eq {i : Nat} {bar : Bar α} (hbar : bars[i]? = some bar) :
    replayedValue (terms.rates s).commission terms.capital (s.ledgerAt terms bars bars.length)
        (s.standingAt terms bars bars.length).position i bar.close =
      (s.standingAt terms bars (i + 1)).equity bar.close := by
  have hi : i < bars.length := (List.getElem?_eq_some_iff.1 hbar).1
  have hbooks := s.balances_at terms (Nat.le_add_left 1 i) hi
  rw [replayedValue]
  rcases hfind : (lots _ _).find? (fun l ↦ l.Spans i) with - | l
  · have hflat : (s.standingAt terms bars (i + 1)).position = none := by
      by_contra hheld
      obtain ⟨p, hp⟩ := Option.ne_none_iff_exists'.1 hheld
      obtain ⟨l, hl, hspans⟩ := exists_spans_of_held hi hp
      exact List.find?_eq_none.1 hfind l hl (decide_eq_true hspans)
    rw [hbooks.equity_of_flat hflat, ledgerAt_eq_filter (show i + 1 ≤ bars.length from hi)]
    simp only [hfind, Nat.lt_succ_iff]
  · have hspans : l.Spans i := by simpa using List.find?_some hfind
    obtain ⟨p, e, hp, rfl⟩ := held_of_spans hi (List.mem_of_find?_eq_some hfind) hspans
    rw [hbooks.equity_of_held hp, ledgerAt_eq_filter_of_held hi hp]
    simp only [hfind]
    rfl

/-! ### What is paid and what comes back -/

/-- A purchase takes the cost of its lot from the cash. -/
theorem OpensAt.debited {i : Nat} {p : Position α} (h : s.OpensAt terms bars i p) :
    p.costBasis = p.lot.cost (terms.rates s).commission ∧
      (s.standingAt terms bars (i + 1)).cash = (s.standingAt terms bars i).cash - p.costBasis := by
  obtain ⟨hi, bar, hbar⟩ := h.exists_bar
  obtain ⟨_, -, hbought⟩ := h.boughtOn
  exact ⟨hbought.cost, by rw [(standingAt_succ_of_opensAt hi hbar h).1]⟩

/-- A round trip brings back the cost that was paid, and the profit. -/
theorem RoundTrip.credited {p : Position α} {t : Trade α} (h : s.RoundTrip terms bars p t) :
    t.lot.cost (terms.rates s).commission = p.costBasis ∧
      (s.standingAt terms bars (t.exitIndex + 1)).cash =
        (s.standingAt terms bars t.exitIndex).cash + (p.costBasis + t.profit) := by
  obtain ⟨hi, bar, hbar⟩ := h.closed.exists_bar
  obtain ⟨_, -, hlt, hsold⟩ := h.sold
  have hheld := h.held t.exitIndex hlt (Nat.le_refl _)
  refine ⟨?_, by rw [standingAt_succ_of_closesAt hi hbar hheld h.closed]⟩
  rw [h.opened.debited.1, hsold]
  rfl

/-- **The ledger determines the equity curve.** The curve of a run is replayed, operation by
operation, from the capital, the trades, the position and the closes; no two lots span one bar; and
the cost that every trade is credited with is the one debited at its entry. -/
theorem run_equity_replayed (h : s.run terms bars = .ok o) :
    o.equity = replayedCurve (terms.rates s).commission terms.capital o.trades o.position
        (bars.map Bar.close) ∧
      (∀ i, (lots o.trades o.position).Pairwise fun l m ↦ ¬ (l.Spans i ∧ m.Spans i)) ∧
      ∀ t ∈ o.trades, ∃ p, s.RoundTrip terms bars p t ∧
        t.lot.cost (terms.rates s).commission = p.costBasis ∧
        (s.standingAt terms bars (t.entryIndex + 1)).cash =
          (s.standingAt terms bars t.entryIndex).cash - p.costBasis ∧
        (s.standingAt terms bars (t.exitIndex + 1)).cash =
          (s.standingAt terms bars t.exitIndex).cash + (p.costBasis + t.profit) := by
  have hcurve := Outcome.getElem?_equity_of_run h
  rw [Outcome.trades_of_run h, Outcome.position_of_run h]
  refine ⟨List.ext_getElem? fun i ↦ ?_, fun i ↦ ?_, fun t ht ↦ ?_⟩
  · rw [hcurve, replayedCurve, List.getElem?_mapIdx, List.getElem?_map]
    rcases hbar : bars[i]? with - | bar
    · rfl
    · rw [Option.map_some, Option.map_some, Option.map_some, replayedValue_eq hbar]
  · refine (lots_pairwise bars.length).imp fun {l m} ⟨j, hj, hlt⟩ ⟨hl, hm⟩ ↦ ?_
    have hij : i < j := hl.2 j hj
    have hmi : m.entryIndex ≤ i := hm.1
    omega
  · obtain ⟨-, p, htrip⟩ := mem_ledgerAt_iff_roundTrip.1 ht
    obtain ⟨-, hdebit⟩ := htrip.opened.debited
    obtain ⟨hcost, hcredit⟩ := htrip.credited
    exact ⟨p, htrip, hcost, hdebit, hcredit⟩

/-- The equity curve of the sample run, replayed at its commission. A lot spans the third bar and
the last, and none the fourth. -/
theorem sample_equity_replayed :
    Sample.strategy.run Sample.terms Sample.bars = .ok Sample.outcome ∧
      Sample.outcome.equity =
        replayedCurve 0.001 10000 Sample.outcome.trades Sample.outcome.position
          [100, 100, 96, 97, 98, 90, 99, 99] ∧
      ([2, 3, 7].map fun i ↦
        ((lots Sample.outcome.trades Sample.outcome.position).find? fun l ↦ l.Spans i).map
          Lot.shares) = [some 19, none, some 19] :=
  ⟨Sample.run_eq, (run_equity_replayed Sample.run_eq).1, by decide +kernel⟩

end Strategy

end BarReplay
