import BarReplay.Proofs.Replay.Selling

/-!
# Ruin

An account that overspends can be ruined. The least that is bought is one share, even if it costs
more than the account holds, and if it is sold at a loss that the rest does not cover, the cash is
below zero. From then on there is nothing to commit, so no signal can be followed: every bar leaves
the account as it is (`Move.wait_of_ruined`), and so does the rest of the run
(`standingAt_of_ruined`). The run reports no trade beyond the bar of the ruin, and the same equity
for all that is left (`ruin_is_absorbing`).
-/

open BarReplay.Decimal

namespace BarReplay

namespace Strategy

variable {s : Strategy Float} {terms : Terms Float} {bars : List (Bar Float)} {o : Outcome Float}

/-- **Without cash a flat account can only wait**, whatever the signal is. -/
theorem Move.wait_of_ruined {costs : Costs Float} {index : ℕ} {bar : Bar Float} {cash : Float}
    {after : Standing Float} {closed : Option (Trade Float)}
    (hfraction : isPositive s.fraction = true) (hruined : cash ≤ 0)
    (hmove : s.Move costs index bar ⟨cash, none⟩ after closed) :
    after = ⟨cash, none⟩ ∧ closed = none := by
  cases hmove with
  | wait => exact ⟨rfl, rfl⟩
  | buy _ p signal bought =>
    have hfunds := zero_lt_of_mul hfraction (Position.exists_buy?_iff.1 ⟨p, bought⟩)
    exact absurd hfunds (float_not_lt hruined)

/-- **A ruined account stays as it is.** -/
theorem standingAt_of_ruined {i k : ℕ} {cash : Float} (hfraction : isPositive s.fraction = true)
    (hruined : cash ≤ 0) (hi : 1 ≤ i) (hstart : s.standingAt terms bars i = ⟨cash, none⟩)
    (hik : i ≤ k) (hk : k ≤ bars.length) :
    s.standingAt terms bars k = ⟨cash, none⟩ ∧
      s.ledgerAt terms bars k = s.ledgerAt terms bars i := by
  refine s.history_induction terms
    (motive := fun _ standing ledger ↦
      standing = ⟨cash, none⟩ ∧ ledger = s.ledgerAt terms bars i)
    hi ⟨hstart, rfl⟩ ?_ hik hk
  rintro j bar before after closed ledger - - hmove ⟨rfl, rfl⟩
  obtain ⟨rfl, rfl⟩ := hmove.wait_of_ruined hfraction hruined
  exact ⟨rfl, by simp⟩

/-- **Ruin is absorbing.** If the account holds no position after bar `k` and is worth nothing or
less, the run has closed all its trades by then, holds no position at the end, and reports the same
equity for every bar that is left. -/
theorem ruin_is_absorbing (hs : s.Accepted) (h : s.run terms bars = .ok o) {k : ℕ} {value : Float}
    (hflat : (s.standingAt terms bars (k + 1)).position = none)
    (hvalue : o.equity[k]? = some value) (hruined : value ≤ 0) :
    (∀ t ∈ o.trades, t.entryIndex < t.exitIndex ∧ t.exitIndex ≤ k) ∧ o.position = none ∧
      ∀ j, k ≤ j → j < bars.length → o.equity[j]? = some value := by
  have hcurve := Outcome.getElem?_equity_of_run h
  have hk : k < bars.length := by
    rw [hcurve, Option.map_eq_some_iff] at hvalue
    obtain ⟨bar, hbar, -⟩ := hvalue
    exact (List.getElem?_eq_some_iff.1 hbar).1
  -- a flat account is worth its cash
  have hstart : s.standingAt terms bars (k + 1) = ⟨value, none⟩ := by
    rw [hcurve, List.getElem?_eq_getElem hk, Option.map_some, Option.some.injEq] at hvalue
    generalize s.standingAt terms bars (k + 1) = standing at hflat hvalue ⊢
    obtain ⟨cash, position⟩ := standing
    obtain rfl : position = none := hflat
    obtain rfl : cash = value := hvalue
    rfl
  have hrest {i : ℕ} (hki : k + 1 ≤ i) (hi : i ≤ bars.length) :=
    standingAt_of_ruined hs.isPositive_fraction hruined (Nat.le_add_left 1 k) hstart hki hi
  refine ⟨fun t ht ↦ ?_, ?_, fun j hkj hj ↦ ?_⟩
  · rw [Outcome.trades_of_run h, (hrest hk le_rfl).2] at ht
    obtain ⟨hexit, p, htrip⟩ := mem_ledgerAt_iff_roundTrip.1 ht
    obtain ⟨_, -, hlt, -⟩ := htrip.sold
    exact ⟨hlt, Nat.le_of_lt_succ hexit⟩
  · rw [Outcome.position_of_run h, (hrest hk le_rfl).1]
  · rw [hcurve, List.getElem?_eq_getElem hj, Option.map_some,
      (hrest (Nat.succ_le_succ hkj) hj).1]
    rfl

end Strategy

/-! ### An account that is ruined -/

namespace Sample

/-- Five days on which a share is bought for more than there is, falls to a third, and is to be
bought again. -/
def ruinousDays : List (Bar Float) :=
  quoted [(100, 50), (100, 25), (30, 50), (30, 20), (40, 20)]

/-- The terms of the sample run, for an account with fifty in cash. -/
def smallAccount : Terms Float :=
  { terms with capital := 50 }

end Sample

/-- A share bought for a hundred with fifty in cash is sold for thirty on the third day. The entry
rule holds on the fourth and on the fifth day, and nothing is bought. -/
theorem Strategy.sample_ruin_is_absorbing :
    ∃ o value, Sample.strategy.run Sample.smallAccount Sample.ruinousDays = .ok o ∧
      o.trades.map Trade.entryIndex = [1] ∧ o.equity[2]? = some value ∧ value < 0 ∧
      (Sample.ruinousDays.map fun bar ↦ Sample.strategy.enters bar.reading) =
        [false, true, false, true, true] ∧
      o.position = none ∧ o.equity[4]? = some value := by
  have hrun : Sample.strategy.run Sample.smallAccount Sample.ruinousDays =
      .ok (.ofDays (Sample.strategy.history Sample.smallAccount Sample.ruinousDays)) := by
    refine Strategy.run_eq_ok_iff.2 ⟨⟨?_, ?_, ?_⟩, ?_, rfl⟩ <;> decide +kernel
  have hruin : ∃ value, value ∈ (Outcome.ofDays (Sample.strategy.history Sample.smallAccount
      Sample.ruinousDays)).equity[2]? ∧ value < 0 ∧ value ≤ 0 := by
    decide +kernel
  obtain ⟨value, hvalue, hbelow, hruined⟩ := hruin
  obtain ⟨-, hposition, hcurve⟩ := ruin_is_absorbing ⟨_, Sample.draft_check⟩ hrun
    (by decide +kernel) hvalue hruined
  exact ⟨_, value, hrun, by decide +kernel, hvalue, hbelow, by decide +kernel, hposition,
    hcurve 4 (by decide) (by decide)⟩

end BarReplay
