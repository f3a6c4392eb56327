import BarReplay.Proofs.Decimal.Opposite
import BarReplay.Proofs.Replay.Signals

/-!
# Eager exits

A strategy that is at least as eager to leave a position as another, and the same otherwise, does
not leave it later (`Strategy.eager_exits_never_delay`). Eagerness is `LeavesSooner`: lower
thresholds, and more rules. It may change the reason to leave, as the order of precedence is among
other reasons then, but where the one strategy has a reason the other has one too
(`LeavesSooner.exists_exit?`).

The comparison is of the first position only. Up to it both accounts are untouched, so both
strategies open it on the same bar and it is the same (`LeavesSooner.firstEntry_iff`). Once it is
closed on different bars, the accounts differ, and so may all that follows.
-/

open BarReplay.Decimal

namespace BarReplay

namespace Strategy

/-! ### The first position -/

section FirstEntry

variable {α : Type} [Arithmetic α] {s : Strategy α} {terms : Terms α} {bars : List (Bar α)}

/-- No position is opened before bar `i`. -/
def UnopenedUntil (s : Strategy α) (terms : Terms α) (bars : List (Bar α)) (i : ℕ) : Prop :=
  ∀ j < i, ∀ p, ¬ s.OpensAt terms bars j p

/-- The position `p` is the first that is opened, and it is opened on bar `i`. -/
structure FirstEntry (s : Strategy α) (terms : Terms α) (bars : List (Bar α)) (i : ℕ)
    (p : Position α) : Prop where
  opened : s.OpensAt terms bars i p
  first : s.UnopenedUntil terms bars i

/-- Before the first position is opened the account is as it was at the start. -/
theorem UnopenedUntil.standingAt_eq {i : ℕ} (h : s.UnopenedUntil terms bars i) (hi : 1 ≤ i) :
    s.standingAt terms bars i = ⟨terms.capital, none⟩ := by
  induction i, hi using Nat.le_induction with
  | base => exact s.standingAt_one terms bars
  | succ i hi ih =>
    have hbefore := ih fun j hj ↦ h j (by omega)
    rw [← hbefore]
    rcases s.bar_or_rest terms bars i with ⟨-, bar, hbar⟩ | ⟨hrest, -⟩
    · refine (standingAt_succ_of_rest hi hbar (h i (by omega)) fun t hclose ↦ ?_).1
      obtain ⟨p, hp, -⟩ := (closesAt_iff hi hbar).1 hclose
      rw [hbefore] at hp
      cases hp
    · exact hrest

theorem unopenedUntil_succ_iff {i : ℕ} : s.UnopenedUntil terms bars (i + 1) ↔
    s.UnopenedUntil terms bars i ∧ ∀ p, ¬ s.OpensAt terms bars i p := by
  simp only [UnopenedUntil, Nat.lt_succ_iff_lt_or_eq, or_imp, forall_and, forall_eq]

end FirstEntry

/-! ### Eagerness -/

/-- The other strategy is the same up to its reasons to leave, and these are at least as many: it
has every threshold of this one, and no higher, and every exit rule. -/
structure LeavesSooner (s s' : Strategy Float) : Prop where
  entryRules : s'.entryRules = s.entryRules
  fraction : s'.fraction = s.fraction
  costs : s'.costs = s.costs
  stopLoss : ∀ limit, s.stopLoss = some limit → ∃ lower, s'.stopLoss = some lower ∧ lower ≤ limit
  takeProfit : ∀ limit, s.takeProfit = some limit →
    ∃ lower, s'.takeProfit = some lower ∧ lower ≤ limit
  exitRules : ∀ r ∈ s.exitRules, r ∈ s'.exitRules

namespace LeavesSooner

variable {s s' : Strategy Float} {terms : Terms Float} {bars : List (Bar Float)}
  (h : s.LeavesSooner s')

include h

/-- **Where the one has a reason to leave, the other has one.** -/
theorem exists_exit? {p : Position Float} {bar : Bar Float}
    (hexit : ∃ reason, s.exit? p bar = some reason) :
    ∃ reason, s'.exit? p bar = some reason := by
  rw [exists_exit?_iff] at hexit ⊢
  -- each reason is one of the other strategy too, but a reason that comes first may be another one
  rcases hexit with ⟨limit, hlimit, hfall⟩ | ⟨limit, hlimit, hrise⟩ | ⟨k, r, hr, hholds⟩
  · obtain ⟨lower, hlower, hle⟩ := h.stopLoss limit hlimit
    exact .inl ⟨lower, hlower, float_le_trans hfall (opposite_le_opposite_iff.2 hle)⟩
  · obtain ⟨lower, hlower, hle⟩ := h.takeProfit limit hlimit
    exact .inr (.inl ⟨lower, hlower, float_le_trans hle hrise⟩)
  · obtain ⟨j, hj⟩ := List.mem_iff_getElem?.1 (h.exitRules r (List.mem_of_getElem? hr))
    exact .inr (.inr ⟨j, r, hj, hholds⟩)

/-- As long as neither has opened a position, both open the same. -/
theorem opensAt_iff_of_unopened {i : ℕ} {p : Position Float} (hs : s.UnopenedUntil terms bars i)
    (hs' : s'.UnopenedUntil terms bars i) :
    s.OpensAt terms bars i p ↔ s'.OpensAt terms bars i p := by
  have hrates : terms.rates s' = terms.rates s := by rw [Terms.rates, Terms.rates, h.costs]
  have henters (bar : Bar Float) : s'.enters bar.reading = s.enters bar.reading := by
    rw [enters, enters, h.entryRules]
  by_cases hbar : 1 ≤ i ∧ ∃ bar, bars[i]? = some bar
  · obtain ⟨hi, bar, hbar⟩ := hbar
    rw [opensAt_iff hi hbar, opensAt_iff hi hbar, hs.standingAt_eq hi, hs'.standingAt_eq hi, hrates,
      henters, h.fraction]
  · exact iff_of_false (fun hopen ↦ hbar hopen.exists_bar) fun hopen ↦ hbar hopen.exists_bar

/-- Both wait for the same time. -/
theorem unopenedUntil_iff {i : ℕ} :
    s.UnopenedUntil terms bars i ↔ s'.UnopenedUntil terms bars i := by
  induction i with
  | zero => simp [UnopenedUntil]
  | succ i ih =>
    rw [unopenedUntil_succ_iff, unopenedUntil_succ_iff, ← ih]
    refine and_congr_right fun hs ↦ forall_congr' fun p ↦ not_congr ?_
    exact h.opensAt_iff_of_unopened hs (ih.1 hs)

/-- **Both open the same first position on the same bar.** -/
theorem firstEntry_iff {i : ℕ} {p : Position Float} :
    s.FirstEntry terms bars i p ↔ s'.FirstEntry terms bars i p := by
  constructor
  · rintro ⟨hopen, hfirst⟩
    have hfirst' := h.unopenedUntil_iff.1 hfirst
    exact ⟨(h.opensAt_iff_of_unopened hfirst hfirst').1 hopen, hfirst'⟩
  · rintro ⟨hopen, hfirst'⟩
    have hfirst := h.unopenedUntil_iff.2 hfirst'
    exact ⟨(h.opensAt_iff_of_unopened hfirst hfirst').2 hopen, hfirst⟩

/-- **A position that both open is not closed later by the more eager one.** -/
theorem exists_roundTrip {p : Position Float} {t : Trade Float} (htrip : s.RoundTrip terms bars p t)
    (hopen : s'.OpensAt terms bars t.entryIndex p) :
    ∃ t', s'.RoundTrip terms bars p t' ∧ t'.exitIndex ≤ t.exitIndex := by
  obtain ⟨-, -, hlt, -⟩ := htrip.sold
  rcases held_or_roundTrip hlt hopen.2 with hheld | ⟨t', htrip', -, hsooner⟩
  · -- it is still held on the bar on which the other closes it, and there is a reason to leave
    obtain ⟨hi, bar, hbar⟩ := htrip.closed.exists_bar
    obtain ⟨q, hq, reason, hreason, -⟩ := (closesAt_iff hi hbar).1 htrip.closed
    obtain rfl : p = q := Option.some.inj ((htrip.held _ hlt le_rfl).symm.trans hq)
    obtain ⟨reason', hreason'⟩ := h.exists_exit? ⟨reason, hreason⟩
    have hclose := (closesAt_iff hi hbar).2 ⟨p, hheld, reason', hreason', rfl⟩
    exact ⟨_, roundTrip_of_closesAt hheld hclose, le_rfl⟩
  · exact ⟨t', htrip', hsooner.le⟩

end LeavesSooner

/-- **Eager exits never delay.** Two strategies that differ in their reasons to leave only, run on
the same terms and bars, make the same first entry on the same bar. If the one that has the fewer
reasons closes this position, the other closes it as well, on the same bar or an earlier one. -/
theorem eager_exits_never_delay {s s' : Strategy Float} {terms : Terms Float}
    {bars : List (Bar Float)} {o o' : Outcome Float} (h : s.LeavesSooner s')
    (hrun : s.run terms bars = .ok o) (hrun' : s'.run terms bars = .ok o') :
    (∀ i p, s.FirstEntry terms bars i p ↔ s'.FirstEntry terms bars i p) ∧
      ∀ i p, s.FirstEntry terms bars i p → ∀ t ∈ o.trades, s.RoundTrip terms bars p t →
        ∃ t' ∈ o'.trades, s'.RoundTrip terms bars p t' ∧ t'.exitIndex ≤ t.exitIndex := by
  refine ⟨fun i p ↦ h.firstEntry_iff, fun i p hfirst t ht htrip ↦ ?_⟩
  have hentry : t.entryIndex = i :=
    htrip.entryIndex_eq.trans (entryIndex_of_opensAt hfirst.opened)
  have hopen := (h.firstEntry_iff.1 hfirst).opened
  obtain ⟨t', htrip', hsooner⟩ := h.exists_roundTrip htrip (hentry ▸ hopen)
  rw [Outcome.trades_of_run hrun, mem_ledgerAt_iff_roundTrip] at ht
  -- what is closed by the last bar is reported
  refine ⟨t', ?_, htrip', hsooner⟩
  rw [Outcome.trades_of_run hrun', mem_ledgerAt_iff_roundTrip]
  exact ⟨hsooner.trans_lt ht.1, p, htrip'⟩

end Strategy

namespace Sample

/-- The sample strategy with a lower stop-loss, and one more rule to leave by. -/
def cautious : Strategy Float :=
  { strategy with
    stopLoss := some 0.03
    exitRules := ⟨"rsi > 90", .compare (.field .rsi) .gt (.constant 90)⟩ :: strategy.exitRules }

theorem leavesSooner_cautious : strategy.LeavesSooner cautious where
  entryRules := rfl
  fraction := rfl
  costs := rfl
  stopLoss := by
    rintro _ ⟨⟩
    exact ⟨0.03, rfl, by decide +kernel⟩
  takeProfit := by
    rintro _ ⟨⟩
    exact ⟨0.1, rfl, by decide +kernel⟩
  exitRules _ hr := List.mem_cons_of_mem _ hr

end Sample

/-- The sample strategy leaves its first position on the fourth bar for its rule, and the cautious
one on the third for its stop-loss. -/
theorem Strategy.sample_eager_exits_never_delay :
    ∃ o' p, Sample.cautious.run Sample.terms Sample.bars = .ok o' ∧
      Sample.strategy.FirstEntry Sample.terms Sample.bars 1 p ∧
      Sample.cautious.FirstEntry Sample.terms Sample.bars 1 p ∧
      (∃ t' ∈ o'.trades, Sample.cautious.RoundTrip Sample.terms Sample.bars p t' ∧
        t'.exitIndex ≤ 3) ∧
      (o'.trades.map Trade.exitIndex).head? = some 2 := by
  have hrun' : Sample.cautious.run Sample.terms Sample.bars =
      .ok (.ofDays (Sample.cautious.history Sample.terms Sample.bars)) := by
    refine run_eq_ok_iff.2 ⟨⟨?_, ?_, ?_⟩, ?_, rfl⟩ <;> decide +kernel
  obtain ⟨hentry, hexit⟩ :=
    eager_exits_never_delay Sample.leavesSooner_cautious Sample.run_eq hrun'
  have hfirst : ∃ t ∈ Sample.outcome.trades, t.entryIndex = 1 ∧ t.exitIndex = 3 := by
    decide +kernel
  obtain ⟨t, ht, hopened, hclosed⟩ := hfirst
  obtain ⟨-, p, htrip⟩ :=
    mem_ledgerAt_iff_roundTrip.1 (Outcome.trades_of_run Sample.run_eq ▸ ht)
  have hfirst : Sample.strategy.FirstEntry Sample.terms Sample.bars 1 p := by
    refine ⟨hopened ▸ htrip.opened, fun j hj q hopen ↦ ?_⟩
    have hj' := hopen.exists_bar.1
    omega
  obtain ⟨t', ht', htrip', hsooner⟩ := hexit 1 p hfirst t ht htrip
  exact ⟨_, p, hrun', hfirst, (hentry 1 p).1 hfirst, ⟨t', ht', htrip', hclosed ▸ hsooner⟩,
    by decide +kernel⟩

end BarReplay
