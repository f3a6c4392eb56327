import BarReplay.Proofs.Replay.Holding

/-!
# Causality

A run never looks ahead. Cut after any bar, it does on the bars before the cut what it does when the
later bars are there: it fails if and only if the fault lies before the cut, with the same error,
and if it succeeds, it reports what the longer run had come to at the cut.
-/

namespace BarReplay

variable {α : Type} [Arithmetic α]

/-- The search for a faulty bar finds one before the cut, and if there is none, one behind it. -/
theorem barsError?_take_or {bars : List (Bar α)} {k : Nat} (hk : 1 ≤ k) (hne : bars ≠ []) :
    ∃ previous, barsError? false bars = (barsError? false (bars.take k)).or
      (firstFault? (bars.take k).length previous (bars.drop k)) := by
  have hne' : bars.take k ≠ [] := by
    simp only [ne_eq, List.take_eq_nil_iff, hne, or_false]
    omega
  refine ⟨((bars.take k).getLast?.map Bar.date).or none, ?_⟩
  rw [barsError?_of_ne_nil hne, barsError?_of_ne_nil hne']
  conv_lhs => rw [← List.take_append_drop k bars]
  rw [firstFault?_append, Nat.zero_add]

namespace Strategy

variable {s : Strategy α} {terms : Terms α} {bars : List (Bar α)} {k : Nat}

/-- A run that fails on the first bars fails in the same way on all of them. -/
theorem run_eq_error_of_take (hk : 1 ≤ k) {e : RunError α}
    (h : s.run terms (bars.take k) = .error e) : s.run terms bars = .error e := by
  rcases eq_or_ne bars [] with rfl | hne
  · simpa using h
  by_cases hsound : terms.Sound s
  · rw [run_eq_error_iff_of_sound hsound] at h ⊢
    obtain ⟨previous, hsplit⟩ := barsError?_take_or hk hne
    rwa [h, Option.some_or] at hsplit
  · obtain ⟨which, value, hrun⟩ := run_of_not_sound hsound
    rw [hrun] at h ⊢
    exact h

/-- A run that succeeds on all bars succeeds on the first of them, with its history up to there. -/
theorem run_take_eq_ok (hk : 1 ≤ k) {o : Outcome α} (h : s.run terms bars = .ok o) :
    s.run terms (bars.take k) = .ok (.ofDays ((s.history terms bars).take k)) := by
  obtain ⟨hsound, hbars, -⟩ := run_eq_ok_iff.1 h
  refine run_eq_ok_iff.2 ⟨hsound, ?_, by rw [take_history]⟩
  obtain ⟨previous, hsplit⟩ := barsError?_take_or hk (ne_nil_of_barsError?_eq_none hbars)
  rw [hbars] at hsplit
  exact (Option.or_eq_none_iff.1 hsplit.symm).1

/-- A run that fails on a bar succeeds on the bars before it. -/
theorem run_take_of_bar_error (hk : 1 ≤ k) {i : Nat} {date : Date} {fault : BarFault α}
    (h : s.run terms bars = .error (.bar i date fault)) :
    (k ≤ i → ∃ o, s.run terms (bars.take k) = .ok o) ∧
      (i < k → s.run terms (bars.take k) = .error (.bar i date fault)) := by
  have hsound : terms.Sound s := by
    by_contra hsound
    obtain ⟨which, value, hrun⟩ := run_of_not_sound hsound
    rw [hrun] at h
    cases h
  rw [run_eq_error_iff_of_sound hsound] at h ⊢
  have hne : bars ≠ [] := by
    rintro rfl
    cases h
  obtain ⟨previous, hsplit⟩ := barsError?_take_or hk hne
  rw [h] at hsplit
  have hlen : (bars.take k).length = min k bars.length := List.length_take
  rcases htake : barsError? false (bars.take k) with - | e
  · -- the fault lies behind the cut
    rw [htake, Option.none_or] at hsplit
    obtain ⟨j, date', fault', he, hlo, hhi⟩ := index_of_firstFault? hsplit.symm
    obtain ⟨rfl, -, -⟩ := RunError.bar.inj he
    rw [List.length_drop] at hhi
    refine ⟨fun _ ↦ ⟨_, run_eq_ok_iff.2 ⟨hsound, htake, rfl⟩⟩, fun hlt ↦ ?_⟩
    omega
  · -- the fault lies before the cut
    rw [htake, Option.some_or] at hsplit
    obtain rfl := Option.some.inj hsplit
    refine ⟨fun hle ↦ ?_, fun _ ↦ rfl⟩
    have hne' : bars.take k ≠ [] := by
      rintro hnil
      rw [hnil] at htake
      cases htake
    rw [barsError?_of_ne_nil hne'] at htake
    obtain ⟨j, date', fault', he, -, hhi⟩ := index_of_firstFault? htake
    obtain ⟨rfl, -, -⟩ := RunError.bar.inj he
    omega

/-- **A run never looks ahead.** Cut after its first `k` bars, it fails only where it fails anyway;
it fails on a bar exactly if that bar comes before the cut; and if it succeeds, then so does the cut
run, with the first `k` values of the equity curve, the trades closed on the first `k` bars, and the
position held after them. -/
theorem run_take (hk : 1 ≤ k) (hle : k ≤ bars.length) :
    (∀ e, s.run terms (bars.take k) = .error e → s.run terms bars = .error e) ∧
      (∀ i date fault, s.run terms bars = .error (.bar i date fault) →
        (k ≤ i → ∃ o, s.run terms (bars.take k) = .ok o) ∧
          (i < k → s.run terms (bars.take k) = .error (.bar i date fault))) ∧
      ∀ o, s.run terms bars = .ok o → ∃ cut, s.run terms (bars.take k) = .ok cut ∧
        cut.equity = o.equity.take k ∧
        (cut.trades = o.trades.filter fun t ↦ t.exitIndex < k) ∧
        cut.position = (s.standingAt terms bars k).position := by
  refine ⟨fun e ↦ run_eq_error_of_take hk, fun i date fault ↦ run_take_of_bar_error hk,
    fun o h ↦ ⟨_, run_take_eq_ok hk h, ?_, ?_, ?_⟩⟩
  · obtain ⟨-, -, rfl⟩ := run_eq_ok_iff.1 h
    exact List.map_take
  · rw [Outcome.trades_of_run h, ← ledgerAt_eq_filter hle]
    rfl
  · exact Outcome.position_ofDays terms.capital _

/-- Cut after its fifth bar, the sample run has closed one of its trades and holds the position
that it sells on the next bar. The same bars fail if the fourth has no price, but not before it. -/
theorem sample_run_take :
    (1 ≤ 5 ∧ 5 ≤ Sample.bars.length) ∧
      (∃ cut, Sample.strategy.run Sample.terms (Sample.bars.take 5) = .ok cut ∧
        cut.equity = Sample.outcome.equity.take 5 ∧
        (cut.trades = Sample.outcome.trades.filter fun t ↦ t.exitIndex < 5) ∧
        cut.position = (Sample.strategy.standingAt Sample.terms Sample.bars 5).position) ∧
      (Sample.outcome.trades.map Trade.exitIndex = [3, 5]) ∧
      ∃ o, Sample.strategy.run Sample.terms
        ((Sample.bars.set 3 (Sample.bar 3 0 75)).take 3) = .ok o :=
  ⟨by decide, (run_take (by decide) (by decide)).2.2 _ Sample.run_eq, by decide +kernel,
    ((run_take (by decide) (by decide)).2.1 3 (Sample.bar 3 0 75).date (.close 0)
      ((run_eq_error_iff_of_sound (run_eq_ok_iff.1 Sample.run_eq).1).2 (by decide +kernel))).1
      (by decide)⟩

end Strategy

end BarReplay
