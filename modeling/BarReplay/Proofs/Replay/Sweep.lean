import BarReplay.Proofs.Replay.Failure
import BarReplay.Proofs.Strategy.Acceptance

/-!
# The runs of a sweep

The runs of a sweep share their bars and their terms, and differ in nothing but the strategy. A run
fails with the first flaw of its input, and an accepted strategy contributes to that input only
rates that are in order. So a flaw is one of the terms or of the bars, and the runs of accepted
strategies succeed or fail together (`sweep_all_or_none`).
-/

namespace BarReplay

variable {terms : Terms Float} {bars : List (Bar Float)}

/-- A rate that overrides one amount or another is in order in both cases or in neither, and if it
is not, it is the same rate. -/
theorem overridden_rate (override : Option Float) {x y : Float} (hx : IsAmount x)
    (hy : IsAmount y) :
    (IsAmount (override.getD x) → IsAmount (override.getD y)) ∧
      (¬ IsAmount (override.getD x) → override.getD x = override.getD y) := by
  cases override with
  | none => exact ⟨fun _ ↦ hy, fun hbad ↦ absurd hx hbad⟩
  | some rate => exact ⟨id, fun _ ↦ rfl⟩

namespace Strategy.Accepted

variable {s s' : Strategy Float} (h : s.Accepted) (h' : s'.Accepted)

include h h'

/-- What is wrong with the input of one accepted strategy is wrong with that of any other. -/
theorem firstFlaw {e : RunError Float}
    (hflaw : FirstFlaw terms.capital (terms.rates s) bars e) :
    FirstFlaw terms.capital (terms.rates s') bars e := by
  obtain ⟨hc, hs⟩ := h.costs
  obtain ⟨hc', hs'⟩ := h'.costs
  have hcommission : (IsAmount (terms.rates s).commission → IsAmount (terms.rates s').commission) ∧
      (¬ IsAmount (terms.rates s).commission →
        (terms.rates s).commission = (terms.rates s').commission) :=
    overridden_rate terms.commission (isNonNegative_iff.1 hc) (isNonNegative_iff.1 hc')
  have hslippage : (IsAmount (terms.rates s).slippage → IsAmount (terms.rates s').slippage) ∧
      (¬ IsAmount (terms.rates s).slippage →
        (terms.rates s).slippage = (terms.rates s').slippage) :=
    overridden_rate terms.slippage (isNonNegative_iff.1 hs) (isNonNegative_iff.1 hs')
  obtain ⟨goodCommission, sameCommission⟩ := hcommission
  obtain ⟨goodSlippage, sameSlippage⟩ := hslippage
  cases hflaw with
  | capital bad => exact .capital bad
  | commission good bad =>
    have hsame : (terms.rates s).commission = (terms.rates s').commission := sameCommission bad
    rw [hsame] at bad ⊢
    exact .commission good bad
  | slippage good bad =>
    have hsame : (terms.rates s).slippage = (terms.rates s').slippage := sameSlippage bad
    rw [hsame] at bad ⊢
    exact .slippage ⟨good.1, goodCommission good.2⟩ bad
  | noBars good bad =>
    exact .noBars ⟨good.1, goodCommission good.2.1, goodSlippage good.2.2⟩ bad
  | bar good bad first =>
    exact .bar ⟨good.1, goodCommission good.2.1, goodSlippage good.2.2⟩ bad first

/-- Accepted strategies fail together, and in the same way. -/
theorem run_eq_error {e : RunError Float} (he : s.run terms bars = .error e) :
    s'.run terms bars = .error e :=
  run_eq_error_of_firstFlaw (h.firstFlaw h' (run_eq_error_iff_firstFlaw.1 he))

/-- Accepted strategies succeed together. -/
theorem exists_run {o : Outcome Float} (ho : s.run terms bars = .ok o) :
    ∃ o', s'.run terms bars = .ok o' := by
  rcases hrun : s'.run terms bars with e | o'
  · rw [h'.run_eq_error h hrun] at ho
    cases ho
  · exact ⟨o', rfl⟩

end Strategy.Accepted

/-- Each result of a sweep is the run of its strategy. -/
theorem getElem?_sweep {α : Type} [Arithmetic α] (strategies : List (Strategy α))
    (terms : Terms α) (bars : List (Bar α)) (i : Nat) :
    (sweep strategies terms bars false)[i]? = strategies[i]?.map fun s ↦ s.run terms bars := by
  rw [sweep, List.getElem?_map]
  rfl

/-- **The runs of accepted strategies over the same bars all succeed, or all fail in the same
way.** -/
theorem sweep_all_or_none {strategies : List (Strategy Float)}
    (h : ∀ s ∈ strategies, s.Accepted) :
    (∀ s ∈ strategies, ∃ o, s.run terms bars = .ok o) ∨
      ∃ e, ∀ s ∈ strategies, s.run terms bars = .error e := by
  cases strategies with
  | nil => exact .inl (by simp)
  | cons first rest =>
    have hfirst : first.Accepted := h first List.mem_cons_self
    rcases hrun : first.run terms bars with e | o
    · exact .inr ⟨e, fun s hs ↦ hfirst.run_eq_error (h s hs) hrun⟩
    · exact .inl fun s hs ↦ hfirst.exists_run (h s hs) hrun

end BarReplay
