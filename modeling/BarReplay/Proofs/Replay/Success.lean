import BarReplay.Replay.Run
import Mathlib.Tactic.SplitIfs

/-!
# When a run succeeds

A run settles its terms, looks through its bars, and only then trades; nothing that happens after
that can make it fail. So a run succeeds exactly when its terms are sound and no bar is at fault,
and what it reports is then read off its history (`Strategy.run_eq_ok_iff`). Under sound terms it
fails for its bars (`Strategy.run_eq_error_iff_of_sound`), and under other terms for a parameter,
whatever the bars are (`Strategy.run_of_not_sound`).

`Terms.rates` names the rates in effect outright, so that later statements need not speak of how
they were checked. The search for a faulty bar goes through the bars from left to right, and is
described by where it is cut (`firstFault?_append`): this is what makes it blind to later bars. A
search that finds nothing certifies that the dates rise (`dates_rise`).
-/

namespace BarReplay

variable {α : Type} [Arithmetic α]

/-! ### The rates in effect -/

/-- The rates that are in effect for a strategy: those of the terms, and those of the strategy where
the terms state none. -/
def Terms.rates (terms : Terms α) (s : Strategy α) : Costs α :=
  ⟨terms.commission.getD s.costs.commission, terms.slippage.getD s.costs.slippage⟩

/-- The capital and the rates in effect are zero or more. -/
structure Terms.Sound (terms : Terms α) (s : Strategy α) : Prop where
  capital : isNonNegative terms.capital = true
  commission : isNonNegative (terms.rates s).commission = true
  slippage : isNonNegative (terms.rates s).slippage = true

/-- The capital is looked at first, then the commission, then the slippage. -/
theorem Terms.settle_eq (terms : Terms α) (s : Strategy α) :
    terms.settle s =
      if isNonNegative terms.capital then
        if isNonNegative (terms.rates s).commission then
          if isNonNegative (terms.rates s).slippage then .ok (terms.capital, terms.rates s)
          else .error (.parameter .slippage (terms.rates s).slippage)
        else .error (.parameter .commission (terms.rates s).commission)
      else .error (.parameter .capital terms.capital) := by
  unfold settle costsFor checked rates
  split_ifs <;> rfl

/-- Settling sound terms gives the capital and the rates in effect. -/
theorem Terms.settle_of_sound {terms : Terms α} {s : Strategy α} (h : terms.Sound s) :
    terms.settle s = .ok (terms.capital, terms.rates s) := by
  rw [settle_eq, if_pos h.capital, if_pos h.commission, if_pos h.slippage]

/-- Terms that are not sound are refused for one of their parameters. -/
theorem Terms.settle_of_not_sound {terms : Terms α} {s : Strategy α} (h : ¬ terms.Sound s) :
    ∃ which value, terms.settle s = .error (.parameter which value) := by
  rw [settle_eq]
  split_ifs with hcapital hcommission hslippage
  · exact absurd ⟨hcapital, hcommission, hslippage⟩ h
  · exact ⟨_, _, rfl⟩
  · exact ⟨_, _, rfl⟩
  · exact ⟨_, _, rfl⟩

/-! ### The search for a faulty bar -/

/-- A search through two stretches of bars goes on with the second, with the index and the date
that the first leaves, if the first has no fault. -/
theorem firstFault?_append (index : Nat) (previous : Option Date) (xs ys : List (Bar α)) :
    firstFault? index previous (xs ++ ys) =
      (firstFault? index previous xs).or
        (firstFault? (index + xs.length) ((xs.getLast?.map Bar.date).or previous) ys) := by
  induction xs generalizing index previous with
  | nil => simp [firstFault?]
  | cons bar rest ih =>
    rw [List.cons_append, firstFault?, firstFault?]
    rcases bar.fault? previous with - | fault
    · -- the second stretch goes on from the last date of the first, be it that of `bar`
      have hlast : (rest.getLast?.map Bar.date).or (some bar.date) =
          ((bar :: rest).getLast?.map Bar.date).or previous := by
        rcases h : rest.getLast? with - | last <;> simp [List.getLast?_cons, h]
      rw [ih, hlast, List.length_cons, Nat.add_assoc, Nat.add_comm 1]
    · rfl

/-- What a search finds is a bar among those searched, named by its index. -/
theorem index_of_firstFault? {index : Nat} {previous : Option Date} {bars : List (Bar α)}
    {e : RunError α} (h : firstFault? index previous bars = some e) :
    ∃ i date fault, e = .bar i date fault ∧ index ≤ i ∧ i < index + bars.length := by
  induction bars generalizing index previous with
  | nil => cases h
  | cons bar rest ih =>
    rw [firstFault?] at h
    rcases hf : bar.fault? previous with - | fault <;> rw [hf] at h
    · obtain ⟨i, date, fault, he, hlo, hhi⟩ := ih h
      refine ⟨i, date, fault, he, by omega, ?_⟩
      rw [List.length_cons]
      omega
    · exact ⟨index, bar.date, fault, (Option.some.inj h).symm, Nat.le_refl _, by simp⟩

/-- A bar without fault comes after the date before it. -/
theorem Bar.lt_of_fault?_eq_none {bar : Bar α} {date : Date} (h : bar.fault? (some date) = none) :
    date < bar.date := by
  unfold Bar.fault? at h
  split at h
  · simpa using h
  · cases h

/-- If no bar is at fault, the dates rise from bar to bar, and from the date before the first. -/
theorem dates_rise {index : Nat} {previous : Option Date} {bars : List (Bar α)}
    (h : firstFault? index previous bars = none) :
    bars.Pairwise (fun a b ↦ a.date < b.date) ∧ ∀ d ∈ previous, ∀ bar ∈ bars, d < bar.date := by
  induction bars generalizing index previous with
  | nil => simp
  | cons bar rest ih =>
    rw [firstFault?] at h
    rcases hf : bar.fault? previous with - | fault <;> rw [hf] at h
    · obtain ⟨hrest, hfirst⟩ := ih h
      have hlater : ∀ later ∈ rest, bar.date < later.date := hfirst bar.date rfl
      refine ⟨List.pairwise_cons.2 ⟨hlater, hrest⟩, ?_⟩
      rintro d rfl later hmem
      have hd : d < bar.date := Bar.lt_of_fault?_eq_none hf
      rcases List.mem_cons.1 hmem with rfl | hmem
      · exact hd
      · exact Int.lt_trans hd (hlater later hmem)
    · cases h

/-- A run that is not cancelled fails for want of bars, or for the first bar at fault. -/
theorem barsError?_of_ne_nil {bars : List (Bar α)} (h : bars ≠ []) :
    barsError? false bars = firstFault? 0 none bars := by
  cases bars with
  | nil => exact absurd rfl h
  | cons first rest => simp [barsError?]

theorem ne_nil_of_barsError?_eq_none {cancelled : Bool} {bars : List (Bar α)}
    (h : barsError? cancelled bars = none) : bars ≠ [] := by
  rintro rfl
  cases h

/-! ### Success and failure -/

namespace Strategy

variable {s : Strategy α} {terms : Terms α} {bars : List (Bar α)}

/-- The days of a run under the given terms. -/
def history (s : Strategy α) (terms : Terms α) (bars : List (Bar α)) : List (Day α) :=
  s.days (terms.rates s) terms.capital bars

/-- A run fails if its terms cannot be settled, cancelled or not. -/
theorem replay_of_settle_error {e : RunError α} (h : terms.settle s = .error e)
    (cancelled : Bool) : s.replay terms bars cancelled = .error e := by
  unfold replay
  rw [h]
  rfl

/-- A run under sound terms is decided by its bars, and by whether it is cancelled. -/
theorem replay_of_sound (h : terms.Sound s) (cancelled : Bool) :
    s.replay terms bars cancelled =
      match barsError? cancelled bars with
      | some e => .error e
      | none => .ok (Outcome.ofDays (s.history terms bars)) := by
  unfold replay
  rw [Terms.settle_of_sound h]
  rfl

/-- A run under sound terms is decided by its bars. -/
theorem run_of_sound (h : terms.Sound s) :
    s.run terms bars =
      match barsError? false bars with
      | some e => .error e
      | none => .ok (Outcome.ofDays (s.history terms bars)) :=
  replay_of_sound h false

/-- A run under other terms fails for a parameter, whatever its bars. -/
theorem run_of_not_sound (h : ¬ terms.Sound s) :
    ∃ which value, ∀ bars, s.run terms bars = .error (.parameter which value) := by
  obtain ⟨which, value, hsettle⟩ := Terms.settle_of_not_sound h
  exact ⟨which, value, fun bars ↦ replay_of_settle_error hsettle false⟩

/-- A run succeeds exactly when its terms are sound and its bars have no fault, and it reports its
history. -/
theorem run_eq_ok_iff {o : Outcome α} :
    s.run terms bars = .ok o ↔
      terms.Sound s ∧ barsError? false bars = none ∧ o = Outcome.ofDays (s.history terms bars) := by
  by_cases hsound : terms.Sound s
  · rw [run_of_sound hsound]
    rcases barsError? false bars with - | e <;> simp [hsound, eq_comm]
  · obtain ⟨which, value, hrun⟩ := run_of_not_sound hsound
    simp [hrun, hsound]

/-- A run that succeeds has bars. -/
theorem length_pos_of_run {o : Outcome α} (h : s.run terms bars = .ok o) : 0 < bars.length := by
  obtain ⟨-, hbars, -⟩ := run_eq_ok_iff.1 h
  exact List.length_pos_iff.2 (ne_nil_of_barsError?_eq_none hbars)

/-- Under sound terms a run fails with what is wrong with its bars. -/
theorem run_eq_error_iff_of_sound (h : terms.Sound s) {e : RunError α} :
    s.run terms bars = .error e ↔ barsError? false bars = some e := by
  rw [run_of_sound h]
  rcases barsError? false bars with - | e' <;> simp

end Strategy

end BarReplay
