import BarReplay.Proofs.Replay.SideBySide
import BarReplay.Proofs.Rule.Fields
import Mathlib.Data.List.Forall2

/-!
# What a run depends on

A run reads of each bar its date, its close and the fields that the strategy names. Two sequences of
bars that agree on these give the same report or the same error, whatever is stored in all other
fields, be it nothing or no number. The two runs are followed side by side: on bars that agree, a
move of one is a move of the other (`Move.congr_bar`).

A value that is not finite is no value, so bars agree on a field as soon as neither has a finite
value for it.
-/

namespace BarReplay

variable {α : Type} [Arithmetic α]

/-- Two bars are the same to a reader of the given fields. -/
structure Bar.AgreeOn (fields : List Field) (bar bar' : Bar α) : Prop where
  date : bar.date = bar'.date
  close : bar.close = bar'.close
  values : ∀ f ∈ fields, bar.reading f = bar'.reading f

namespace Bar.AgreeOn

variable {fields : List Field} {bar bar' : Bar α} (h : Bar.AgreeOn fields bar bar')

include h

theorem fault?_eq (previous : Option Date) : bar.fault? previous = bar'.fault? previous := by
  unfold Bar.fault?
  rw [h.close, h.date]

theorem buy?_eq (costs : Costs α) (fraction : α) (index : Nat) (cash : α) :
    Position.buy? costs fraction index bar cash = Position.buy? costs fraction index bar' cash := by
  rw [Position.buy?, Position.buy?, h.close, h.date]

theorem sell_eq (p : Position α) (costs : Costs α) (index : Nat) (reason : ExitReason) :
    p.sell costs index bar reason = p.sell costs index bar' reason := by
  rw [Position.sell, Position.sell, h.close, h.date]

end Bar.AgreeOn

/-- The search for a faulty bar looks at dates and closes. -/
theorem firstFault?_eq_of_agreeOn {fields : List Field} {bars bars' : List (Bar α)}
    (h : List.Forall₂ (Bar.AgreeOn fields) bars bars') (index : Nat) (previous : Option Date) :
    firstFault? index previous bars = firstFault? index previous bars' := by
  induction h generalizing index previous with
  | nil => rfl
  | cons hbar _ ih => rw [firstFault?, firstFault?, hbar.fault?_eq, hbar.date, ih]

theorem barsError?_eq_of_agreeOn {fields : List Field} {bars bars' : List (Bar α)}
    (h : List.Forall₂ (Bar.AgreeOn fields) bars bars') :
    barsError? false bars = barsError? false bars' := by
  cases h with
  | nil => rfl
  | cons hbar hrest =>
    rw [barsError?_of_ne_nil (by simp), barsError?_of_ne_nil (by simp)]
    exact firstFault?_eq_of_agreeOn (.cons hbar hrest) 0 none

namespace Strategy

variable {s : Strategy α} {terms : Terms α} {bars bars' : List (Bar α)}

/-! ### One bar -/

section Bar

variable {bar bar' : Bar α} (h : Bar.AgreeOn s.fields bar bar')

include h

/-- The strategy enters on both bars or on neither. -/
theorem enters_eq_of_agreeOn : s.enters bar.reading = s.enters bar'.reading := by
  rw [enters, enters, Rule.anyHolds, Rule.anyHolds, Rule.firstHolding?_eq_of_fields]
  intro r hr f hf
  exact h.values f (mem_fields_iff.2 ⟨r, List.mem_append_left _ hr, hf⟩)

/-- The strategy leaves a position on both bars or on neither, and for the same reason. -/
theorem exit?_eq_of_agreeOn (p : Position α) : s.exit? p bar = s.exit? p bar' := by
  have hrules : Rule.firstHolding? s.exitRules bar.reading =
      Rule.firstHolding? s.exitRules bar'.reading := by
    refine Rule.firstHolding?_eq_of_fields fun r hr f hf ↦ ?_
    exact h.values f (mem_fields_iff.2 ⟨r, List.mem_append_right _ hr, hf⟩)
  rw [exit?, exit?, h.close, hrules]

/-- A move on one bar is a move on the other. -/
theorem Move.congr_bar {costs : Costs α} {index : Nat} {before after : Standing α}
    {closed : Option (Trade α)} (hmove : s.Move costs index bar before after closed) :
    s.Move costs index bar' before after closed := by
  cases hmove with
  | wait cash pass =>
    rw [enters_eq_of_agreeOn h, h.buy?_eq] at pass
    exact .wait cash pass
  | buy cash p signal bought =>
    rw [enters_eq_of_agreeOn h] at signal
    rw [h.buy?_eq] at bought
    exact .buy cash p signal bought
  | hold cash p keep =>
    rw [exit?_eq_of_agreeOn h] at keep
    exact .hold cash p keep
  | sell cash p reason signal =>
    rw [exit?_eq_of_agreeOn h] at signal
    rw [h.sell_eq]
    exact .sell cash p reason signal

end Bar

/-! ### Whole runs -/

section Runs

variable (h : List.Forall₂ (Bar.AgreeOn s.fields) bars bars')

include h

variable (terms) in
/-- On bars that agree the account and the ledger are the same at every bar. -/
theorem standingAt_eq_of_agreeOn (n : Nat) (hn : 1 + n ≤ bars.length) :
    s.standingAt terms bars (1 + n) = s.standingAt terms bars' (1 + n) ∧
      s.ledgerAt terms bars (1 + n) = s.ledgerAt terms bars' (1 + n) := by
  refine paired_induction s s terms terms
    (motive := fun _ account ledger account' ledger' ↦ account = account' ∧ ledger = ledger')
    (Nat.le_refl 1) (Nat.le_refl 1) ?_ ?_ n hn (h.length_eq ▸ hn)
  · simp only [standingAt_one, ledgerAt_one, and_self]
  · rintro n bar bar' before before' after after' closed closed' ledger ledger' hbar hbar' hmove
      hmove' ⟨rfl, rfl⟩
    have hagree : Bar.AgreeOn s.fields bar bar' := by
      obtain ⟨hi, rfl⟩ := List.getElem?_eq_some_iff.1 hbar
      obtain ⟨hi', rfl⟩ := List.getElem?_eq_some_iff.1 hbar'
      exact h.get hi hi'
    obtain ⟨rfl, rfl⟩ := (hmove.congr_bar hagree).unique hmove'
    exact ⟨rfl, rfl⟩

/-- Runs over bars that agree report the same if they succeed. -/
theorem outcome_eq_of_agreeOn {o o' : Outcome α} (ho : s.run terms bars = .ok o)
    (ho' : s.run terms bars' = .ok o') : o = o' := by
  have hlength : bars.length = bars'.length := h.length_eq
  obtain ⟨m, hm⟩ : ∃ m, bars.length = 1 + m := Nat.exists_eq_add_of_le (length_pos_of_run ho)
  obtain ⟨hstanding, hledger⟩ := standingAt_eq_of_agreeOn terms h m hm.ge
  refine Outcome.eq_of_runs ho ho' hlength (List.ext_getElem? fun i ↦ ?_) ?_ ?_
  · rw [Outcome.getElem?_equity_of_run ho, Outcome.getElem?_equity_of_run ho']
    rcases hbar : bars[i]? with - | bar
    · rw [List.getElem?_eq_none (hlength ▸ List.getElem?_eq_none_iff.1 hbar)]
      rfl
    · obtain ⟨hi, rfl⟩ := List.getElem?_eq_some_iff.1 hbar
      have hclose : bars[i].close = bars'[i].close := (h.get hi (hlength ▸ hi)).close
      rw [List.getElem?_eq_getElem (hlength ▸ hi), Option.map_some, Option.map_some, hclose,
        Nat.add_comm i, (standingAt_eq_of_agreeOn terms h i (by omega)).1]
  · rw [Outcome.trades_of_run ho, Outcome.trades_of_run ho', ← hlength, hm, hledger]
  · rw [Outcome.position_of_run ho, Outcome.position_of_run ho', ← hlength, hm, hstanding]

/-- Runs over bars that agree have the same result. -/
theorem run_eq_of_agreeOn : s.run terms bars = s.run terms bars' := by
  -- terms that are not sound fail before any bar is looked at
  by_cases hsound : terms.Sound s
  · have herror : barsError? false bars = barsError? false bars' := barsError?_eq_of_agreeOn h
    rcases hbars : barsError? false bars with - | e
    · have ho := run_eq_ok_iff.2 ⟨hsound, hbars, rfl⟩
      have ho' := run_eq_ok_iff.2 ⟨hsound, herror ▸ hbars, rfl⟩
      rw [ho, ho', outcome_eq_of_agreeOn h ho ho']
    · rw [(run_eq_error_iff_of_sound hsound).2 hbars,
        (run_eq_error_iff_of_sound hsound).2 (herror ▸ hbars)]
  · obtain ⟨which, value, hrun⟩ := run_of_not_sound hsound
    rw [hrun, hrun]

end Runs

variable (s terms) in
/-- **A run reads only what the strategy names.** Bars that agree, one by one, on their dates, their
closes and the defined values of the fields that the strategy reads give the same report or the same
error. A rule has the same truth under any two readings that agree on its fields, whatever they are
readings of. -/
theorem run_reads_only_fields :
    (∀ bars bars' : List (Bar α), List.Forall₂ (Bar.AgreeOn s.fields) bars bars' →
      s.run terms bars = s.run terms bars') ∧
      ∀ (e : Expr α) (r r' : Reading α), (∀ f ∈ e.fields, r f = r' f) →
        e.truth r = e.truth r' ∧ e.holds r = e.holds r' :=
  ⟨fun _ _ ↦ run_eq_of_agreeOn,
    fun _ _ _ h ↦ ⟨Expr.truth_eq_of_fields h, Expr.holds_eq_of_fields h⟩⟩

end Strategy

namespace Sample

/-- The sample bars, with more stored in them than the sample strategy reads. -/
def noisyBars : List (Bar Float) :=
  bars.map fun bar ↦
    { bar with macd := some (0 / 0), bbHigh := some (1 / 0), sma20 := some bar.close }

/-- A record by name. A name in capitals is no name of a field. -/
def recordByName : Reading Float :=
  .ofNames (((∅ : Std.HashMap String (Option Float)).insert "rsi" (some 25)).insert "RSI" none)

end Sample

/-- The sample run reads the RSI and takes no notice of what else is stored. Its entry rule holds on
a record by name because it holds on the bar with the same RSI. -/
theorem Strategy.sample_reads_only_fields :
    Sample.strategy.fields = [.rsi] ∧
      List.Forall₂ (Bar.AgreeOn Sample.strategy.fields) Sample.bars Sample.noisyBars ∧
      Sample.strategy.run Sample.terms Sample.noisyBars = .ok Sample.outcome ∧
      Sample.strategy.entryRules.map (fun r ↦ r.expr.holds Sample.recordByName) = [true] := by
  have hfields : Sample.strategy.fields = [.rsi] := by decide
  have hagree : List.Forall₂ (Bar.AgreeOn Sample.strategy.fields) Sample.bars Sample.noisyBars := by
    rw [hfields, Sample.noisyBars, List.forall₂_map_right_iff, List.forall₂_same]
    rintro bar -
    exact ⟨rfl, rfl, fun f hf ↦ by rw [List.mem_singleton.1 hf]; rfl⟩
  obtain ⟨hruns, hrules⟩ := run_reads_only_fields Sample.strategy Sample.terms
  refine ⟨hfields, hagree, (hruns _ _ hagree).symm.trans Sample.run_eq, ?_⟩
  have hrecord : ∀ f ∈ [Field.rsi], (Sample.bar 1 100 25).reading f = Sample.recordByName f := by
    simp [Sample.recordByName, Sample.bar, Reading.ofNames, Reading.ofValues, Bar.reading,
      Bar.stored, Field.name, Std.HashMap.getElem?_insert]
  have hrule := (hrules (.compare (.field .rsi) .lt (.constant 30)) _ _ hrecord).2
  have hbar : (Expr.compare (.field .rsi) .lt (.constant 30)).holds
      (Sample.bar 1 100 25).reading = true := by decide +kernel
  simp only [Sample.strategy, List.map_cons, List.map_nil, ← hrule, hbar]

end BarReplay
