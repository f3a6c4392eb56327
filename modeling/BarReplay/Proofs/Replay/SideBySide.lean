import BarReplay.Proofs.Replay.History

/-!
# Two runs side by side

Statements about two runs follow both from bar to bar. The runs may differ in anything: in their
strategies, their terms, their bars, and in the bars from which they are followed. What is to relate
the two accounts and the two ledgers is shown of one move of each, and carried along the bars by
`paired_induction`.

A move is settled by the account before it and by the bar (`Move.unique`). So if the move of one run
is also possible in the other, it is the one that the other makes.
-/

namespace BarReplay

namespace Strategy

variable {α : Type} [Arithmetic α] {s s' : Strategy α}

/-- An account makes one move on a bar. -/
theorem Move.unique {costs : Costs α} {index : Nat} {bar : Bar α} {before after after' : Standing α}
    {closed closed' : Option (Trade α)} (h : s.Move costs index bar before after closed)
    (h' : s.Move costs index bar before after' closed') : after = after' ∧ closed = closed' := by
  -- two moves of different kinds need opposite signals
  cases h with
  | wait cash pass =>
    cases h' with
    | wait => exact ⟨rfl, rfl⟩
    | buy _ q signal bought => simp [pass signal] at bought
  | buy cash p signal bought =>
    cases h' with
    | wait _ pass => simp [pass signal] at bought
    | buy _ q _ bought' =>
      obtain rfl : p = q := Option.some.inj (bought.symm.trans bought')
      exact ⟨rfl, rfl⟩
  | hold cash p keep =>
    cases h' with
    | hold => exact ⟨rfl, rfl⟩
    | sell _ _ reason signal => simp [keep] at signal
  | sell cash p reason signal =>
    cases h' with
    | hold _ _ keep => simp [keep] at signal
    | sell _ _ reason' signal' =>
      obtain rfl : reason = reason' := Option.some.inj (signal.symm.trans signal')
      exact ⟨rfl, rfl⟩

variable {terms terms' : Terms α} {bars bars' : List (Bar α)}

variable (s s' terms terms') in
/-- **What every two moves keep holds all along two runs.** A property of both accounts and both
ledgers that holds when one run reaches bar `i` and the other bar `i'`, and that is kept whenever
both make a move, holds after any number of further bars. -/
theorem paired_induction
    {motive : Nat → Standing α → List (Trade α) → Standing α → List (Trade α) → Prop} {i i' : Nat}
    (hi : 1 ≤ i) (hi' : 1 ≤ i')
    (start : motive 0 (s.standingAt terms bars i) (s.ledgerAt terms bars i)
      (s'.standingAt terms' bars' i') (s'.ledgerAt terms' bars' i'))
    (step : ∀ {n bar bar' before before' after after' closed closed' ledger ledger'},
      bars[i + n]? = some bar → bars'[i' + n]? = some bar' →
        s.Move (terms.rates s) (i + n) bar before after closed →
          s'.Move (terms'.rates s') (i' + n) bar' before' after' closed' →
            motive n before ledger before' ledger' →
              motive (n + 1) after (ledger ++ closed.toList) after' (ledger' ++ closed'.toList))
    (n : Nat) (hn : i + n ≤ bars.length) (hn' : i' + n ≤ bars'.length) :
    motive n (s.standingAt terms bars (i + n)) (s.ledgerAt terms bars (i + n))
      (s'.standingAt terms' bars' (i' + n)) (s'.ledgerAt terms' bars' (i' + n)) := by
  induction n with
  | zero => exact start
  | succ n ih =>
    have hbar : bars[i + n]? = some bars[i + n] := List.getElem?_eq_getElem hn
    have hbar' : bars'[i' + n]? = some bars'[i' + n] := List.getElem?_eq_getElem hn'
    rw [← Nat.add_assoc, ← Nat.add_assoc, s.standingAt_succ terms (by omega) hbar,
      s.ledgerAt_succ terms (by omega) hbar, s'.standingAt_succ terms' (by omega) hbar',
      s'.ledgerAt_succ terms' (by omega) hbar']
    exact step hbar hbar' (s.advance_move _ _ _ _) (s'.advance_move _ _ _ _)
      (ih (by omega) (by omega))

end Strategy

/-! ### Equal reports -/

section Reports

variable {α : Type} [Arithmetic α] {s s' : Strategy α} {terms terms' : Terms α}
  {bars bars' : List (Bar α)} {o o' : Outcome α}

/-- Two runs over as many bars report the same if their equity curves, their trades and their
positions are the same. -/
theorem Outcome.eq_of_runs (h : s.run terms bars = .ok o) (h' : s'.run terms' bars' = .ok o')
    (hlength : bars.length = bars'.length) (hequity : o.equity = o'.equity)
    (htrades : o.trades = o'.trades) (hposition : o.position = o'.position) : o = o' := by
  have hmetrics : o.metrics = o'.metrics := by
    rw [metrics_of_run h, metrics_of_run h', hequity, htrades, hlength]
  cases o
  cases o'
  simp_all

end Reports

end BarReplay
