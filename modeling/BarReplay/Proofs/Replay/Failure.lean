import BarReplay.Proofs.Replay.ByBar
import Mathlib.Data.List.Chain

/-!
# How a run fails

A run fails on bad input and on nothing else. What counts as input are the capital, the rates in
effect and the bars: `SoundInput` says when they are good, and `FirstFlaw` names the first thing
wrong with them when they are not. Neither looks at the rules, the thresholds or the share of the
account that an entry commits, so whatever a strategy does with its money, it can neither cause a
failure nor hide one.

The search for a faulty bar is a recursion that carries the date of the bar before. `FaultAt` says
what is wrong with one bar of a list in terms of that list alone, and the search finds the least
index at which it holds (`firstFault?_eq_some_iff`).
-/

namespace BarReplay

variable {α : Type} [Arithmetic α]

/-! ### Amounts and prices -/

/-- A finite amount that is zero or more. -/
def IsAmount (x : α) : Prop :=
  Arithmetic.isFinite x = true ∧ 0 ≤ x

/-- A finite amount above zero. -/
def IsPrice (x : α) : Prop :=
  Arithmetic.isFinite x = true ∧ 0 < x

instance (x : α) : Decidable (IsAmount x) :=
  inferInstanceAs (Decidable (_ ∧ _))

instance (x : α) : Decidable (IsPrice x) :=
  inferInstanceAs (Decidable (_ ∧ _))

theorem isNonNegative_iff {x : α} : isNonNegative x = true ↔ IsAmount x := by
  simp [isNonNegative, IsAmount]

theorem isPositive_iff {x : α} : isPositive x = true ↔ IsPrice x := by
  simp [isPositive, IsPrice]

theorem Terms.sound_iff {terms : Terms α} {s : Strategy α} :
    terms.Sound s ↔ IsAmount terms.capital ∧ IsAmount (terms.rates s).commission ∧
      IsAmount (terms.rates s).slippage := by
  simp only [← isNonNegative_iff]
  exact ⟨fun h ↦ ⟨h.capital, h.commission, h.slippage⟩, fun ⟨h₁, h₂, h₃⟩ ↦ ⟨h₁, h₂, h₃⟩⟩

/-! ### What is wrong with a bar -/

/-- What is wrong with a bar that follows one of the given date, or follows none. -/
inductive Bar.HasFault (previous : Option Date) (bar : Bar α) : BarFault α → Prop where
  /-- The close is no price. -/
  | close (bad : ¬ IsPrice bar.close) : bar.HasFault previous (.close bar.close)
  /-- The close is a price, and the date is not after that of the bar before. -/
  | order (good : IsPrice bar.close) {date : Date} (follows : previous = some date)
      (late : ¬ date < bar.date) : bar.HasFault previous (.order date)

theorem Bar.fault?_eq_some_iff {previous : Option Date} {bar : Bar α} {fault : BarFault α} :
    bar.fault? previous = some fault ↔ bar.HasFault previous fault := by
  unfold Bar.fault?
  constructor
  · intro h
    split at h
    · rename_i hprice
      rcases previous with - | date
      · cases h
      · dsimp only at h
        split at h
        · cases h
        · rename_i hlate
          obtain rfl := Option.some.inj h
          exact .order (isPositive_iff.1 hprice) rfl hlate
    · rename_i hbad
      obtain rfl := Option.some.inj h
      exact .close (mt isPositive_iff.2 hbad)
  · rintro (hbad | ⟨hprice, rfl, hlate⟩)
    · rw [if_neg (mt isPositive_iff.1 hbad)]
    · rw [if_pos (isPositive_iff.2 hprice)]
      exact if_neg hlate

theorem Bar.fault?_eq_none_iff {previous : Option Date} {bar : Bar α} :
    bar.fault? previous = none ↔ ∀ fault, ¬ bar.HasFault previous fault := by
  simp only [Option.eq_none_iff_forall_ne_some, ne_eq, Bar.fault?_eq_some_iff]

/-- The date of the bar before bar `i`, if there is one. -/
def dateBefore (bars : List (Bar α)) : Nat → Option Date
  | 0 => none
  | i + 1 => bars[i]?.map Bar.date

omit [Arithmetic α] in
/-- The bar before bar `i` is the last of those before it. -/
theorem dateBefore_eq_getLast? {bars : List (Bar α)} {i : Nat} (hi : i ≤ bars.length) :
    dateBefore bars i = (bars.take i).getLast?.map Bar.date := by
  cases i with
  | zero => rfl
  | succ i =>
    have hbar : bars[i]? = some bars[i] := List.getElem?_eq_getElem hi
    rw [dateBefore, List.take_add_one, hbar, Option.toList_some, List.getLast?_concat]

/-- What is wrong with bar `i`, which has this date. -/
def FaultAt (bars : List (Bar α)) (i : Nat) (date : Date) (fault : BarFault α) : Prop :=
  ∃ bar, bars[i]? = some bar ∧ bar.date = date ∧ bar.HasFault (dateBefore bars i) fault

/-- Nothing is wrong with bar `i`. -/
def Faultless (bars : List (Bar α)) (i : Nat) : Prop :=
  ∀ date fault, ¬ FaultAt bars i date fault

theorem faultless_iff_of_getElem? {bars : List (Bar α)} {i : Nat} {bar : Bar α}
    (hbar : bars[i]? = some bar) :
    Faultless bars i ↔ bar.fault? (dateBefore bars i) = none := by
  rw [Bar.fault?_eq_none_iff]
  constructor
  · intro h fault hfault
    exact h _ _ ⟨bar, hbar, rfl, hfault⟩
  · rintro h date fault ⟨bar', hbar', -, hfault⟩
    obtain rfl : bar = bar' := Option.some.inj (hbar.symm.trans hbar')
    exact h fault hfault

/-! ### The least index at fault -/

/-- The search, once past the bars before bar `i`. -/
theorem firstFault?_split {bars : List (Bar α)} {i : Nat} (hi : i ≤ bars.length) :
    firstFault? 0 none bars = (firstFault? 0 none (bars.take i)).or
      (firstFault? i (dateBefore bars i) (bars.drop i)) := by
  conv_lhs => rw [← List.take_append_drop i bars]
  rw [firstFault?_append, Option.or_none, ← dateBefore_eq_getLast? hi, List.length_take,
    Nat.min_eq_left hi, Nat.zero_add]

/-- The search finds nothing before bar `i` if and only if nothing is wrong there. -/
theorem firstFault?_take_eq_none_iff {bars : List (Bar α)} {i : Nat} (hi : i ≤ bars.length) :
    firstFault? 0 none (bars.take i) = none ↔ ∀ j < i, Faultless bars j := by
  induction i with
  | zero => simp [firstFault?]
  | succ i ih =>
    have hbar : bars[i]? = some bars[i] := List.getElem?_eq_getElem hi
    have hlt : i < bars.length := hi
    rw [List.take_add_one, hbar, Option.toList_some, firstFault?_append, Option.or_eq_none_iff,
      ih (by omega), Option.or_none, ← dateBefore_eq_getLast? (by omega),
      Nat.forall_lt_succ_right, faultless_iff_of_getElem? hbar]
    refine and_congr_right fun _ ↦ ?_
    rcases hfault : bars[i].fault? (dateBefore bars i) with - | fault <;>
      simp [firstFault?, hfault]

/-- **The search finds the least index at fault.** -/
theorem firstFault?_eq_some_iff {bars : List (Bar α)} {e : RunError α} :
    firstFault? 0 none bars = some e ↔
      ∃ i date fault, e = .bar i date fault ∧ FaultAt bars i date fault ∧
        ∀ j < i, Faultless bars j := by
  constructor
  · intro h
    obtain ⟨i, date, fault, rfl, -, hi⟩ := index_of_firstFault? h
    rw [Nat.zero_add] at hi
    rw [firstFault?_split hi.le] at h
    have hbefore : firstFault? 0 none (bars.take i) = none := by
      by_contra hne
      obtain ⟨e', he'⟩ := Option.ne_none_iff_exists'.1 hne
      rw [he', Option.some_or] at h
      -- a fault found before bar `i` has a smaller index
      obtain ⟨j, _, _, hej, -, hj⟩ := index_of_firstFault? (he'.trans h)
      obtain ⟨rfl, -, -⟩ := RunError.bar.inj hej
      rw [List.length_take] at hj
      omega
    rw [hbefore, Option.none_or, List.drop_eq_getElem_cons hi, firstFault?] at h
    refine ⟨i, date, fault, rfl, ?_, (firstFault?_take_eq_none_iff hi.le).1 hbefore⟩
    rcases hfault : bars[i].fault? (dateBefore bars i) with - | fault' <;> rw [hfault] at h
    · -- a fault found after bar `i` has a greater index
      obtain ⟨j, _, _, hej, hj, -⟩ := index_of_firstFault? h
      obtain ⟨rfl, -, -⟩ := RunError.bar.inj hej
      omega
    · obtain ⟨-, rfl, rfl⟩ := RunError.bar.inj (Option.some.inj h)
      exact ⟨bars[i], List.getElem?_eq_getElem hi, rfl, Bar.fault?_eq_some_iff.1 hfault⟩
  · rintro ⟨i, date, fault, rfl, ⟨bar, hbar, rfl, hfault⟩, hbefore⟩
    obtain ⟨hi, rfl⟩ := List.getElem?_eq_some_iff.1 hbar
    rw [firstFault?_split hi.le, (firstFault?_take_eq_none_iff hi.le).2 hbefore, Option.none_or,
      List.drop_eq_getElem_cons hi, firstFault?, Bar.fault?_eq_some_iff.2 hfault]

theorem firstFault?_eq_none_iff {bars : List (Bar α)} :
    firstFault? 0 none bars = none ↔ ∀ i < bars.length, Faultless bars i := by
  conv_lhs => rw [← List.take_length (l := bars)]
  exact firstFault?_take_eq_none_iff (Nat.le_refl _)

/-! ### Good input and the first flaw -/

/-- The capital and the rates are amounts, there are bars, every close is a price, and every date is
after that of the bar before. -/
structure SoundInput (capital : α) (rates : Costs α) (bars : List (Bar α)) : Prop where
  capital : IsAmount capital
  commission : IsAmount rates.commission
  slippage : IsAmount rates.slippage
  nonempty : bars ≠ []
  prices : ∀ bar ∈ bars, IsPrice bar.close
  dates : bars.IsChain fun a b ↦ a.date < b.date

/-- The first thing wrong with the input of a run: the capital, then the commission, then the
slippage, then the lack of bars, then the first bar at fault. -/
inductive FirstFlaw (capital : α) (rates : Costs α) (bars : List (Bar α)) : RunError α → Prop where
  | capital (bad : ¬ IsAmount capital) :
      FirstFlaw capital rates bars (.parameter .capital capital)
  | commission (good : IsAmount capital) (bad : ¬ IsAmount rates.commission) :
      FirstFlaw capital rates bars (.parameter .commission rates.commission)
  | slippage (good : IsAmount capital ∧ IsAmount rates.commission)
      (bad : ¬ IsAmount rates.slippage) :
      FirstFlaw capital rates bars (.parameter .slippage rates.slippage)
  | noBars (good : IsAmount capital ∧ IsAmount rates.commission ∧ IsAmount rates.slippage)
      (bad : bars = []) : FirstFlaw capital rates bars .noBars
  | bar (good : IsAmount capital ∧ IsAmount rates.commission ∧ IsAmount rates.slippage)
      {i : Nat} {date : Date} {fault : BarFault α} (bad : FaultAt bars i date fault)
      (first : ∀ j < i, Faultless bars j) :
      FirstFlaw capital rates bars (.bar i date fault)

/-- No bar is at fault if and only if all closes are prices and all dates are in order. -/
theorem faultless_iff {bars : List (Bar α)} :
    (∀ i < bars.length, Faultless bars i) ↔
      (∀ bar ∈ bars, IsPrice bar.close) ∧ bars.IsChain fun a b ↦ a.date < b.date := by
  rw [List.isChain_iff_getElem]
  constructor
  · intro h
    refine ⟨fun bar hbar ↦ ?_, fun i hi ↦ ?_⟩
    · obtain ⟨i, hi, rfl⟩ := List.getElem_of_mem hbar
      by_contra hbad
      exact h i hi _ _ ⟨bars[i], List.getElem?_eq_getElem hi, rfl, .close hbad⟩
    · by_contra hlate
      by_cases hprice : IsPrice bars[i + 1].close
      · refine h (i + 1) hi _ _ ⟨bars[i + 1], List.getElem?_eq_getElem hi, rfl,
          .order hprice ?_ hlate⟩
        rw [dateBefore, List.getElem?_eq_getElem (by omega), Option.map_some]
      · exact h (i + 1) hi _ _ ⟨bars[i + 1], List.getElem?_eq_getElem hi, rfl, .close hprice⟩
  · rintro ⟨hprices, hdates⟩ i hi date fault h
    obtain ⟨bar, hbar, -, hfault⟩ := h
    obtain ⟨hlt, rfl⟩ := List.getElem?_eq_some_iff.1 hbar
    cases hfault with
    | close bad => exact bad (hprices _ (List.getElem_mem hi))
    | order good follows late =>
      cases i with
      | zero => cases follows
      | succ i =>
        rw [dateBefore, List.getElem?_eq_getElem (by omega), Option.map_some] at follows
        obtain rfl := Option.some.inj follows
        exact late (hdates i hi)

/-- Input is sound or has a first flaw. -/
theorem soundInput_or_firstFlaw (capital : α) (rates : Costs α) (bars : List (Bar α)) :
    SoundInput capital rates bars ∨ ∃ e, FirstFlaw capital rates bars e := by
  by_cases hcapital : IsAmount capital
  swap; · exact .inr ⟨_, .capital hcapital⟩
  by_cases hcommission : IsAmount rates.commission
  swap; · exact .inr ⟨_, .commission hcapital hcommission⟩
  by_cases hslippage : IsAmount rates.slippage
  swap; · exact .inr ⟨_, .slippage ⟨hcapital, hcommission⟩ hslippage⟩
  have hgood := And.intro hcapital (And.intro hcommission hslippage)
  by_cases hne : bars = []
  · exact .inr ⟨_, .noBars hgood hne⟩
  rcases h : firstFault? 0 none bars with - | e
  · obtain ⟨hprices, hdates⟩ := faultless_iff.1 (firstFault?_eq_none_iff.1 h)
    exact .inl ⟨hcapital, hcommission, hslippage, hne, hprices, hdates⟩
  · obtain ⟨i, date, fault, rfl, hfault, hfirst⟩ := firstFault?_eq_some_iff.1 h
    exact .inr ⟨_, .bar hgood hfault hfirst⟩

namespace Strategy

variable {s : Strategy α} {terms : Terms α} {bars : List (Bar α)} {e : RunError α}

/-- Sound input makes a run succeed. -/
theorem exists_run_of_soundInput (h : SoundInput terms.capital (terms.rates s) bars) :
    ∃ o, s.run terms bars = .ok o := by
  have hsound : terms.Sound s := Terms.sound_iff.2 ⟨h.capital, h.commission, h.slippage⟩
  refine ⟨_, run_eq_ok_iff.2 ⟨hsound, ?_, rfl⟩⟩
  rw [barsError?_of_ne_nil h.nonempty]
  exact firstFault?_eq_none_iff.2 (faultless_iff.2 ⟨h.prices, h.dates⟩)

/-- The first flaw of its input makes a run fail. -/
theorem run_eq_error_of_firstFlaw (h : FirstFlaw terms.capital (terms.rates s) bars e) :
    s.run terms bars = .error e := by
  have hsettle := terms.settle_eq s
  simp only [isNonNegative_iff] at hsettle
  cases h with
  | capital bad =>
    rw [if_neg bad] at hsettle
    exact replay_of_settle_error hsettle false
  | commission good bad =>
    rw [if_pos good, if_neg bad] at hsettle
    exact replay_of_settle_error hsettle false
  | slippage good bad =>
    rw [if_pos good.1, if_pos good.2, if_neg bad] at hsettle
    exact replay_of_settle_error hsettle false
  | noBars good bad =>
    rw [run_eq_error_iff_of_sound (Terms.sound_iff.2 good), bad]
    rfl
  | bar good bad first =>
    have hne : bars ≠ [] := by
      rintro rfl
      obtain ⟨bar, hbar, -⟩ := bad
      cases hbar
    rw [run_eq_error_iff_of_sound (Terms.sound_iff.2 good), barsError?_of_ne_nil hne]
    exact firstFault?_eq_some_iff.2 ⟨_, _, _, rfl, bad, first⟩

/-- **A run succeeds exactly on sound input.** -/
theorem exists_run_iff_soundInput :
    (∃ o, s.run terms bars = .ok o) ↔ SoundInput terms.capital (terms.rates s) bars := by
  refine ⟨fun ⟨o, ho⟩ ↦ ?_, exists_run_of_soundInput⟩
  rcases soundInput_or_firstFlaw terms.capital (terms.rates s) bars with hsound | ⟨e, hflaw⟩
  · exact hsound
  · rw [run_eq_error_of_firstFlaw hflaw] at ho
    cases ho

/-- **A run fails exactly with the first flaw of its input.** -/
theorem run_eq_error_iff_firstFlaw :
    s.run terms bars = .error e ↔ FirstFlaw terms.capital (terms.rates s) bars e := by
  refine ⟨fun he ↦ ?_, run_eq_error_of_firstFlaw⟩
  rcases soundInput_or_firstFlaw terms.capital (terms.rates s) bars with hsound | ⟨e', hflaw⟩
  · obtain ⟨o, ho⟩ := exists_run_of_soundInput hsound
    rw [ho] at he
    cases he
  · rw [run_eq_error_of_firstFlaw hflaw] at he
    obtain rfl := Except.error.inj he
    exact hflaw

end Strategy

/-! ### A run that is cancelled before it starts -/

/-- The error is seen no later than at the first bar. -/
def RunError.IsAtStart : RunError α → Prop
  | .parameter _ _ => True
  | .noBars => True
  | .bar index _ _ => index = 0
  | .cancelled _ => False

theorem barsError?_true_cons_cons (first second : Bar α) (rest : List (Bar α)) :
    barsError? true (first :: second :: rest) =
      match first.fault? none with
      | some fault => some (.bar 0 first.date fault)
      | none => some (.cancelled 1) := by
  rcases h : first.fault? none with - | fault <;> simp [barsError?, firstFault?, h]

namespace Strategy

variable {s : Strategy α} {terms : Terms α} {bars : List (Bar α)} {e : RunError α}

variable (s terms bars) in
/-- A cancelled run either has failed at the start, as it would in any case, or gets no further than
the first bar. -/
theorem replay_cancelled :
    (∃ e : RunError α, e.IsAtStart ∧ s.run terms bars = .error e ∧
        s.replay terms bars true = .error e) ∨
      ((∀ e : RunError α, e.IsAtStart → s.run terms bars ≠ .error e) ∧
        s.replay terms bars true =
          if 2 ≤ bars.length then .error (.cancelled 1) else s.run terms bars) := by
  by_cases hsound : terms.Sound s
  swap
  · obtain ⟨which, value, hsettle⟩ := Terms.settle_of_not_sound hsound
    exact .inl ⟨.parameter which value, trivial, replay_of_settle_error hsettle false,
      replay_of_settle_error hsettle true⟩
  have hrun : s.run terms bars = _ := replay_of_sound hsound false
  have hcancelled : s.replay terms bars true = _ := replay_of_sound hsound true
  match bars with
  | [] => exact .inl ⟨.noBars, trivial, hrun, hcancelled⟩
  | [first] =>
    rcases hfault : first.fault? none with - | fault
    · right
      have hnone : ∀ cancelled, barsError? cancelled [first] = none := by
        simp [barsError?, firstFault?, hfault]
      rw [hnone] at hrun hcancelled
      refine ⟨fun e _ ↦ by simp [hrun], ?_⟩
      rw [hcancelled, hrun]
      rfl
    · left
      have hsome : ∀ cancelled, barsError? cancelled [first] = some (.bar 0 first.date fault) := by
        simp [barsError?, firstFault?, hfault]
      rw [hsome] at hrun hcancelled
      exact ⟨.bar 0 first.date fault, rfl, hrun, hcancelled⟩
  | first :: second :: rest =>
    rw [barsError?_true_cons_cons] at hcancelled
    rw [barsError?_of_ne_nil (by simp), firstFault?] at hrun
    rcases hfault : first.fault? none with - | fault
    · right
      rw [hfault] at hrun hcancelled
      refine ⟨fun e hstart he ↦ ?_, by simpa using hcancelled⟩
      -- what is found later is a bar with a greater index
      rcases hlater : firstFault? 1 (some first.date) (second :: rest) with - | later
      · simp [hrun, hlater] at he
      · obtain ⟨i, date, fault, rfl, hi, -⟩ := index_of_firstFault? hlater
        simp only [hlater, hrun, Nat.zero_add] at he
        obtain rfl := Except.error.inj he
        have hzero : i = 0 := hstart
        omega
    · left
      rw [hfault] at hrun hcancelled
      exact ⟨.bar 0 first.date fault, rfl, hrun, hcancelled⟩

/-- **A run fails exactly on bad input, and with the first flaw in it.** The rules, the thresholds
and the share of the account that a strategy commits have no part in it: a strategy with the same
costs fails in the same way. A run that is cancelled before it starts fails at the start as it would
in any case; otherwise it stops at the second bar if there is one, and is not affected if there is
none. All of this holds of the run that goes bar by bar, and a flag raised on its way stops it at
the next bar, without a report, unless a bar before that one is at fault. -/
theorem run_decided_by_input (s : Strategy α) (terms : Terms α) (bars : List (Bar α)) :
    ((∃ o, s.run terms bars = .ok o) ↔ SoundInput terms.capital (terms.rates s) bars) ∧
      (∀ e, s.run terms bars = .error e ↔ FirstFlaw terms.capital (terms.rates s) bars e) ∧
      (∀ s' : Strategy α, s'.costs = s.costs →
        ((∃ o, s'.run terms bars = .ok o) ↔ ∃ o, s.run terms bars = .ok o) ∧
          ∀ e, s'.run terms bars = .error e ↔ s.run terms bars = .error e) ∧
      (∀ e : RunError α, e.IsAtStart →
        (s.replay terms bars true = .error e ↔ s.run terms bars = .error e)) ∧
      ((∀ e : RunError α, e.IsAtStart → s.run terms bars ≠ .error e) →
        s.replay terms bars true =
          if 2 ≤ bars.length then .error (.cancelled 1) else s.run terms bars) ∧
      (∀ cancelled,
        s.replayByBar terms bars (fun _ ↦ cancelled) = s.replay terms bars cancelled) ∧
      ∀ (cancelled : Nat → Bool) (k : Nat), 1 ≤ k → k < bars.length →
        (∀ i, 1 ≤ i → i < k → cancelled i = false) → cancelled k = true →
        s.replayByBar terms bars cancelled =
          s.run terms (bars.take k) >>= fun _ ↦ .error (.cancelled k) := by
  refine ⟨exists_run_iff_soundInput, fun e ↦ run_eq_error_iff_firstFlaw, fun s' hcosts ↦ ?_,
    fun e hstart ↦ ?_, fun hnone ↦ ?_, replayByBar_eq_replay s terms bars,
    fun cancelled k hpos hlt hdown hup ↦ replayByBar_of_raised hpos hlt hdown hup⟩
  · have hrates : terms.rates s' = terms.rates s := by rw [Terms.rates, hcosts, ← Terms.rates]
    simp only [exists_run_iff_soundInput, run_eq_error_iff_firstFlaw, hrates, implies_true,
      and_self]
  · rcases replay_cancelled s terms bars with ⟨e', -, hrun, hcancelled⟩ | ⟨hnone, hcancelled⟩
    · rw [hrun, hcancelled]
    · have hrun := hnone e hstart
      refine iff_of_false (fun he ↦ ?_) hrun
      rw [hcancelled] at he
      split at he
      · obtain rfl := Except.error.inj he
        exact hstart
      · exact hrun he
  · rcases replay_cancelled s terms bars with ⟨e, hstart, hrun, -⟩ | ⟨-, hcancelled⟩
    · exact absurd hrun (hnone e hstart)
    · exact hcancelled

/-- With its fourth bar at a price of zero the sample run fails on that bar, and so does a run that
never trades. Cancelled before it starts, the sample run stops at its second bar; cancelled after
three bars, at its fourth. -/
theorem sample_decided_by_input :
    { Sample.strategy with entryRules := [], fraction := 1 }.run Sample.terms
        (Sample.bars.set 3 (Sample.bar 3 0 75)) =
      .error (.bar 3 (Sample.bar 3 0 75).date (.close 0)) ∧
    Sample.strategy.replay Sample.terms Sample.bars true = .error (.cancelled 1) ∧
    Sample.strategy.replayByBar Sample.terms Sample.bars (fun i ↦ decide (3 ≤ i)) =
      .error (.cancelled 3) := by
  have hsound : Sample.terms.Sound Sample.strategy := (run_eq_ok_iff.1 Sample.run_eq).1
  have hfails : Sample.strategy.run Sample.terms (Sample.bars.set 3 (Sample.bar 3 0 75)) =
      .error (.bar 3 (Sample.bar 3 0 75).date (.close 0)) :=
    (run_eq_error_iff_of_sound hsound).2 (by decide +kernel)
  refine ⟨?_, ?_, ?_⟩
  · exact (((run_decided_by_input Sample.strategy Sample.terms _).2.2.1 _ rfl).2 _).2 hfails
  · have hnone : ∀ e : RunError Float, e.IsAtStart →
        Sample.strategy.run Sample.terms Sample.bars ≠ .error e := by
      intro e _ he
      rw [Sample.run_eq] at he
      cases he
    exact (run_decided_by_input Sample.strategy Sample.terms Sample.bars).2.2.2.2.1 hnone
  · have hstart : Sample.strategy.run Sample.terms (Sample.bars.take 3) = .ok _ :=
      run_eq_ok_iff.2 ⟨hsound, by decide +kernel, rfl⟩
    rw [(run_decided_by_input Sample.strategy Sample.terms Sample.bars).2.2.2.2.2.2 _ 3
      (by decide) (by decide) (fun i _ hi ↦ decide_eq_false (by omega)) rfl, hstart]
    rfl

end Strategy

end BarReplay
