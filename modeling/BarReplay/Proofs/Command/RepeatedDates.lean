import BarReplay.Proofs.Command.Backtest
import BarReplay.Proofs.Replay.Failure
import BarReplay.Proofs.Table.Rearranging

/-!
# Dates that come twice in a table

A run wants every date to be after the one before. The bars of a table come in the order of their
dates, and what a range of dates leaves of them still does, so the only thing that can be wrong with
the date of a bar is that the bar before has the same one. A run over the bars of a table therefore
fails for the order of dates exactly at the first such bar, unless a close that is no price has come
before it (`order_fault_iff`). It does not matter in which order the rows of the table stand.
-/

namespace BarReplay.Command

/-! ### Bars in the order of their dates -/

/-- Bar `i` has the date of the bar before it. -/
def RepeatsDate (bars : List (Bar Float)) (i : Nat) : Prop :=
  ∃ bar, bars[i]? = some bar ∧ dateBefore bars i = some bar.date

/-- The dates are in order, and a date may come more than once. -/
def DatesRise (bars : List (Bar Float)) : Prop :=
  bars.Pairwise fun a b ↦ a.date ≤ b.date

variable {bars : List (Bar Float)} {i : Nat}

theorem DatesRise.le_of_dateBefore {bar : Bar Float} {previous : Date} (h : DatesRise bars)
    (hbar : bars[i]? = some bar) (hprevious : dateBefore bars i = some previous) :
    previous ≤ bar.date := by
  cases i with
  | zero => cases hprevious
  | succ i =>
    obtain ⟨before, hbefore, rfl⟩ := Option.map_eq_some_iff.1 hprevious
    obtain ⟨hi, rfl⟩ := List.getElem?_eq_some_iff.1 hbar
    obtain ⟨hj, rfl⟩ := List.getElem?_eq_some_iff.1 hbefore
    exact List.pairwise_iff_getElem.1 h i (i + 1) hj hi (Nat.lt_succ_self i)

/-- If the dates rise, the order is at fault where a date comes again. -/
theorem DatesRise.hasFault_order_iff {bar : Bar Float} {previous : Date} (h : DatesRise bars)
    (hbar : bars[i]? = some bar) :
    bar.HasFault (dateBefore bars i) (.order previous) ↔
      IsPrice bar.close ∧ dateBefore bars i = some bar.date ∧ bar.date = previous := by
  constructor
  · rintro (- | ⟨hprice, hprevious, hlate⟩)
    obtain rfl := (Date.not_lt_iff_eq (h.le_of_dateBefore hbar hprevious)).1 hlate
    exact ⟨hprice, hprevious, rfl⟩
  · rintro ⟨hprice, hprevious, rfl⟩
    exact .order hprice hprevious (Int.lt_irrefl _)

/-- If the dates rise, nothing is wrong with a bar that has a price and a date of its own. -/
theorem DatesRise.faultless_iff {bar : Bar Float} (h : DatesRise bars)
    (hbar : bars[i]? = some bar) :
    Faultless bars i ↔ IsPrice bar.close ∧ ¬ RepeatsDate bars i := by
  rw [faultless_iff_of_getElem? hbar, Bar.fault?_eq_none_iff]
  constructor
  · intro hnone
    have hprice : IsPrice bar.close := by
      by_contra hbad
      exact hnone _ (.close hbad)
    refine ⟨hprice, fun ⟨bar', hbar', hprevious⟩ ↦ ?_⟩
    obtain rfl := Option.some.inj (hbar.symm.trans hbar')
    exact hnone _ ((h.hasFault_order_iff hbar).2 ⟨hprice, hprevious, rfl⟩)
  · rintro ⟨hprice, hfresh⟩ fault hfault
    cases fault with
    | close value =>
      cases hfault with
      | close hbad => exact hbad hprice
    | order previous =>
      exact hfresh ⟨bar, hbar, ((h.hasFault_order_iff hbar).1 hfault).2.1⟩

/-- Bar `i` is the first that repeats a date, and the closes up to it are prices. -/
structure IsFirstRepeat (bars : List (Bar Float)) (i : Nat) : Prop where
  repeats : RepeatsDate bars i
  first : ∀ j < i, ¬ RepeatsDate bars j
  prices : ∀ j ≤ i, ∀ bar ∈ bars[j]?, IsPrice bar.close

/-- If the dates rise, a run fails for their order at the first bar that repeats a date. -/
theorem DatesRise.run_fails_iff {s : Strategy Float} {terms : Terms Float} (h : DatesRise bars)
    (hsound : terms.Sound s) :
    (∃ date previous, s.run terms bars = .error (.bar i date (.order previous))) ↔
      IsFirstRepeat bars i := by
  simp only [Strategy.run_eq_error_iff_firstFlaw]
  constructor
  · rintro ⟨date, previous, hflaw⟩
    obtain ⟨-, ⟨bar, hbar, rfl, hfault⟩, hfirst⟩ : True ∧
        FaultAt bars i date (.order previous) ∧ ∀ j < i, Faultless bars j := by
      cases hflaw with
      | bar good bad first => exact ⟨trivial, bad, first⟩
    obtain ⟨hprice, hprevious, -⟩ := (h.hasFault_order_iff hbar).1 hfault
    have hgood (j : Nat) (hj : j < i) : ∃ bar, bars[j]? = some bar ∧ IsPrice bar.close ∧
        ¬ RepeatsDate bars j := by
      have hlt : j < bars.length := hj.trans (List.getElem?_eq_some_iff.1 hbar).1
      have hbar := List.getElem?_eq_getElem hlt
      exact ⟨_, hbar, (h.faultless_iff hbar).1 (hfirst j hj)⟩
    refine ⟨⟨bar, hbar, hprevious⟩, fun j hj ↦ ?_, fun j hj bar' hbar' ↦ ?_⟩
    · obtain ⟨-, -, -, hfresh⟩ := hgood j hj
      exact hfresh
    · rcases hj.lt_or_eq with hlt | rfl
      · obtain ⟨bar, hbar, hprice, -⟩ := hgood j hlt
        obtain rfl := Option.some.inj (hbar.symm.trans hbar')
        exact hprice
      · obtain rfl := Option.some.inj (hbar.symm.trans hbar')
        exact hprice
  · rintro ⟨⟨bar, hbar, hprevious⟩, hfirst, hprices⟩
    refine ⟨bar.date, bar.date, .bar (Terms.sound_iff.1 hsound) ⟨bar, hbar, rfl, ?_⟩ ?_⟩
    · exact (h.hasFault_order_iff hbar).2 ⟨hprices i le_rfl bar hbar, hprevious, rfl⟩
    · intro j hj
      have hlt : j < bars.length := hj.trans (List.getElem?_eq_some_iff.1 hbar).1
      have hbar' := List.getElem?_eq_getElem hlt
      exact (h.faultless_iff hbar').2 ⟨hprices j hj.le _ hbar', hfirst j hj⟩

/-- Bars with distinct dates do not repeat one. -/
theorem not_repeatsDate_of_nodup (h : (bars.map Bar.date).Nodup) : ¬ RepeatsDate bars i := by
  rintro ⟨bar, hbar, hprevious⟩
  cases i with
  | zero => cases hprevious
  | succ i =>
    have hdate : (bars.map Bar.date)[i + 1]? = some bar.date := by
      rw [List.getElem?_map, hbar, Option.map_some]
    rw [dateBefore, ← List.getElem?_map] at hprevious
    have hlt := (List.getElem?_eq_some_iff.1 hprevious).1
    have heq := (List.getElem?_inj hlt h).1 (hprevious.trans hdate.symm)
    omega

end BarReplay.Command

namespace BarReplay

/-! ### Bars of a table -/

/-- The dates of the rows of a sheet. -/
def Table.Sheet.dates (sheet : Sheet) : List (Option Date) :=
  sheet.rows.map fun row ↦ (dateCell? (sheet.headings.zip row)).bind readDate?

theorem Table.Sheet.Describes.dates_eq {sheet : Sheet} {all : List (Bar Float)}
    (h : sheet.Describes all) : sheet.dates = all.map fun bar ↦ some bar.date := by
  have hrows : List.Forall₂ (· = ·) sheet.dates (all.map fun bar ↦ some bar.date) := by
    rw [dates, List.forall₂_map_left_iff, List.forall₂_map_right_iff]
    exact h.rows.imp fun row bar hbar ↦ hbar.date
  rwa [List.forall₂_eq_eq_eq] at hrows

namespace Command

variable {disk : Disk} {table : String} {range : Settings.DateRange} {bars : List (Bar Float)}

/-- The bars of a table are in the order of their dates, those in a range of dates too. -/
theorem datesRise_of_fetchBars (h : fetchBars disk table range = .ok bars) : DatesRise bars := by
  obtain ⟨bytes, all, -, hall, rfl⟩ := fetchBars_eq_ok_iff.1 h
  obtain ⟨sheet, rows, -, -, rfl⟩ := Table.readBars_eq_ok_iff.1 hall
  exact (Table.inDateOrder_byDate _).sorted.filter _

/-- If the rows of a table have distinct dates, so do its bars. -/
theorem nodup_dates_of_fetchBars {bytes : List UInt8} {sheet : Table.Sheet}
    (h : fetchBars disk table range = .ok bars) (hread : disk.read table = .ok bytes)
    (hsheet : sheet.WrittenIn bytes) (hdates : sheet.dates.Nodup) :
    (bars.map Bar.date).Nodup := by
  obtain ⟨bytes', all, hread', hall, rfl⟩ := fetchBars_eq_ok_iff.1 h
  obtain rfl := Except.ok.inj (hread.symm.trans hread')
  obtain ⟨sheet', rows, hsheet', hrows, rfl⟩ := Table.readBars_eq_ok_iff.1 hall
  obtain rfl := hsheet.unique hsheet'
  rw [hrows.dates_eq] at hdates
  have hnodup : (rows.map Bar.date).Nodup := by
    have hsome : (rows.map fun bar ↦ some bar.date) = (rows.map Bar.date).map some := by
      rw [List.map_map]
      rfl
    rw [hsome] at hdates
    exact hdates.of_map some
  have hkept : ((rows.filter fun b ↦ !b.close.isNaN).map Bar.date).Nodup :=
    (List.filter_sublist.map Bar.date).nodup hnodup
  have hordered := ((Table.inDateOrder_byDate _).perm.map Bar.date).nodup_iff.2 hkept
  exact (List.filter_sublist.map Bar.date).nodup hordered

/-- **A run over the bars of a table fails for the order of dates at the first bar with the date of
the one before it, if it gets that far, and nowhere else.** It does so for no table whose rows have
distinct dates. -/
theorem order_fault_iff (h : fetchBars disk table range = .ok bars) (s : Strategy Float)
    {terms : Terms Float} (hsound : terms.Sound s) :
    (∀ i, (∃ date previous, s.run terms bars = .error (.bar i date (.order previous))) ↔
      IsFirstRepeat bars i) ∧
    ∀ bytes (sheet : Table.Sheet), disk.read table = .ok bytes → sheet.WrittenIn bytes →
      sheet.dates.Nodup →
      ∀ i date previous, s.run terms bars ≠ .error (.bar i date (.order previous)) := by
  have hrise := datesRise_of_fetchBars h
  refine ⟨fun i ↦ hrise.run_fails_iff hsound, fun bytes sheet hread hsheet hdates ↦ ?_⟩
  intro i date previous hrun
  have hfirst := (hrise.run_fails_iff hsound).1 ⟨date, previous, hrun⟩
  exact not_repeatsDate_of_nodup (nodup_dates_of_fetchBars h hread hsheet hdates) hfirst.repeats

namespace Sample

/-- A table in which a date comes twice, with another row between. -/
def repeatedTable : List UInt8 :=
  Table.Sample.bytes "date,close\n2024-01-03,2\n2024-01-02,1\n2024-01-03,3\n"

/-- A disk with that table. -/
def repeatedDisk : Disk :=
  .ofResults [("X.csv", .ok repeatedTable)] []

/-- The bars of that table. -/
def repeatedBars : List (Bar Float) :=
  [Table.Sample.barOn 1 1, Table.Sample.barOn 2 2, Table.Sample.barOn 2 3]

theorem fetchBars_repeated : fetchBars repeatedDisk "X.csv" .all = .ok repeatedBars := by
  have hread : Table.readUnordered repeatedTable =
      .ok [Table.Sample.barOn 2 2, Table.Sample.barOn 1 1, Table.Sample.barOn 2 3] := by
    decide +kernel
  have hdisk : repeatedDisk.read "X.csv" = .ok repeatedTable := by
    simp [repeatedDisk, Disk.ofResults]
  refine fetchBars_eq_ok_iff.2 ⟨repeatedTable, repeatedBars, hdisk, ?_, ?_⟩
  · rw [Table.readBars_eq, hread]
    exact congrArg Except.ok (by cbv)
  · simp [repeatedBars, Settings.DateRange.all]

theorem isFirstRepeat_repeated : IsFirstRepeat repeatedBars 2 := by
  have hbefore : dateBefore repeatedBars 2 = some (Table.Sample.barOn 2 3).date := by decide
  refine ⟨⟨_, rfl, hbefore⟩, fun j hj ↦ ?_, fun j hj bar hbar ↦ ?_⟩
  · rintro ⟨bar, hbar, hprevious⟩
    interval_cases j
    · cases hprevious
    · cases hbar
      exact absurd hprevious (by decide)
  · interval_cases j <;> cases hbar <;> decide +kernel

end Sample

/-- The sorted bars repeat a date at their third, and that is where a run fails. -/
theorem sample_order_fault :
    fetchBars Sample.repeatedDisk "X.csv" .all = .ok Sample.repeatedBars ∧
      BarReplay.Sample.terms.Sound BarReplay.Sample.strategy ∧
      ∃ date previous, BarReplay.Sample.strategy.run BarReplay.Sample.terms Sample.repeatedBars =
        .error (.bar 2 date (.order previous)) := by
  have hsound := (Strategy.run_eq_ok_iff.1 BarReplay.Sample.run_eq).1
  exact ⟨Sample.fetchBars_repeated, hsound,
    ((order_fault_iff Sample.fetchBars_repeated _ hsound).1 2).2 Sample.isFirstRepeat_repeated⟩

end Command

end BarReplay
