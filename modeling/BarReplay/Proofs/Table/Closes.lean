import BarReplay.Proofs.Replay.Failure
import BarReplay.Proofs.Table.Cells
import BarReplay.Proofs.Table.Rearranging

/-!
# The closes of a table

A row is left out if its close says nothing, and for no other reason. A close that says infinity, or
a number too large for a double, is kept as an infinite amount. To a rule such a close is undefined
like one that says nothing, but the row is still there, and no run over the bars of the table
succeeds (`closes_of_readBars`). So every bar of a table has a defined close exactly if no row says
such a thing.
-/

namespace BarReplay.Table

/-- What the close cell of a row says about the bar of the row. -/
structure IsCloseOf (cell : List Char) (bar : Bar Float) : Prop where
  dropped : bar.close.isNaN = true ↔ SaysNothing cell
  defined : (bar.reading .close).isSome = true ↔ SaysAmount cell
  beyond : bar.close.isNaN = false ∧ (bar.reading .close).isSome = false ↔ SaysBeyond cell

/-- The close of a bar is defined if it is finite. -/
theorem isSome_reading_close (bar : Bar Float) :
    (bar.reading .close).isSome = bar.close.isFinite := by
  show ((some bar.close).filter Arithmetic.isFinite).isSome = bar.close.isFinite
  rw [Option.filter_some]
  show (if bar.close.isFinite = true then some bar.close else none).isSome = bar.close.isFinite
  cases bar.close.isFinite <;> rfl

/-- The close of a bar is the amount in the close cell of its row. -/
theorem IsBarOf.amount?_close {headings row : List (List Char)} {bar : Bar Float}
    (h : IsBarOf (headings.zip row) bar) (hcolumns : HasColumns headings)
    (hlength : row.length = headings.length) :
    ∃ cell, fieldCell? (headings.zip row) .close = some cell ∧ amount? cell = some bar.close := by
  obtain ⟨heading, hmem, hnames⟩ := hcolumns.close
  have hsome : ((headings.zip row).filter fun c ↦ Names c.1 .close) ≠ [] := by
    rw [← List.map_fst_zip hlength.ge, List.mem_map] at hmem
    obtain ⟨c, hc, rfl⟩ := hmem
    exact List.ne_nil_of_mem (List.mem_filter.2 ⟨hc, decide_eq_true hnames⟩)
  have hlast := List.getLast?_eq_some_getLast hsome
  obtain ⟨hc, hname⟩ := List.mem_filter.1 (List.getLast_mem hsome)
  generalize ((headings.zip row).filter fun c ↦ Names c.1 .close).getLast hsome = c at *
  obtain ⟨value, hvalue⟩ := Option.isSome_iff_exists.1 (h.readable c hc _ (of_decide_eq_true hname))
  have hcell : fieldCell? (headings.zip row) .close = some c.2 := by
    rw [fieldCell?, hlast, Option.map_some]
  have hstored := Option.some.inj (h.stored .close)
  rw [value?, hcell, Option.bind_some, hvalue, Option.join_some] at hstored
  exact ⟨c.2, hcell, by rw [amount?, hvalue, Option.map_some, hstored]⟩

theorem isCloseOf_of_amount? {cell : List Char} {bar : Bar Float}
    (h : amount? cell = some bar.close) : IsCloseOf cell bar where
  dropped := isNaN_iff_saysNothing h
  defined := by rw [isSome_reading_close, isFinite_iff_saysAmount h]
  beyond := by rw [isSome_reading_close, isInfinite_iff_saysBeyond h]

/-- Lists that are related element by element have related elements. -/
theorem exists_mem_iff_of_forall₂ {α β : Type} {R : α → β → Prop} {p : α → Prop} {q : β → Prop}
    {l : List α} {l' : List β} (h : List.Forall₂ R l l') (hR : ∀ a b, R a b → (p a ↔ q b)) :
    (∃ a ∈ l, p a) ↔ ∃ b ∈ l', q b := by
  induction h with
  | nil => simp
  | cons hab _ ih => rw [List.exists_mem_cons_iff, List.exists_mem_cons_iff, hR _ _ hab, ih]

/-- **The close of a row decides what becomes of the row**: a row is left out exactly if its close
says nothing, and a bar that is kept has a close that is not defined exactly if its row says
infinity or a number that is too large. No run succeeds over such a bar. -/
theorem closes_of_readBars {input : List UInt8} {bars : List (Bar Float)}
    (h : readBars input = .ok bars) :
    ∃ (sheet : Sheet) (all : List (Bar Float)), sheet.WrittenIn input ∧ sheet.Describes all ∧
      InDateOrder (all.filter fun b ↦ !b.close.isNaN) bars ∧
      List.Forall₂ (fun row bar ↦ ∃ cell,
        fieldCell? (sheet.headings.zip row) .close = some cell ∧ IsCloseOf cell bar)
        sheet.rows all ∧
      ((∃ bar ∈ bars, (bar.reading .close).isSome = false) ↔ ∃ row ∈ sheet.rows, ∃ cell,
        fieldCell? (sheet.headings.zip row) .close = some cell ∧ SaysBeyond cell) ∧
      ((∃ bar ∈ bars, (bar.reading .close).isSome = false) →
        ∀ (s : Strategy Float) (terms : Terms Float),
          ∃ fault, s.run terms bars = .error fault) := by
  obtain ⟨sheet, all, hsheet, hall, rfl⟩ := readBars_eq_ok_iff.1 h
  have hordered := inDateOrder_byDate (all.filter fun b ↦ !b.close.isNaN)
  have hcloses : List.Forall₂ (fun row bar ↦ ∃ cell,
      fieldCell? (sheet.headings.zip row) .close = some cell ∧ IsCloseOf cell bar)
      sheet.rows all := by
    refine ((List.forall₂_and_left _ _).2 ⟨hsheet.width, hall.rows⟩).imp fun row bar hrow ↦ ?_
    obtain ⟨cell, hcell, hamount⟩ := hrow.2.amount?_close hall.columns hrow.1
    exact ⟨cell, hcell, isCloseOf_of_amount? hamount⟩
  refine ⟨sheet, all, hsheet, hall, hordered, hcloses, ?_, fun ⟨bar, hbar, hclose⟩ s terms ↦ ?_⟩
  · have hkept : (∃ bar ∈ byDate (all.filter fun b ↦ !b.close.isNaN),
        (bar.reading .close).isSome = false) ↔
        ∃ bar ∈ all, bar.close.isNaN = false ∧ (bar.reading .close).isSome = false := by
      simp only [hordered.perm.mem_iff, List.mem_filter, Bool.not_eq_true', and_assoc]
    rw [hkept, exists_mem_iff_of_forall₂ hcloses]
    rintro row bar ⟨cell, hcell, hbar⟩
    rw [hbar.beyond, hcell]
    simp
  · rcases hrun : s.run terms (byDate (all.filter fun b ↦ !b.close.isNaN)) with fault | outcome
    · exact ⟨fault, rfl⟩
    · have hprice := (Strategy.exists_run_iff_soundInput.1 ⟨outcome, hrun⟩).prices bar hbar
      rw [isSome_reading_close] at hclose
      exact absurd (hprice.1.symm.trans hclose) nofun

namespace Sample

/-- A table with closes that are infinite or too large. -/
def infiniteTable : List UInt8 :=
  bytes "date,close\n2024-01-02,inf\n2024-01-03,1e999\n"

/-- The bars of that table. -/
def infiniteBars : List (Bar Float) :=
  [barOn 1 (1.0 / 0.0), barOn 2 (1.0 / 0.0)]

theorem readBars_infiniteTable : readBars infiniteTable = .ok infiniteBars := by
  have hread : readUnordered infiniteTable = .ok infiniteBars := by decide +kernel
  have horder : byDate infiniteBars = infiniteBars := byDate_eq_self (by decide)
  rw [readBars_eq, hread]
  exact congrArg Except.ok horder

theorem exists_undefined_close : ∃ bar ∈ infiniteBars, (bar.reading .close).isSome = false :=
  ⟨_, List.mem_cons_self, rfl⟩

end Sample

/-- Rows of the sample say infinity or too much, and no run succeeds over its bars. -/
theorem sample_closes : readBars Sample.infiniteTable = .ok Sample.infiniteBars ∧
    (∃ (sheet : Sheet), sheet.WrittenIn Sample.infiniteTable ∧ ∃ row ∈ sheet.rows, ∃ cell,
      fieldCell? (sheet.headings.zip row) .close = some cell ∧ SaysBeyond cell) ∧
    ∀ (s : Strategy Float) (terms : Terms Float), ∃ fault,
      s.run terms Sample.infiniteBars = .error fault := by
  obtain ⟨sheet, -, hsheet, -, -, -, hbeyond, hfails⟩ :=
    closes_of_readBars Sample.readBars_infiniteTable
  exact ⟨Sample.readBars_infiniteTable,
    ⟨sheet, hsheet, hbeyond.1 Sample.exists_undefined_close⟩,
    hfails Sample.exists_undefined_close⟩

/-- Not every bar of a table has a defined close. -/
theorem undefined_close_is_kept : ¬ ∀ input bars, readBars input = .ok bars →
    ∀ bar ∈ bars, (bar.reading .close).isSome = true := by
  intro hall
  obtain ⟨bar, hbar, hclose⟩ := Sample.exists_undefined_close
  have hsome := hall _ _ Sample.readBars_infiniteTable bar hbar
  exact absurd (hsome.symm.trans hclose) nofun

end BarReplay.Table
