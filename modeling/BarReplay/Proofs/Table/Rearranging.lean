import BarReplay.Proofs.Table.Contents
import BarReplay.Proofs.Table.DateOrder
import Mathlib.Data.List.NodupEquivFin

/-!
# Tables written in another order

The bar of a row is found through the headings, so it does not matter where a column stands, as long
as it is clear which one counts: of the cells of a row only those under a heading for dates and
under the name of a field are looked at, and of these the order in which they stand
(`IsBarOf.congr`). So the columns may change places if no heading comes twice, and columns of which
nothing is known may be put between them in any case. Nor does the order of the rows matter if no
date comes twice.
-/

namespace BarReplay.Table

/-! ### Columns in another order -/

/-- The texts in the given columns. -/
def pick (order : List Nat) (texts : List (List Char)) : List (List Char) :=
  order.map (cellAt texts)

/-- The sheet with the given columns, in this order. -/
def Sheet.pick (sheet : Sheet) (order : List Nat) : Sheet :=
  ⟨Table.pick order sheet.headings, sheet.rows.map (Table.pick order)⟩

theorem zip_pick (order : List Nat) (texts texts' : List (List Char)) :
    (pick order texts).zip (pick order texts') =
      order.map fun i ↦ (cellAt texts i, cellAt texts' i) := by
  rw [pick, pick, List.zip_map']

theorem pick_range (texts : List (List Char)) : pick (List.range texts.length) texts = texts := by
  refine List.ext_getElem (by simp [pick]) fun i h h' ↦ ?_
  simp [pick, cellAt, h']

/-- The cells of a row with their headings, column by column. -/
theorem zip_eq_map_range {headings row : List (List Char)} (h : row.length = headings.length) :
    headings.zip row =
      (List.range headings.length).map fun i ↦ (cellAt headings i, cellAt row i) := by
  rw [← zip_pick, pick_range, ← h, pick_range]

/-- What is left of a list without repetitions by a filter is left of a part of it that has
everything the filter lets through. -/
theorem filter_eq_of_sublist {α : Type} {p : α → Bool} {part all : List α} (h : part.Sublist all)
    (hall : all.Nodup) (hp : ∀ x ∈ all, x ∉ part → p x = false) :
    all.filter p = part.filter p := by
  induction h with
  | slnil => rfl
  | @cons part all x h ih =>
    obtain ⟨hx, hall⟩ := List.nodup_cons.1 hall
    have hdrop : p x = false := hp x List.mem_cons_self fun hmem ↦ hx (h.subset hmem)
    rw [List.filter_cons_of_neg (by simp [hdrop])]
    exact ih hall fun y hy ↦ hp y (List.mem_cons_of_mem x hy)
  | @cons_cons part all x h ih =>
    obtain ⟨hx, hall⟩ := List.nodup_cons.1 hall
    have hrest : all.filter p = part.filter p := by
      refine ih hall fun y hy hnot ↦ hp y (List.mem_cons_of_mem x hy) fun hmem ↦ ?_
      rcases List.mem_cons.1 hmem with rfl | hmem
      · exact hx hy
      · exact hnot hmem
    rw [List.filter_cons, List.filter_cons, hrest]

/-- Lists of at most one element in common order are equal. -/
theorem filter_eq_of_perm {α : Type} {p : α → Bool} {l l' : List α} (h : l'.Perm l)
    (hone : l.countP p ≤ 1) : l'.filter p = l.filter p := by
  have hfilter := h.filter p
  rw [List.countP_eq_length_filter] at hone
  match hl : l.filter p with
  | [] => rw [hl] at hfilter; exact hfilter.eq_nil
  | [x] => rw [hl] at hfilter; exact List.perm_singleton.1 hfilter
  | _ :: _ :: _ => simp [hl] at hone

/-! ### The cells that count -/

/-- The bar of a row depends on the cells under headings for dates and under the names of fields. -/
theorem IsBarOf.congr {cells cells' : List (List Char × List Char)} {bar : Bar Float}
    (hdate : (cells'.filter fun c ↦ isDateHeading c.1) = cells.filter fun c ↦ isDateHeading c.1)
    (hnames : ∀ f, (cells'.filter fun c ↦ Names c.1 f) = cells.filter fun c ↦ Names c.1 f)
    (h : IsBarOf cells bar) : IsBarOf cells' bar := by
  have hcell : dateCell? cells' = dateCell? cells := by
    rw [dateCell?, dateCell?, ← List.head?_filter, ← List.head?_filter, hdate]
  have hvalue (f : Field) : value? cells' f = value? cells f := by
    rw [value?, value?, fieldCell?, fieldCell?, hnames]
  refine ⟨hcell ▸ h.date, fun c hc f hf ↦ h.readable c ?_ f hf, fun f ↦ hvalue f ▸ h.stored f⟩
  have hmem : c ∈ cells.filter fun c ↦ Names c.1 f :=
    hnames f ▸ List.mem_filter.2 ⟨hc, decide_eq_true hf⟩
  exact (List.mem_filter.1 hmem).1

/-- No heading comes twice: there is one heading for dates at most, and one for each field. -/
structure SingleColumns (headings : List (List Char)) : Prop where
  date : headings.countP isDateHeading ≤ 1
  field : ∀ f, (headings.countP fun heading ↦ Names heading f) ≤ 1

/-- The heading is neither one for dates nor the name of a field. -/
def IsUnknown (heading : List Char) : Prop :=
  isDateHeading heading = false ∧ ∀ f, ¬ Names heading f

theorem countP_zip {headings row : List (List Char)} (p : List Char → Bool)
    (h : row.length = headings.length) :
    ((headings.zip row).countP fun c ↦ p c.1) = headings.countP p := by
  have hmap : (headings.zip row).map Prod.fst = headings := List.map_fst_zip h.ge
  rw [← hmap, List.countP_map, hmap]
  rfl

section Sheet

variable {sheet : Sheet} {bars : List (Bar Float)}

/-- Columns may change places if no heading comes twice. -/
theorem Sheet.Describes.permute {order : List Nat} (h : sheet.Describes bars)
    (hwidth : ∀ row ∈ sheet.rows, row.length = sheet.headings.length)
    (horder : order.Perm (List.range sheet.headings.length))
    (hsingle : SingleColumns sheet.headings) : (sheet.pick order).Describes bars := by
  have hheadings : (Table.pick order sheet.headings).Perm sheet.headings := by
    have hperm := horder.map (cellAt sheet.headings)
    rwa [← Table.pick, ← Table.pick, pick_range] at hperm
  refine ⟨⟨?_, ?_⟩, ?_⟩
  · obtain ⟨heading, hmem, hdate⟩ := h.columns.date
    exact ⟨heading, hheadings.mem_iff.2 hmem, hdate⟩
  · obtain ⟨heading, hmem, hclose⟩ := h.columns.close
    exact ⟨heading, hheadings.mem_iff.2 hmem, hclose⟩
  · rw [Sheet.pick, List.forall₂_map_left_iff]
    refine ((List.forall₂_and_left _ _).2 ⟨hwidth, h.rows⟩).imp fun row bar ⟨hlength, hbar⟩ ↦ ?_
    have hcells : ((Table.pick order sheet.headings).zip (Table.pick order row)).Perm
        (sheet.headings.zip row) := by
      rw [zip_pick, zip_eq_map_range hlength]
      exact horder.map _
    refine hbar.congr (filter_eq_of_perm hcells ?_) fun f ↦ filter_eq_of_perm hcells ?_
    · rw [countP_zip isDateHeading hlength]
      exact hsingle.date
    · rw [countP_zip (fun heading ↦ decide (Names heading f)) hlength]
      exact hsingle.field f

/-- Columns of which nothing is known may be put in anywhere. -/
theorem Sheet.Describes.insert {kept : List Nat}
    (hwidth : ∀ row ∈ sheet.rows, row.length = sheet.headings.length)
    (hkept : kept.Sublist (List.range sheet.headings.length))
    (hunknown : ∀ i < sheet.headings.length, i ∉ kept → IsUnknown (cellAt sheet.headings i))
    (h : (sheet.pick kept).Describes bars) : sheet.Describes bars := by
  have hheadings : (Table.pick kept sheet.headings).Sublist sheet.headings := by
    have hsub := hkept.map (cellAt sheet.headings)
    rwa [← Table.pick, ← Table.pick, pick_range] at hsub
  refine ⟨⟨?_, ?_⟩, ?_⟩
  · obtain ⟨heading, hmem, hdate⟩ := h.columns.date
    exact ⟨heading, hheadings.subset hmem, hdate⟩
  · obtain ⟨heading, hmem, hclose⟩ := h.columns.close
    exact ⟨heading, hheadings.subset hmem, hclose⟩
  · have hrows := h.rows
    rw [Sheet.pick, List.forall₂_map_left_iff] at hrows
    refine ((List.forall₂_and_left _ _).2 ⟨hwidth, hrows⟩).imp fun row bar ⟨hlength, hbar⟩ ↦ ?_
    have hcells (p : List Char → Bool) (hp : ∀ heading, IsUnknown heading → p heading = false) :
        ((sheet.headings.zip row).filter fun c ↦ p c.1) =
          ((Table.pick kept sheet.headings).zip (Table.pick kept row)).filter fun c ↦ p c.1 := by
      rw [zip_pick, zip_eq_map_range hlength, List.filter_map, List.filter_map]
      congr 1
      refine filter_eq_of_sublist hkept List.nodup_range fun i hi hnot ↦ ?_
      exact hp _ (hunknown i (List.mem_range.1 hi) hnot)
    refine hbar.congr (hcells isDateHeading fun heading h ↦ h.1) fun f ↦ ?_
    exact hcells (fun heading ↦ decide (Names heading f)) fun heading h ↦ decide_eq_false (h.2 f)

/-- Rows in another order have their bars in that order. -/
theorem Sheet.Describes.exists_perm {rows : List (List (List Char))} (h : sheet.Describes bars)
    (hrows : rows.Perm sheet.rows) :
    ∃ bars', Sheet.Describes ⟨sheet.headings, rows⟩ bars' ∧ bars'.Perm bars := by
  obtain ⟨bars', hbars, hperm⟩ := List.perm_comp_forall₂ hrows h.rows
  exact ⟨bars', ⟨h.columns, hbars⟩, hperm⟩

end Sheet

/-- The cell is empty or says that it has no value. -/
def IsBlankCell (cell : List Char) : Prop :=
  Text.asciiLower (Text.trim cell) ∈ [[], "nan".toList, "null".toList]

/-- A field without a column, and one whose cell is blank, are undefined in the bar of the row. -/
theorem IsBarOf.reading_eq_none {cells : List (List Char × List Char)} {bar : Bar Float} {f : Field}
    (h : IsBarOf cells bar) (hblank : ∀ cell ∈ fieldCell? cells f, IsBlankCell cell) :
    bar.reading f = none := by
  have hvalue : value? cells f = none := by
    rw [value?]
    cases hcell : fieldCell? cells f with
    | none => rfl
    | some cell =>
      have hword : Text.asciiLower (Text.trim cell) = [] ∨
          Text.asciiLower (Text.trim cell) = "nan".toList ∨
          Text.asciiLower (Text.trim cell) = "null".toList := by
        simpa [IsBlankCell] using hblank cell hcell
      have hread : readCell? cell = some none := by
        simp only [readCell?, String.ofList_eq]
        exact if_pos hword
      rw [Option.bind_some, hread, Option.join_some]
  show (bar.stored f).filter Arithmetic.isFinite = none
  rw [h.stored, hvalue]
  cases f <;> rfl

/-- **No row is lost, none comes twice, and no cell is put into the wrong field.** What has no
column or a blank cell is undefined. -/
theorem readBars_keeps_rows {input : List UInt8} {bars : List (Bar Float)}
    (h : readBars input = .ok bars) :
    ∃ (sheet : Sheet) (all : List (Bar Float)), sheet.WrittenIn input ∧ sheet.Describes all ∧
      List.Forall₂ (fun row bar ↦ ∀ f,
        (∀ cell ∈ fieldCell? (sheet.headings.zip row) f, IsBlankCell cell) →
          bar.reading f = none) sheet.rows all ∧
      InDateOrder (all.filter fun b ↦ !b.close.isNaN) bars ∧
      (∀ input' rows, Sheet.WrittenIn ⟨sheet.headings, rows⟩ input' → rows.Perm sheet.rows →
        (bars.map Bar.date).Nodup → readBars input' = .ok bars) ∧
      (∀ input' order, (sheet.pick order).WrittenIn input' →
        order.Perm (List.range sheet.headings.length) → SingleColumns sheet.headings →
        readBars input' = .ok bars) ∧
      ∀ input' (sheet' : Sheet) kept, sheet'.WrittenIn input' → sheet'.pick kept = sheet →
        kept.Sublist (List.range sheet'.headings.length) →
        (∀ i < sheet'.headings.length, i ∉ kept → IsUnknown (cellAt sheet'.headings i)) →
        readBars input' = .ok bars := by
  obtain ⟨sheet, all, hsheet, hall, rfl⟩ := readBars_eq_ok_iff.1 h
  have hordered := inDateOrder_byDate (all.filter fun b ↦ !b.close.isNaN)
  refine ⟨sheet, all, hsheet, hall, hall.rows.imp fun row bar hbar f ↦ hbar.reading_eq_none,
    hordered, fun input' rows hwritten hperm hdates ↦ ?_,
    fun input' order hwritten horder hsingle ↦ ?_,
    fun input' sheet' kept hwritten hpick hkept hunknown ↦ ?_⟩
  · obtain ⟨all', hall', hbars⟩ := hall.exists_perm hperm
    refine readBars_eq_ok_iff.2 ⟨_, all', hwritten, hall', ?_⟩
    exact hordered.eq_of_perm (inDateOrder_byDate _) (hbars.filter _).symm hdates
  · exact readBars_eq_ok_iff.2
      ⟨_, all, hwritten, hall.permute hsheet.width horder hsingle, rfl⟩
  · subst hpick
    exact readBars_eq_ok_iff.2
      ⟨sheet', all, hwritten, .insert hwritten.width hkept hunknown hall, rfl⟩

namespace Sample

/-- The bytes of a text of ASCII characters. -/
def bytes (text : String) : List UInt8 :=
  text.toList.map Char.toUInt8

/-- A table with a row that has no close. -/
def table : List UInt8 :=
  bytes "Date,close, RSI ,note\n2024-01-03,12,40,x\n2024-01-02,,50,y\n2024-01-01,10,nan,z\n"

/-- The table with its rows in reverse. -/
def reversed : List UInt8 :=
  bytes "Date,close, RSI ,note\n2024-01-01,10,nan,z\n2024-01-02,,50,y\n2024-01-03,12,40,x\n"

theorem isDate_january (day : Nat) : IsDate 2024 1 (day % 31 + 1) := by
  simp only [IsDate, daysInMonth]
  omega

/-- A bar with a day of January 2024, counted from zero, and no value but the close. -/
def barOn (day : Nat) (close : Float) : Bar Float :=
  { date := ⟨2024, 1, day % 31 + 1, isDate_january day⟩, close := close }

/-- The bars of the table. -/
def bars : List (Bar Float) :=
  [barOn 0 10, { barOn 2 12 with rsi := some 40 }]

theorem readBars_table : readBars table = .ok bars := by
  have hread : readUnordered table = .ok bars.reverse := by decide +kernel
  have horder : byDate bars.reverse = bars := by cbv
  rw [readBars_eq, hread]
  exact congrArg Except.ok horder

/-- The reversed table holds the sheet of the table with its rows in reverse. -/
theorem writtenIn_reversed {sheet : Sheet} (h : sheet.WrittenIn table) :
    Sheet.WrittenIn ⟨sheet.headings, sheet.rows.reverse⟩ reversed := by
  have hheadings : (splitHeader (records reversed)).1.fields =
      (splitHeader (records table)).1.fields := by decide +kernel
  have hrows : (splitHeader (records reversed)).2.map Record.fields =
      ((splitHeader (records table)).2.map Record.fields).reverse := by decide +kernel
  refine ⟨?_, ?_, fun row hrow ↦ h.width row (List.mem_reverse.1 hrow)⟩
  · rw [hheadings]
    exact h.headings
  · rw [hrows]
    exact List.rel_reverse h.rows

end Sample

/-- The row without a close is left out, and the table has the same bars with its rows in
reverse. -/
theorem sample_keeps_rows : readBars Sample.table = .ok Sample.bars ∧
    (Sample.bars.map Bar.date).Nodup ∧ readBars Sample.reversed = .ok Sample.bars := by
  have hdates : (Sample.bars.map Bar.date).Nodup := by decide
  obtain ⟨sheet, -, hsheet, -, -, -, hrows, -, -⟩ := readBars_keeps_rows Sample.readBars_table
  exact ⟨Sample.readBars_table, hdates,
    hrows _ _ (Sample.writtenIn_reversed hsheet) (List.reverse_perm _) hdates⟩

end BarReplay.Table
