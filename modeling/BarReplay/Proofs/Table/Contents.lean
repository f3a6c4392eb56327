import BarReplay.Proofs.Rule.Operands
import BarReplay.Proofs.Strategy.Acceptance
import BarReplay.Table.Bars
import Mathlib.Data.List.Forall2

/-!
# What a table holds

A table is read column by column number. What it holds is said here without any numbers: a `Sheet`
is its headings and its rows as texts, and the bar of a row depends on nothing but the cells of the
row with their headings. The date is that of the first cell under a heading for dates, and the value
of a field is that of the last cell under its name (`IsBarOf`). A table is accepted exactly if it is
text of one width, has the columns that it needs, and has a bar for every row; then its bars are
those of the rows that have a close, in the order of their dates (`readBars_eq_ok_iff`).
-/

namespace BarReplay

/-! ### What a bar stores -/

namespace Bar

/-- What a bar stores for a field that has this value or none: without a value, the close is stored
as an amount that is no number. -/
def storedAs : Field → Option Float → Option Float
  | .close, value => some (value.getD Arithmetic.undefined)
  | _, value => value

theorem stored_set (bar : Bar Float) (f : Field) (value : Option Float) :
    (bar.set f value).stored f = storedAs f value := by
  cases f <;> rfl

/-- A bar without any values. -/
theorem stored_blank (date : Date) (f : Field) :
    stored { date := date, close := (Arithmetic.undefined : Float) } f = storedAs f none := by
  cases f <;> rfl

deriving instance DecidableEq for Bar

/-- A bar is its date and what is stored for its fields. -/
theorem ext_stored {a b : Bar Float} (hdate : a.date = b.date)
    (hstored : ∀ f, a.stored f = b.stored f) : a = b := by
  obtain ⟨da, ca, a₁, a₂, a₃, a₄, a₅, a₆, a₇, a₈, a₉, a₁₀⟩ := a
  obtain ⟨db, cb, b₁, b₂, b₃, b₄, b₅, b₆, b₇, b₈, b₉, b₁₀⟩ := b
  have hclose : ca = cb := Option.some.inj (hstored .close)
  obtain rfl : da = db := hdate
  obtain rfl := hclose
  obtain rfl : a₁ = b₁ := hstored .rsi
  obtain rfl : a₂ = b₂ := hstored .macd
  obtain rfl : a₃ = b₃ := hstored .macdSignal
  obtain rfl : a₄ = b₄ := hstored .macdDiff
  obtain rfl : a₅ = b₅ := hstored .sma20
  obtain rfl : a₆ = b₆ := hstored .sma50
  obtain rfl : a₇ = b₇ := hstored .bbHigh
  obtain rfl : a₈ = b₈ := hstored .bbLow
  obtain rfl : a₉ = b₉ := hstored .volumeRatio
  obtain rfl : a₁₀ = b₁₀ := hstored .sentimentScore
  rfl

end Bar

namespace Table

/-! ### Texts -/

/-- The bytes are those of the text. -/
def IsText (bytes : List UInt8) (text : List Char) : Prop :=
  Text.decode bytes = .ok text

/-- A table as texts. -/
structure Sheet where
  headings : List (List Char)
  rows : List (List (List Char))

/-- The records of the input are the headings and the rows of the sheet, and all of them have as
many fields as there are headings. -/
structure Sheet.WrittenIn (sheet : Sheet) (input : List UInt8) : Prop where
  headings : List.Forall₂ IsText (splitHeader (records input)).1.fields sheet.headings
  rows : List.Forall₂ (List.Forall₂ IsText) ((splitHeader (records input)).2.map Record.fields)
    sheet.rows
  width : ∀ row ∈ sheet.rows, row.length = sheet.headings.length

theorem IsText.unique {bytes : List UInt8} {text text' : List Char} (h : IsText bytes text)
    (h' : IsText bytes text') : text = text' :=
  Except.ok.inj (h.symm.trans h')

theorem isText_rightUnique : Relator.RightUnique IsText :=
  fun _ _ _ h h' ↦ h.unique h'

/-- An input holds one sheet at most. -/
theorem Sheet.WrittenIn.unique {sheet sheet' : Sheet} {input : List UInt8}
    (h : sheet.WrittenIn input) (h' : sheet'.WrittenIn input) : sheet = sheet' := by
  obtain ⟨headings, rows⟩ := sheet
  obtain ⟨headings', rows'⟩ := sheet'
  obtain rfl : headings = headings' := isText_rightUnique.forall₂ h.headings h'.headings
  obtain rfl : rows = rows' := isText_rightUnique.forall₂.forall₂ h.rows h'.rows
  rfl

theorem decodeFields_eq_ok_iff {number index : Nat} {start : Place} {fields : List (List UInt8)}
    {texts : List (List Char)} :
    decodeFields number start index fields = .ok texts ↔ List.Forall₂ IsText fields texts := by
  induction fields generalizing index texts with
  | nil =>
    rw [decodeFields, List.forall₂_nil_left_iff, Except.ok.injEq, eq_comm]
  | cons field rest ih =>
    rw [List.forall₂_cons_left_iff, decodeFields]
    rcases hfield : Text.decode field with valid | text
    · simp [IsText, hfield]
    · simp only [except_map_eq_ok_iff, ih]
      constructor
      · rintro ⟨texts, hrest, rfl⟩
        exact ⟨text, texts, hfield, hrest, rfl⟩
      · rintro ⟨text', texts, htext, hrest, rfl⟩
        obtain rfl := Except.ok.inj (hfield.symm.trans htext)
        exact ⟨texts, hrest, rfl⟩

theorem decodeRecord_eq_ok_iff {number width : Nat} {r : Record} {row : List (List Char)} :
    decodeRecord number width r = .ok row ↔
      List.Forall₂ IsText r.fields row ∧ row.length = width := by
  rw [decodeRecord]
  split_ifs with hwidth
  · rw [decodeFields_eq_ok_iff]
    exact ⟨fun h ↦ ⟨h, h.length_eq.symm.trans hwidth⟩, And.left⟩
  · refine iff_of_false nofun fun ⟨h, hlength⟩ ↦ hwidth ?_
    rw [h.length_eq, hlength]

/-! ### The bar of a row -/

/-- The heading names the field, whatever blanks are around it and in either letter case. -/
def Names (heading : List Char) (f : Field) : Prop :=
  Text.asciiLower (Text.trim heading) = f.name.toList

instance (heading : List Char) (f : Field) : Decidable (Names heading f) :=
  inferInstanceAs (Decidable (_ = _))

theorem named?_trim_eq_some_iff {heading : List Char} {f : Field} :
    Field.named? (Text.trim heading) = some f ↔ Names heading f :=
  Rule.named?_eq_some_iff

theorem Names.unique {heading : List Char} {f g : Field} (hf : Names heading f)
    (hg : Names heading g) : f = g :=
  Option.some.inj ((named?_trim_eq_some_iff.2 hf).symm.trans (named?_trim_eq_some_iff.2 hg))

/-- The date cell among cells with their headings: the first one under a heading for dates. -/
def dateCell? (cells : List (List Char × List Char)) : Option (List Char) :=
  (cells.find? fun c ↦ isDateHeading c.1).map Prod.snd

/-- The cell of a field among cells with their headings: the last one under its name. -/
def fieldCell? (cells : List (List Char × List Char)) (f : Field) : Option (List Char) :=
  (cells.filter fun c ↦ Names c.1 f).getLast?.map Prod.snd

/-- The value of a field among cells with their headings. There is none if there is no column for
the field, or if its cell is undefined. -/
def value? (cells : List (List Char × List Char)) (f : Field) : Option Float :=
  ((fieldCell? cells f).bind readCell?).join

/-- The bar of a row, given by its cells with their headings. -/
structure IsBarOf (cells : List (List Char × List Char)) (bar : Bar Float) : Prop where
  date : (dateCell? cells).bind readDate? = some bar.date
  readable : ∀ c ∈ cells, ∀ f, Names c.1 f → (readCell? c.2).isSome
  stored : ∀ f, bar.stored f = Bar.storedAs f (value? cells f)

/-- The header has the columns that a table of bars needs. -/
structure HasColumns (headings : List (List Char)) : Prop where
  date : ∃ heading ∈ headings, isDateHeading heading = true
  close : ∃ heading ∈ headings, Names heading .close

/-- The sheet has the columns that it needs, and these are the bars of its rows. -/
structure Sheet.Describes (sheet : Sheet) (bars : List (Bar Float)) : Prop where
  columns : HasColumns sheet.headings
  rows : List.Forall₂ (fun row bar ↦ IsBarOf (sheet.headings.zip row) bar) sheet.rows bars

/-! ### Columns -/

theorem fieldColumns_cons (index : Nat) (heading : List Char) (rest : List (List Char)) :
    fieldColumns index (heading :: rest) =
      ((Field.named? (Text.trim heading)).map fun f ↦ (index, f)).toList ++
        fieldColumns (index + 1) rest := by
  rw [fieldColumns]
  split <;> simp [*]

/-- The columns of fields, with their cells in place of their numbers. -/
theorem map_fieldColumns {index : Nat} {headings row : List (List Char)}
    (hlength : row.length = index + headings.length) :
    (fieldColumns index headings).map (fun c ↦ (c.2, cellAt row c.1)) =
      (headings.zip (row.drop index)).filterMap fun c ↦
        (Field.named? (Text.trim c.1)).map fun f ↦ (f, c.2) := by
  induction headings generalizing index with
  | nil => rfl
  | cons heading rest ih =>
    have hindex : index < row.length := by simp only [List.length_cons] at hlength; omega
    have hrest : row.length = index + 1 + rest.length := by
      simp only [List.length_cons] at hlength; omega
    have hcell : cellAt row index = row[index] := by simp [cellAt, hindex]
    rw [fieldColumns_cons, List.map_append, ih hrest, List.drop_eq_getElem_cons hindex,
      List.zip_cons_cons, List.filterMap_cons]
    cases hname : Field.named? (Text.trim heading) <;> simp [hcell]

theorem mem_fieldColumns_iff (index : Nat) {headings : List (List Char)} {f : Field} :
    (∃ c ∈ fieldColumns index headings, c.2 = f) ↔ ∃ heading ∈ headings, Names heading f := by
  induction headings generalizing index with
  | nil => simp [fieldColumns]
  | cons heading rest ih =>
    rw [fieldColumns_cons, List.exists_mem_cons_iff, ← ih (index + 1)]
    simp only [List.mem_append, or_and_right, exists_or, ← named?_trim_eq_some_iff]
    refine or_congr_left ?_
    cases Field.named? (Text.trim heading) <;> simp

theorem columns_eq_ok_iff {headings : List (List Char)} {cols : Columns} :
    columns headings = .ok cols ↔ HasColumns headings ∧
      cols = ⟨headings.length, headings.findIdx isDateHeading, fieldColumns 0 headings⟩ := by
  have hclose : ((fieldColumns 0 headings).any fun c ↦ c.2 == .close) = true ↔
      ∃ heading ∈ headings, Names heading .close := by
    rw [← mem_fieldColumns_iff 0, List.any_eq_true]
    simp only [beq_iff_eq]
  rw [columns]
  rcases hdate : headings.findIdx? isDateHeading with - | date
  · refine iff_of_false nofun fun h ↦ ?_
    obtain ⟨heading, hmem, hheading⟩ := h.1.date
    exact absurd hheading (by simp [List.findIdx?_eq_none_iff.1 hdate heading hmem])
  · obtain ⟨hlt, hindex⟩ := List.findIdx?_eq_some_iff_findIdx_eq.1 hdate
    have hhas : ∃ heading ∈ headings, isDateHeading heading = true :=
      List.findIdx_lt_length.1 (hindex ▸ hlt)
    simp only [hindex]
    split_ifs with hany
    · rw [Except.ok.injEq, eq_comm]
      exact ⟨fun h ↦ ⟨⟨hhas, hclose.1 hany⟩, h⟩, And.right⟩
    · exact iff_of_false nofun fun h ↦ hany (hclose.2 h.1.close)

/-! ### Rows -/

/-- The cell in the date column is the first one under a heading for dates. -/
theorem dateCell?_zip {headings row : List (List Char)} (hlength : row.length = headings.length)
    (hdate : ∃ heading ∈ headings, isDateHeading heading = true) :
    dateCell? (headings.zip row) = some (cellAt row (headings.findIdx isDateHeading)) := by
  induction headings generalizing row with
  | nil => obtain ⟨_, hmem, -⟩ := hdate; cases hmem
  | cons heading rest ih =>
    obtain ⟨cell, row, rfl⟩ := List.exists_cons_of_length_eq_add_one hlength
    rw [dateCell?, List.zip_cons_cons, List.find?_cons, List.findIdx_cons]
    rcases hheading : isDateHeading heading with - | -
    · have hrest : ∃ heading ∈ rest, isDateHeading heading = true := by
        rw [List.exists_mem_cons_iff, hheading] at hdate
        exact hdate.resolve_left Bool.false_ne_true
      exact ih (Nat.succ.inj hlength) hrest
    · rfl

/-- A bar is filled from the cells of the columns, each with its field. -/
theorem fillBar_eq_ok_iff {line : Nat} {row : List (List Char)} {cols : List (Nat × Field)}
    {bar bar' : Bar Float} {entries : List (Field × List Char)}
    (hentries : cols.map (fun c ↦ (c.2, cellAt row c.1)) = entries) :
    fillBar line row bar cols = .ok bar' ↔ bar'.date = bar.date ∧
      (∀ e ∈ entries, (readCell? e.2).isSome) ∧
      ∀ f, bar'.stored f = ((entries.filter fun e ↦ e.1 = f).getLast?.map fun e ↦
        Bar.storedAs f (readCell? e.2).join).getD (bar.stored f) := by
  induction cols generalizing bar entries with
  | nil =>
    subst hentries
    simp only [fillBar, Except.ok.injEq, List.map_nil, List.filter_nil, List.getLast?_nil,
      Option.map_none, Option.getD_none, List.not_mem_nil, false_imp_iff, implies_true, true_and]
    constructor
    · rintro rfl
      exact ⟨rfl, fun _ ↦ rfl⟩
    · exact fun ⟨hdate, hstored⟩ ↦ (Bar.ext_stored hdate hstored).symm
  | cons c cols ih =>
    obtain ⟨index, g⟩ := c
    subst hentries
    rw [fillBar, List.map_cons, List.forall_mem_cons]
    rcases hcell : readCell? (cellAt row index) with - | value
    · exact iff_of_false nofun fun h ↦ by simp at h
    · simp only [ih rfl, Bar.date_set, Option.isSome_some, true_and]
      refine and_congr_right fun _ ↦ and_congr_right fun _ ↦ forall_congr' fun f ↦ ?_
      rw [List.filter_cons]
      by_cases hf : g = f
      · subst hf
        rw [if_pos (decide_eq_true rfl), List.getLast?_cons, Bar.stored_set]
        rcases (List.filter _ _).getLast? with - | e <;> simp [hcell]
      · rw [if_neg (by simpa using hf), Bar.stored_set_of_ne (Ne.symm hf)]

/-- The cells of fields, among those with a heading that names one. -/
theorem filter_filterMap_named (cells : List (List Char × List Char)) (f : Field) :
    (cells.filterMap fun c ↦ (Field.named? (Text.trim c.1)).map fun g ↦ (g, c.2)).filter
      (fun e ↦ e.1 = f) = (cells.filter fun c ↦ Names c.1 f).map fun c ↦ (f, c.2) := by
  induction cells with
  | nil => rfl
  | cons c cells ih =>
    rw [List.filterMap_cons, List.filter_cons]
    rcases hname : Field.named? (Text.trim c.1) with - | g
    · have hnot : ¬ Names c.1 f := fun h ↦ by
        rw [named?_trim_eq_some_iff.2 h] at hname
        cases hname
      rw [if_neg (by simpa using hnot)]
      exact ih
    · have hg : Names c.1 g := named?_trim_eq_some_iff.1 hname
      by_cases hf : g = f
      · subst hf
        simp [hg, ih]
      · have hnot : ¬ Names c.1 f := fun h ↦ hf (hg.unique h)
        simp [hf, hnot, ih]

/-- What is stored last for a field is its value. -/
theorem storedAs_value? (cells : List (List Char × List Char)) (f : Field) :
    ((((cells.filter fun c ↦ Names c.1 f).map fun c ↦ (f, c.2)).getLast?.map fun e ↦
      Bar.storedAs f (readCell? e.2).join).getD (Bar.storedAs f none)) =
      Bar.storedAs f (value? cells f) := by
  rw [value?, fieldCell?, List.getLast?_map]
  rcases (List.filter _ _).getLast? with - | c <;> rfl

/-- **The bar of a row is that of its cells.** -/
theorem readRow_eq_ok_iff {headings row : List (List Char)} {line : Nat} {bar : Bar Float}
    {cols : Columns} (hcols : columns headings = .ok cols)
    (hlength : row.length = headings.length) :
    readRow cols line row = .ok bar ↔ IsBarOf (headings.zip row) bar := by
  obtain ⟨hhas, rfl⟩ := columns_eq_ok_iff.1 hcols
  have hwidth : row.length = 0 + headings.length := by rw [hlength, Nat.zero_add]
  have hentries := map_fieldColumns hwidth
  rw [List.drop_zero] at hentries
  have hdate : (dateCell? (headings.zip row)).bind readDate? =
      readDate? (cellAt row (headings.findIdx isDateHeading)) := by
    rw [dateCell?_zip hlength hhas.date, Option.bind_some]
  rw [readRow]
  rcases hread : readDate? (cellAt row (headings.findIdx isDateHeading)) with - | date
  · refine iff_of_false nofun fun h ↦ ?_
    have hbar := hdate.symm.trans h.date
    rw [hread] at hbar
    cases hbar
  · rw [hread] at hdate
    simp only [fillBar_eq_ok_iff hentries, filter_filterMap_named, Bar.stored_blank,
      storedAs_value?]
    constructor
    · rintro ⟨hbar, hreadable, hstored⟩
      refine ⟨by rw [hdate, hbar], fun c hc f hf ↦ ?_, hstored⟩
      refine hreadable (f, c.2) (List.mem_filterMap.2 ⟨c, hc, ?_⟩)
      rw [named?_trim_eq_some_iff.2 hf, Option.map_some]
    · rintro ⟨hbar, hreadable, hstored⟩
      refine ⟨(Option.some.inj (hdate.symm.trans hbar)).symm, fun e he ↦ ?_, hstored⟩
      obtain ⟨c, hc, hentry⟩ := List.mem_filterMap.1 he
      obtain ⟨f, hf, rfl⟩ := Option.map_eq_some_iff.1 hentry
      exact hreadable c hc f (named?_trim_eq_some_iff.1 hf)

/-! ### Tables -/

/-- **The rows of a table are read if all of them are text of the right width and have bars.** Those
without a close are left out. -/
theorem readRows_eq_ok_iff {headings : List (List Char)} {cols : Columns} {number : Nat}
    {rs : List Record} {bars : List (Bar Float)} (hcols : columns headings = .ok cols) :
    readRows cols number rs = .ok bars ↔
      ∃ (rows : List (List (List Char))) (all : List (Bar Float)),
      List.Forall₂ (List.Forall₂ IsText) (rs.map Record.fields) rows ∧
      (∀ row ∈ rows, row.length = headings.length) ∧
      List.Forall₂ (fun row bar ↦ IsBarOf (headings.zip row) bar) rows all ∧
      bars = all.filter fun b ↦ !b.close.isNaN := by
  have hwidth : cols.width = headings.length := by rw [(columns_eq_ok_iff.1 hcols).2]
  induction rs generalizing number bars with
  | nil =>
    rw [readRows, Except.ok.injEq]
    constructor
    · rintro rfl
      exact ⟨[], [], .nil, by simp, .nil, rfl⟩
    · rintro ⟨_, _, hrows, -, hall, rfl⟩
      cases hrows
      cases hall
      rfl
  | cons r rest ih =>
    simp only [readRows, except_bind_eq_ok_iff, except_mapError_eq_ok_iff, decodeRecord_eq_ok_iff,
      ih, hwidth]
    constructor
    · rintro ⟨row, ⟨htext, hlength⟩, bar, hbar, _, ⟨rows, all, hrows, hwidths, hall, rfl⟩, hok⟩
      refine ⟨row :: rows, bar :: all, .cons htext hrows, ?_,
        .cons ((readRow_eq_ok_iff hcols hlength).1 hbar) hall, ?_⟩
      · exact List.forall_mem_cons.2 ⟨hlength, hwidths⟩
      · obtain rfl := Except.ok.inj hok
        rw [List.filter_cons]
        cases bar.close.isNaN <;> rfl
    · rintro ⟨_, _, hrows, hwidths, hall, rfl⟩
      obtain ⟨row, rows, htext, hrest, rfl⟩ := List.forall₂_cons_left_iff.1 hrows
      obtain ⟨bar, all, hbar, hbars, rfl⟩ := List.forall₂_cons_left_iff.1 hall
      obtain ⟨hlength, hwidths⟩ := List.forall_mem_cons.1 hwidths
      refine ⟨row, ⟨htext, hlength⟩, bar, (readRow_eq_ok_iff hcols hlength).2 hbar, _,
        ⟨rows, all, hrest, hwidths, hbars, rfl⟩, ?_⟩
      rw [List.filter_cons]
      cases bar.close.isNaN <;> rfl

/-- The bars of a table in the order of its rows. -/
def readUnordered (input : List UInt8) : Except DataFault (List (Bar Float)) := do
  let (header, rest) := splitHeader (records input)
  let headings ← (decodeFields 0 header.start 0 header.fields).mapError .header
  let cols ← columns headings
  readRows cols 1 rest

/-- The order of dates is brought about at the end. -/
theorem readBars_eq (input : List UInt8) : readBars input = (readUnordered input).map byDate := by
  show _ = byDate <$> readUnordered input
  simp only [readBars, readUnordered, map_bind, bind_pure_comp]

/-- **A table is accepted exactly if it is text of one width and has bars.** -/
theorem readUnordered_eq_ok_iff {input : List UInt8} {bars : List (Bar Float)} :
    readUnordered input = .ok bars ↔ ∃ (sheet : Sheet) (all : List (Bar Float)),
      sheet.WrittenIn input ∧ sheet.Describes all ∧
        bars = all.filter fun b ↦ !b.close.isNaN := by
  simp only [readUnordered, except_bind_eq_ok_iff, except_mapError_eq_ok_iff,
    decodeFields_eq_ok_iff]
  constructor
  · rintro ⟨headings, hheadings, cols, hcols, hkept⟩
    obtain ⟨rows, all, hrows, hwidth, hall, rfl⟩ := (readRows_eq_ok_iff hcols).1 hkept
    exact ⟨⟨headings, rows⟩, all, ⟨hheadings, hrows, hwidth⟩,
      ⟨(columns_eq_ok_iff.1 hcols).1, hall⟩, rfl⟩
  · rintro ⟨⟨headings, rows⟩, all, hsheet, hbars, rfl⟩
    have hcols := columns_eq_ok_iff.2 ⟨hbars.columns, rfl⟩
    exact ⟨headings, hsheet.headings, _, hcols, (readRows_eq_ok_iff hcols).2
      ⟨rows, all, hsheet.rows, hsheet.width, hbars.rows, rfl⟩⟩

/-- **The bars of a table are those of its rows that have a close, in the order of their dates.** -/
theorem readBars_eq_ok_iff {input : List UInt8} {bars : List (Bar Float)} :
    readBars input = .ok bars ↔ ∃ (sheet : Sheet) (all : List (Bar Float)),
      sheet.WrittenIn input ∧ sheet.Describes all ∧
        bars = byDate (all.filter fun b ↦ !b.close.isNaN) := by
  simp only [readBars_eq, except_map_eq_ok_iff, readUnordered_eq_ok_iff]
  constructor
  · rintro ⟨kept, ⟨sheet, all, hsheet, hbars, rfl⟩, rfl⟩
    exact ⟨sheet, all, hsheet, hbars, rfl⟩
  · rintro ⟨sheet, all, hsheet, hbars, rfl⟩
    exact ⟨_, ⟨sheet, all, hsheet, hbars, rfl⟩, rfl⟩

end Table

end BarReplay
