import BarReplay.Proofs.Table.Layout
import BarReplay.Proofs.Table.Rearranging

/-!
# The lines of a table

When a date or a cell of a record cannot be read, the fault names a line, which is the number of the
record counted from the header. The record stands on the line of the input that has as many ends of
lines before it as its layout tells. The two agree only as long as every record before is one line:
blank lines and line breaks within quotes are not counted, so the line that is named is too small by
their number (`Layout.line_eq`), and the fault is still that of the first record that has no bar
(`fault_line_iff`).
-/

namespace BarReplay

namespace Table

/-! ### Ends of lines -/

/-- The ends of lines in the bytes. A carriage return and the line feed behind it are one end. -/
def lineEnds : List UInt8 → Nat
  | [] => 0
  | b :: bs => (if b = 0x0A ∨ b = 0x0D ∧ bs.head? ≠ some 0x0A then 1 else 0) + lineEnds bs

variable {mode : Mode} {body ends xs ys : List UInt8}

/-- Ends of lines are counted part by part, unless a line end is cut apart. -/
theorem lineEnds_append (h : xs.getLast? ≠ some 0x0D ∨ ys.head? ≠ some 0x0A) :
    lineEnds (xs ++ ys) = lineEnds xs + lineEnds ys := by
  induction xs with
  | nil => simp [lineEnds]
  | cons x xs ih =>
    cases xs with
    | nil =>
      -- only for the last byte does it matter what follows
      have hend : (x = 0x0A ∨ x = 0x0D ∧ ys.head? ≠ some 0x0A) ↔
          (x = 0x0A ∨ x = 0x0D ∧ ([] : List UInt8).head? ≠ some 0x0A) := by
        simp only [List.getLast?_singleton, Ne, Option.some.injEq] at h
        refine or_congr_right (and_congr_right fun hx ↦ ?_)
        exact iff_of_true (h.resolve_left (not_not_intro hx)) nofun
      rw [List.singleton_append, lineEnds, lineEnds, lineEnds, Nat.add_zero]
      simp only [hend]
    | cons y xs =>
      rw [List.getLast?_cons_cons] at h
      show _ + lineEnds (y :: xs ++ ys) = _ + lineEnds (y :: xs) + lineEnds ys
      rw [ih h, Nat.add_assoc]
      rfl

theorem lineEnds_pos (hsome : ends ≠ []) (hends : ∀ b ∈ ends, isEnd b = true) :
    0 < lineEnds ends := by
  induction ends with
  | nil => exact absurd rfl hsome
  | cons b ends ih =>
    obtain ⟨hb, hends⟩ := List.forall_mem_cons.1 hends
    rw [lineEnds]
    cases ends with
    | nil =>
      have hend : b = 0x0A ∨ b = 0x0D := by simpa [isEnd] using hb
      have hcount : b = 0x0A ∨ b = 0x0D ∧ ([] : List UInt8).head? ≠ some 0x0A :=
        hend.imp_right fun h ↦ ⟨h, (Option.some_ne_none _).symm⟩
      rw [if_pos hcount]
      exact Nat.succ_pos _
    | cons c ends => exact Nat.add_pos_right _ (ih (List.cons_ne_nil c ends) hends)

/-- A body does not end with a carriage return. -/
theorem IsBody.getLast?_ne (h : IsBody mode body) : body.getLast? ≠ some 0x0D := by
  induction body generalizing mode with
  | nil => exact nofun
  | cons b body ih =>
    obtain ⟨hwithin, hbody⟩ := h
    cases body with
    | nil =>
      -- a carriage return ends the record, or leaves it within quotes
      rintro ⟨rfl⟩
      cases mode with
      | quoted => exact hbody.2 rfl
      | between | field | plain | quote => exact hbody.1 rfl
    | cons c body =>
      rw [List.getLast?_cons_cons]
      exact ih hbody

/-! ### The line of a record -/

/-- The ends of lines in a piece beyond the one that a record has. -/
def Piece.uncounted (piece : Piece) : Nat :=
  lineEnds piece.body + (lineEnds piece.ends - 1)

theorem head?_bytes_ne (pieces : List Piece) :
    (pieces.flatMap Piece.bytes).head? ≠ some 0x0A := by
  cases pieces with
  | nil => exact nofun
  | cons piece pieces =>
    obtain ⟨b, bs, hbody, hb⟩ := piece.isBody.beginsRecord
    rw [List.flatMap_cons, Piece.bytes, hbody]
    rintro ⟨rfl⟩
    exact absurd hb (by decide)

/-- Every piece has one end of a line, and those that are not counted. -/
theorem lineEnds_pieces (pieces : List Piece) :
    lineEnds (pieces.flatMap Piece.bytes) = pieces.length + (pieces.map Piece.uncounted).sum := by
  induction pieces with
  | nil => rfl
  | cons piece pieces ih =>
    have hpos := lineEnds_pos piece.isEnds.1 piece.isEnds.2
    rw [List.flatMap_cons, lineEnds_append (.inr (head?_bytes_ne pieces)), ih, Piece.bytes,
      lineEnds_append (.inl piece.isBody.getLast?_ne), List.map_cons, List.sum_cons,
      List.length_cons, Piece.uncounted]
    omega

namespace Layout

variable {input : List UInt8} (layout : Layout input)

/-- The line on which the record starts. -/
def line : Nat :=
  lineEnds (markOf input ++ (layout.blank ++ layout.pieces.flatMap Piece.bytes)) + 1

/-- The ends of lines before the record that are not the one end of a record before it. -/
def uncounted : Nat :=
  lineEnds layout.blank + (layout.pieces.map Piece.uncounted).sum

/-- Every record before this one is a line, and there are no other lines. -/
structure IsLineByLine : Prop where
  blank : layout.blank = []
  body : ∀ piece ∈ layout.pieces, lineEnds piece.body = 0
  ends : ∀ piece ∈ layout.pieces, lineEnds piece.ends = 1

theorem line_eq : layout.line = layout.pieces.length + 1 + layout.uncounted := by
  have hmark (bs : List UInt8) : lineEnds (markOf input ++ bs) = lineEnds bs := by
    unfold markOf
    split
    · simp [lineEnds]
    · rfl
  rw [line, uncounted, hmark, lineEnds_append (.inr (head?_bytes_ne _)), lineEnds_pieces]
  omega

theorem uncounted_eq_zero_iff : layout.uncounted = 0 ↔ layout.IsLineByLine := by
  have hblank : lineEnds layout.blank = 0 ↔ layout.blank = [] := by
    constructor
    · intro hzero
      by_contra hsome
      exact (lineEnds_pos hsome layout.isBlank).ne' hzero
    · intro hnil
      rw [hnil]
      rfl
  have hpiece (piece : Piece) :
      piece.uncounted = 0 ↔ lineEnds piece.body = 0 ∧ lineEnds piece.ends = 1 := by
    have hpos := lineEnds_pos piece.isEnds.1 piece.isEnds.2
    rw [Piece.uncounted]
    omega
  rw [uncounted, Nat.add_eq_zero_iff, hblank, List.sum_eq_zero_iff, List.forall_mem_map]
  simp only [hpiece]
  constructor
  · exact fun ⟨h, hpieces⟩ ↦ ⟨h, fun p hp ↦ (hpieces p hp).1, fun p hp ↦ (hpieces p hp).2⟩
  · exact fun h ↦ ⟨h.blank, fun p hp ↦ ⟨h.body p hp, h.ends p hp⟩⟩

end Layout

/-! ### The first bad record -/

end Table

/-- The line that the fault names, if it is one of a date or a cell. -/
def DataFault.line? : DataFault → Option Nat
  | .badDate line _ => some line
  | .badCell line _ _ => some line
  | _ => none

namespace Table

/-- The fields are text and have a bar under the headings. -/
def IsReadable (headings : List (List Char)) (fields : List (List UInt8)) : Prop :=
  ∃ row bar, List.Forall₂ IsText fields row ∧ row.length = headings.length ∧
    IsBarOf (headings.zip row) bar

/-- The fields are text, as many as there are headings, but a date or a value cannot be read. -/
def IsBad (headings : List (List Char)) (fields : List (List UInt8)) : Prop :=
  ∃ row, List.Forall₂ IsText fields row ∧ row.length = headings.length ∧
    ∀ bar, ¬ IsBarOf (headings.zip row) bar

/-- Of the records with these fields and one behind them, the first is a header with all that it
needs, and the last is the first that is bad. -/
def IsFirstBad (front : List (List (List UInt8))) (last : List (List UInt8)) : Prop :=
  ∃ header rows headings, front = header :: rows ∧ List.Forall₂ IsText header headings ∧
    HasColumns headings ∧ (∀ fields ∈ rows, IsReadable headings fields) ∧ IsBad headings last

theorem fillBar_eq_error {line : Nat} {row : List (List Char)} {bar : Bar Float}
    {cols : List (Nat × Field)} {fault : DataFault}
    (h : fillBar line row bar cols = .error fault) : fault.line? = some line := by
  induction cols generalizing bar with
  | nil => cases h
  | cons c cols ih =>
    rw [fillBar] at h
    split at h
    · rw [← Except.error.inj h]
      rfl
    · exact ih h

/-- What is wrong with a row is wrong at its line. -/
theorem readRow_eq_error {line : Nat} {row : List (List Char)} {cols : Columns}
    {fault : DataFault} (h : readRow cols line row = .error fault) : fault.line? = some line := by
  rw [readRow] at h
  split at h
  · rw [← Except.error.inj h]
    rfl
  · exact fillBar_eq_error h

section Rows

variable {headings : List (List Char)} {cols : Columns} {number line : Nat} {r : Record}
  {rs : List Record}

/-- The fault of the rows names the line. -/
def FailsAt {β : Type} (result : Except DataFault β) (line : Nat) : Prop :=
  ∃ fault, result = .error fault ∧ fault.line? = some line

theorem failsAt_map_iff {β γ : Type} {f : β → γ} {result : Except DataFault β} :
    FailsAt (result.map f) line ↔ FailsAt result line := by
  simp only [FailsAt, except_map_eq_error_iff]

theorem failsAt_bind_iff {β γ : Type} {f : β → Except DataFault γ} {result : Except DataFault β} :
    FailsAt (result >>= f) line ↔
      FailsAt result line ∨ ∃ b, result = .ok b ∧ FailsAt (f b) line := by
  simp only [FailsAt, except_bind_eq_error_iff, or_and_right, exists_or]
  refine or_congr_right ⟨?_, ?_⟩
  · rintro ⟨fault, ⟨b, hb, hfault⟩, hline⟩
    exact ⟨b, hb, fault, hfault, hline⟩
  · rintro ⟨b, hb, fault, hfault, hline⟩
    exact ⟨fault, ⟨b, hb, hfault⟩, hline⟩

theorem not_failsAt_ok {β : Type} {b : β} : ¬ FailsAt (.ok b) line :=
  fun ⟨_, hfault, _⟩ ↦ nomatch hfault

/-- A record that is no text of the right width does not name a line. -/
theorem not_failsAt_mapError {β : Type} {result : Except RecordFault β}
    {f : RecordFault → DataFault} (hf : ∀ fault, (f fault).line? = none) :
    ¬ FailsAt (result.mapError f) line := by
  rintro ⟨fault, hfault, hline⟩
  obtain ⟨fault', -, rfl⟩ := except_mapError_eq_error_iff.1 hfault
  exact absurd ((hf fault').symm.trans hline) nofun

theorem failsAt_readRow_iff (hcols : columns headings = .ok cols) {row : List (List Char)}
    (hlength : row.length = headings.length) {at' : Nat} :
    FailsAt (readRow cols at' row) line ↔
      (∀ bar, ¬ IsBarOf (headings.zip row) bar) ∧ at' = line := by
  have hbar (bar : Bar Float) : IsBarOf (headings.zip row) bar ↔
      readRow cols at' row = .ok bar := (readRow_eq_ok_iff hcols hlength).symm
  simp only [hbar]
  rcases hread : readRow cols at' row with fault | bar
  · have hline := readRow_eq_error hread
    simp [FailsAt, hline]
  · simp [FailsAt]

/-- **The rows fail at the number of the first one that is bad.** -/
theorem failsAt_readRows_iff (hcols : columns headings = .ok cols) :
    FailsAt (readRows cols number rs) line ↔ ∃ pre r post, rs = pre ++ r :: post ∧
      number + pre.length + 1 = line ∧ (∀ r ∈ pre, IsReadable headings r.fields) ∧
      IsBad headings r.fields := by
  have hwidth : cols.width = headings.length := by rw [(columns_eq_ok_iff.1 hcols).2]
  induction rs generalizing number with
  | nil =>
    refine iff_of_false not_failsAt_ok ?_
    rintro ⟨pre, r, post, hrs, -⟩
    exact absurd hrs (List.append_ne_nil_of_right_ne_nil _ (List.cons_ne_nil r post)).symm
  | cons r rs ih =>
    have hstep : FailsAt (readRows cols number (r :: rs)) line ↔
        ∃ row, (List.Forall₂ IsText r.fields row ∧ row.length = headings.length) ∧
          (FailsAt (readRow cols (number + 1) row) line ∨
            ∃ bar, readRow cols (number + 1) row = .ok bar ∧
              FailsAt (readRows cols (number + 1) rs) line) := by
      have hpure (bars : List (Bar Float)) :
          ¬ FailsAt (pure bars : Except DataFault (List (Bar Float))) line := not_failsAt_ok
      have hrecord {row : Except RecordFault (List (List Char))} :
          ¬ FailsAt (row.mapError .record) line := not_failsAt_mapError fun _ ↦ rfl
      simp only [readRows, failsAt_bind_iff, hrecord, hpure, false_or, and_false, exists_false,
        or_false, except_mapError_eq_ok_iff, decodeRecord_eq_ok_iff, hwidth]
    rw [hstep]
    constructor
    · rintro ⟨row, ⟨htext, hlength⟩, hfails | ⟨bar, hbar, hfails⟩⟩
      · obtain ⟨hbad, hline⟩ := (failsAt_readRow_iff hcols hlength).1 hfails
        exact ⟨[], r, rs, rfl, hline, List.forall_mem_nil _, row, htext, hlength, hbad⟩
      · obtain ⟨pre, r', post, rfl, hline, hpre, hbad⟩ := ih.1 hfails
        have hbar := (readRow_eq_ok_iff hcols hlength).1 hbar
        refine ⟨r :: pre, r', post, rfl, by rw [List.length_cons]; omega, ?_, hbad⟩
        exact List.forall_mem_cons.2 ⟨⟨row, bar, htext, hlength, hbar⟩, hpre⟩
    · rintro ⟨- | ⟨r', pre⟩, bad, post, hrs, hline, hpre, hbad⟩
      · obtain ⟨rfl, rfl⟩ := List.cons.inj hrs
        obtain ⟨row, htext, hlength, hbad⟩ := hbad
        exact ⟨row, ⟨htext, hlength⟩, .inl ((failsAt_readRow_iff hcols hlength).2 ⟨hbad, hline⟩)⟩
      · obtain ⟨rfl, rfl⟩ := List.cons.inj hrs
        obtain ⟨⟨row, bar, htext, hlength, hbar⟩, hpre⟩ := List.forall_mem_cons.1 hpre
        refine ⟨row, ⟨htext, hlength⟩, .inr ⟨bar, (readRow_eq_ok_iff hcols hlength).2 hbar, ?_⟩⟩
        refine ih.2 ⟨pre, bad, post, rfl, ?_, hpre, hbad⟩
        rw [List.length_cons] at hline
        omega

end Rows

/-- **A table fails at the number of its first bad record.** -/
theorem failsAt_readBars_iff {input : List UInt8} {line : Nat} :
    FailsAt (readBars input) line ↔ ∃ front last more,
      (records input).map Record.fields = front ++ last :: more ∧ front.length + 1 = line ∧
      IsFirstBad front last := by
  have hheader {headings : Except RecordFault (List (List Char))} :
      ¬ FailsAt (headings.mapError .header) line := not_failsAt_mapError fun _ ↦ rfl
  have hcolumns (headings : List (List Char)) : ¬ FailsAt (columns headings) line := by
    rintro ⟨fault, hfault, hline⟩
    rw [columns] at hfault
    split at hfault
    · obtain rfl := Except.error.inj hfault
      cases hline
    · simp only at hfault
      split_ifs at hfault
      obtain rfl := Except.error.inj hfault
      cases hline
  rw [readBars_eq, failsAt_map_iff]
  simp only [readUnordered, failsAt_bind_iff, hheader, hcolumns, false_or,
    except_mapError_eq_ok_iff, decodeFields_eq_ok_iff]
  constructor
  · rintro ⟨headings, hheadings, cols, hcols, hfails⟩
    obtain ⟨pre, r, post, hrest, hline, hpre, hbad⟩ := (failsAt_readRows_iff hcols).1 hfails
    have hhas := (columns_eq_ok_iff.1 hcols).1
    rcases hrecords : records input with - | ⟨header, rs⟩
    · rw [hrecords] at hrest
      exact absurd hrest (List.append_ne_nil_of_right_ne_nil _ (List.cons_ne_nil r post)).symm
    · rw [hrecords] at hrest hheadings
      obtain rfl : rs = pre ++ r :: post := hrest
      refine ⟨header.fields :: pre.map Record.fields, r.fields, post.map Record.fields, by simp, ?_,
        header.fields, _, headings, rfl, hheadings, hhas, List.forall_mem_map.2 hpre, hbad⟩
      rw [List.length_cons, List.length_map]
      omega
  · rintro ⟨_, last, more, hrecords, hline, header, rows, headings, rfl, hheadings, hhas, hrows,
      hbad⟩
    obtain ⟨first, rs, hsplit, rfl, hrest⟩ := List.map_eq_cons_iff.1 hrecords
    obtain ⟨pre, suffix, rfl, rfl, hsuffix⟩ := List.map_eq_append_iff.1 hrest
    obtain ⟨r, post, rfl, rfl, rfl⟩ := List.map_eq_cons_iff.1 hsuffix
    have hcols := columns_eq_ok_iff.2 ⟨hhas, rfl⟩
    rw [List.length_cons, List.length_map] at hline
    rw [hsplit]
    refine ⟨headings, hheadings, _, hcols, (failsAt_readRows_iff hcols).2
      ⟨pre, r, post, rfl, by omega, List.forall_mem_map.1 hrows, hbad⟩⟩

/-- The record is the first that is bad. -/
def Layout.IsFirstBad {input : List UInt8} (layout : Layout input) : Prop :=
  Table.IsFirstBad (layout.pieces.map fun piece ↦ fieldsOf piece.body) (fieldsOf layout.rest)

theorem FailsAt.unique {β : Type} {result : Except DataFault β} {line line' : Nat}
    (h : FailsAt result line) (h' : FailsAt result line') : line = line' := by
  obtain ⟨fault, hfault, hline⟩ := h
  obtain ⟨fault', hfault', hline'⟩ := h'
  obtain rfl := Except.error.inj (hfault.symm.trans hfault')
  exact Option.some.inj (hline.symm.trans hline')

/-- A table fails at the number of a record exactly if the record is the first that is bad. -/
theorem failsAt_iff_exists_layout {input : List UInt8} {line : Nat} :
    FailsAt (readBars input) line ↔
      ∃ layout : Layout input, layout.IsFirstBad ∧ layout.pieces.length + 1 = line := by
  rw [failsAt_readBars_iff]
  constructor
  · rintro ⟨front, last, more, hrecords, hline, hfirst⟩
    obtain ⟨layout, rfl, rfl⟩ := exists_layout hrecords
    rw [List.length_map] at hline
    exact ⟨layout, hfirst, hline⟩
  · rintro ⟨layout, hfirst, hline⟩
    obtain ⟨more, hrecords⟩ := layout.records_eq
    exact ⟨_, _, more, hrecords, by rwa [List.length_map], hfirst⟩

/-- **The line that a fault names is the number of the first bad record, which is its line exactly
if the records before it are one line each and no line is blank.** Otherwise the line that is named
is too small by the ends of lines that are not counted. -/
theorem fault_line_iff (input : List UInt8) :
    (∀ line, FailsAt (readBars input) line ↔
      ∃ layout : Layout input, layout.IsFirstBad ∧ layout.pieces.length + 1 = line) ∧
    (∀ layout layout' : Layout input, layout.IsFirstBad → layout'.IsFirstBad →
      layout = layout') ∧
    ∀ layout : Layout input, layout.line = layout.pieces.length + 1 + layout.uncounted ∧
      (layout.pieces.length + 1 = layout.line ↔ layout.IsLineByLine) := by
  refine ⟨fun line ↦ failsAt_iff_exists_layout, fun layout layout' hfirst hfirst' ↦ ?_,
    fun layout ↦ ⟨layout.line_eq, ?_⟩⟩
  · have hfails := failsAt_iff_exists_layout.2 ⟨layout, hfirst, rfl⟩
    have hfails' := failsAt_iff_exists_layout.2 ⟨layout', hfirst', rfl⟩
    exact Layout.eq_of_length (Nat.succ.inj (hfails.unique hfails'))
  · rw [← layout.uncounted_eq_zero_iff, layout.line_eq]
    omega

namespace Sample

/-- A table with a blank line before a bad cell. -/
def blankLineTable : List UInt8 :=
  bytes "date,close\n\n2024-01-02,abc\n"

/-- The bad record of that table stands behind the header and two ends of lines. -/
def blankLineLayout : Layout blankLineTable where
  blank := []
  pieces := [⟨bytes "date,close", bytes "\n\n", by decide +kernel, by decide +kernel⟩]
  rest := bytes "2024-01-02,abc\n"
  isBlank := nofun
  isRest := ⟨_, _, rfl, rfl⟩
  input_eq := by decide

theorem isFirstBad_blankLineLayout : blankLineLayout.IsFirstBad := by
  have hheadings : decodeFields 0 ⟨0, 1⟩ 0 (fieldsOf (bytes "date,close")) =
      .ok ["date".toList, "close".toList] := by decide +kernel
  have hrow : decodeFields 0 ⟨0, 1⟩ 0 (fieldsOf (bytes "2024-01-02,abc\n")) =
      .ok ["2024-01-02".toList, "abc".toList] := by decide +kernel
  have hcell : readCell? "abc".toList = none := by decide +kernel
  refine ⟨_, [], ["date".toList, "close".toList], rfl, decodeFields_eq_ok_iff.1 hheadings, ?_,
    nofun, ["2024-01-02".toList, "abc".toList], decodeFields_eq_ok_iff.1 hrow, rfl,
    fun bar hbar ↦ ?_⟩
  · exact ⟨⟨"date".toList, by decide, by decide⟩, ⟨"close".toList, by decide, by decide⟩⟩
  · have hreadable := hbar.readable ("close".toList, "abc".toList) (by decide) .close (by decide)
    rw [hcell] at hreadable
    cases hreadable

theorem failsAt_blankLineTable : FailsAt (readBars blankLineTable) 2 := by
  have hread : readUnordered blankLineTable = .error (.badCell 2 .close "abc") := by
    decide +kernel
  rw [readBars_eq, hread]
  exact ⟨_, rfl, rfl⟩

end Sample

/-- The line that a fault names is not always that of the bad record. -/
theorem blank_line_is_not_counted : ¬ ∀ (input : List UInt8) (line : Nat) (layout : Layout input),
    FailsAt (readBars input) line → layout.IsFirstBad → layout.line = line := by
  intro hall
  have hline := hall _ _ Sample.blankLineLayout Sample.failsAt_blankLineTable
    Sample.isFirstBad_blankLineLayout
  have hthree : Sample.blankLineLayout.line = 3 := by decide
  exact absurd (hthree.symm.trans hline) (by decide)

end Table

end BarReplay
