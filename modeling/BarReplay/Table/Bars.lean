import BarReplay.Calendar
import BarReplay.Decimal.Numeral
import BarReplay.Error
import BarReplay.Table.Records
import BarReplay.Text.Utf8

/-!
# Tables of bars

A table of bars has a header. Its date column is the first one named `date` or `timestamp`; every
column that has the name of a field holds that field, and of two such columns the last one counts;
all other columns are passed over. An empty cell, and one that says `nan` or `null`, is undefined,
and a row whose close is not a number at all is dropped. The bars come out in the order of their
dates, bars of one date in the order of the table.
-/

namespace BarReplay.Table

/-- The texts of the fields of the record with the given number. -/
def decodeFields (number : Nat) (start : Place) (index : Nat) :
    List (List UInt8) → Except RecordFault (List (List Char))
  | [] => .ok []
  | field :: rest =>
    match Text.decode field with
    | .error valid => .error (.notText number start.line index start.byte valid)
    | .ok text => (decodeFields number start (index + 1) rest).map (text :: ·)

/-- The texts of the record with the given number, which has to have `width` fields. -/
def decodeRecord (number width : Nat) (r : Record) : Except RecordFault (List (List Char)) :=
  if r.fields.length = width then decodeFields number r.start 0 r.fields
  else .error (.length number r.start.line r.start.byte r.fields.length width)

/-- The columns of a table of bars. -/
structure Columns where
  width : Nat
  date : Nat
  fields : List (Nat × Field)
  deriving DecidableEq, Repr

/-- The header names a date column. -/
def isDateHeading (heading : List Char) : Bool :=
  let word := String.ofList (Text.asciiLower (Text.trim heading))
  word == "date" || word == "timestamp"

/-- The columns from `index` on that have the name of a field. -/
def fieldColumns (index : Nat) : List (List Char) → List (Nat × Field)
  | [] => []
  | heading :: rest =>
    match Field.named? (Text.trim heading) with
    | some field => (index, field) :: fieldColumns (index + 1) rest
    | none => fieldColumns (index + 1) rest

/-- The columns that a header names. -/
def columns (headings : List (List Char)) : Except DataFault Columns :=
  match headings.findIdx? isDateHeading with
  | none => .error .noDate
  | some date =>
    let fields := fieldColumns 0 headings
    if fields.any fun c ↦ c.2 == .close then .ok ⟨headings.length, date, fields⟩
    else .error .noClose

/-- The date in a cell, with or without a time of day behind a letter `T` or blanks. -/
def readDate? (cell : List Char) : Option Date :=
  let cs := Text.trim cell
  Date.read? cs <|> Date.readStamp? (fun rest ↦ some (Text.skipBlank rest)) cs <|>
    Date.readStamp? (Date.scanChar? 'T') cs

/-- The value in a cell: undefined, a number, or nothing that could be either. -/
def readCell? (cell : List Char) : Option (Option Float) :=
  let cs := Text.trim cell
  let word := String.ofList (Text.asciiLower cs)
  if word = "" ∨ word = "nan" ∨ word = "null" then some none
  else (Decimal.readFloat? cs).map some

/-- A cell of a row. -/
def cellAt (row : List (List Char)) (index : Nat) : List Char :=
  row[index]?.getD []

/-- The bar with the values of a row in the given columns. -/
def fillBar (line : Nat) (row : List (List Char)) (bar : Bar Float) :
    List (Nat × Field) → Except DataFault (Bar Float)
  | [] => .ok bar
  | (index, field) :: rest =>
    match readCell? (cellAt row index) with
    | none => .error (.badCell line field (String.ofList (cellAt row index)))
    | some value => fillBar line row (bar.set field value) rest

/-- The bar of a row. -/
def readRow (cols : Columns) (line : Nat) (row : List (List Char)) :
    Except DataFault (Bar Float) :=
  match readDate? (cellAt row cols.date) with
  | none => .error (.badDate line (String.ofList (cellAt row cols.date)))
  | some date => fillBar line row { date := date, close := Arithmetic.undefined } cols.fields

/-- The bars of the records from the given number on, in the order of the table. -/
def readRows (cols : Columns) (number : Nat) : List Record → Except DataFault (List (Bar Float))
  | [] => .ok []
  | r :: rest => do
    let row ← (decodeRecord number cols.width r).mapError .record
    let bar ← readRow cols (number + 1) row
    let bars ← readRows cols (number + 1) rest
    pure (if bar.close.isNaN then bars else bar :: bars)

/-- The bars in the order of their dates. -/
def byDate (bars : List (Bar Float)) : List (Bar Float) :=
  bars.mergeSort fun a b ↦ decide (a.date ≤ b.date)

/-- The header of a table and the records after it. An empty input has an empty header. -/
def splitHeader : List Record → Record × List Record
  | [] => (⟨⟨0, 1⟩, []⟩, [])
  | header :: rest => (header, rest)

/-- The bars of a table. -/
def readBars (input : List UInt8) : Except DataFault (List (Bar Float)) := do
  let (header, rest) := splitHeader (records input)
  let headings ← (decodeFields 0 header.start 0 header.fields).mapError .header
  let cols ← columns headings
  let bars ← readRows cols 1 rest
  pure (byDate bars)

end BarReplay.Table
