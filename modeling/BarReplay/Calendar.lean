import BarReplay.Decimal.Layout
import BarReplay.Decimal.Numeral
import BarReplay.Text.Words

/-!
# Calendar

Dates, and the texts that they are read from.
-/

namespace BarReplay

/-! ### Dates

Days of the proleptic Gregorian calendar. A `Date` carries the proof that the day exists, so no
function has to check it again. Dates are ordered by `Date.ordinal`, a count in which every year
has 372 places and every month 31; on days that exist it is the order of year, month and day.
-/

/-- The year has a 29th of February. -/
def isLeapYear (year : Int) : Bool :=
  year % 4 == 0 && (year % 100 != 0 || year % 400 == 0)

/-- The number of days in a month, zero for a month that does not exist. -/
def daysInMonth (year : Int) (month : Nat) : Nat :=
  match month with
  | 1 | 3 | 5 | 7 | 8 | 10 | 12 => 31
  | 4 | 6 | 9 | 11 => 30
  | 2 => if isLeapYear year then 29 else 28
  | _ => 0

/-- The day exists, in a year that the calendar covers. -/
def IsDate (year : Int) (month day : Nat) : Prop :=
  -262143 ≤ year ∧ year ≤ 262142 ∧ 1 ≤ day ∧ day ≤ daysInMonth year month

instance (year : Int) (month day : Nat) : Decidable (IsDate year month day) :=
  inferInstanceAs (Decidable (_ ∧ _ ∧ _ ∧ _))

/-- A day of the calendar. -/
structure Date where
  year : Int
  month : Nat
  day : Nat
  exists_day : IsDate year month day
  deriving DecidableEq

namespace Date

/-- The date with the given parts, if that day exists. -/
def ofParts? (year : Int) (month day : Nat) : Option Date :=
  if h : IsDate year month day then some ⟨year, month, day, h⟩ else none

/-- The place of a date in the order of dates. -/
def ordinal (d : Date) : Int :=
  d.year * 372 + d.month * 31 + d.day

instance : LT Date :=
  ⟨fun a b ↦ a.ordinal < b.ordinal⟩

instance : LE Date :=
  ⟨fun a b ↦ a.ordinal ≤ b.ordinal⟩

instance : DecidableLT Date :=
  fun a b ↦ inferInstanceAs (Decidable (a.ordinal < b.ordinal))

instance : DecidableLE Date :=
  fun a b ↦ inferInstanceAs (Decidable (a.ordinal ≤ b.ordinal))

/-- The digits of `n`, filled up with zeros to at least `width`. -/
def paddedDigits (width n : Nat) : List Char :=
  let ds := Decimal.digitsOf n
  Decimal.zeros (width - ds.length) ++ ds

/-- The text of a year: four digits, and a sign when four unsigned digits cannot hold it. -/
def yearText (year : Int) : List Char :=
  (if year < 0 then ['-'] else if 9999 < year then ['+'] else []) ++ paddedDigits 4 year.natAbs

/-- The text of a date: year, month and day with hyphens between. -/
def text (d : Date) : String :=
  String.ofList (yearText d.year ++ '-' :: paddedDigits 2 d.month ++ '-' :: paddedDigits 2 d.day)

end Date

/-! ### Reading dates

Three written forms are read. `Date.read?` takes year, month and day with hyphens between;
`Date.readStamp?` takes the same followed by a time of day, which has to be a real one and is then
forgotten; `Date.readLoose?` is the first form with blanks allowed before each hyphen and at the
end. In all of them blanks may stand before any number, a month or day may have one digit, and a
year has up to four digits unless a sign stands in front of it.
-/

namespace Date

/-- A number of one to `width` digits, after blanks, and the rest of the text. -/
def scanNumber? (width : Nat) (cs : List Char) : Option (Nat × List Char) :=
  let cs := Text.skipBlank cs
  let ds := (cs.takeWhile Char.isDigit).take width
  if ds.isEmpty then none else some (Decimal.valueOf ds, cs.drop ds.length)

/-- The digits after the sign of a year, however many, and the rest of the text. -/
def scanSigned? (cs : List Char) : Option (Nat × List Char) :=
  match Decimal.scanDigits cs with
  | ([], _) => none
  | (ds, rest) => some (Decimal.valueOf ds, rest)

/-- A year, after blanks, and the rest of the text. -/
def scanYear? (cs : List Char) : Option (Int × List Char) :=
  match Text.skipBlank cs with
  | '-' :: rest => (scanSigned? rest).map fun (n, rest) ↦ (-(n : Int), rest)
  | '+' :: rest => (scanSigned? rest).map fun (n, rest) ↦ ((n : Int), rest)
  | cs => (scanNumber? 4 cs).map fun (n, rest) ↦ ((n : Int), rest)

/-- One given character, and the rest of the text. -/
def scanChar? (expected : Char) : List Char → Option (List Char)
  | c :: cs => if c = expected then some cs else none
  | [] => none

/-- Year, month and day with hyphens between; `skip` is passed over before each hyphen. -/
def scanDay? (skip : List Char → List Char) (cs : List Char) : Option (Date × List Char) := do
  let (year, cs) ← scanYear? cs
  let cs ← scanChar? '-' (skip cs)
  let (month, cs) ← scanNumber? 2 cs
  let cs ← scanChar? '-' (skip cs)
  let (day, cs) ← scanNumber? 2 cs
  let date ← ofParts? year month day
  pure (date, cs)

/-- A time of day: hour, minute and second with colons between. The second may be a leap second. -/
def scanTime? (cs : List Char) : Option (List Char) := do
  let (hour, cs) ← scanNumber? 2 cs
  let cs ← scanChar? ':' cs
  let (minute, cs) ← scanNumber? 2 cs
  let cs ← scanChar? ':' cs
  let (second, cs) ← scanNumber? 2 cs
  if hour < 24 ∧ minute < 60 ∧ second ≤ 60 then some cs else none

/-- A date that is the whole of a text. -/
def read? (cs : List Char) : Option Date :=
  match scanDay? id cs with
  | some (date, []) => some date
  | _ => none

/-- A date and a time of day that are the whole of a text; `between` leads from one to the
other. -/
def readStamp? (between : List Char → Option (List Char)) (cs : List Char) : Option Date :=
  match scanDay? id cs with
  | some (date, rest) => if (between rest).bind scanTime? = some [] then some date else none
  | none => none

/-- A date that is the whole of a text, with blanks allowed before each hyphen and at the end. -/
def readLoose? (cs : List Char) : Option Date :=
  match scanDay? Text.skipBlank cs with
  | some (date, rest) => if (Text.skipBlank rest).isEmpty then some date else none
  | none => none

end Date

end BarReplay
