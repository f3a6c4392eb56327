import BarReplay.Calendar
import BarReplay.Json.Printer
import BarReplay.Json.Value
import BarReplay.Market.Bar

/-!
# Bars and fields as documents

A bar as a document is an object with a date and a close, and with those indicators that have a
value; a field is its key.
-/

namespace BarReplay

open Json (Value)

/-- The field that a document is: a key, or an object with a key and no value. -/
def Field.ofJson? : Value → Option Field
  | .string key => Field.ofKey? key
  | .object [(key, .null)] => Field.ofKey? key
  | _ => none

/-- The key of a field. -/
def Field.toJson (f : Field) : Value :=
  .string f.key

namespace Bar

/-- The fields of a bar that may be left out. -/
def indicators : List Field :=
  Field.all.filter fun f ↦ f != .close

/-- The keys of a bar, in their order. -/
def keys : List String :=
  "date" :: Field.all.map Field.name

/-- The date that a value is. -/
def dateOfJson? (v : Value) : Option Date :=
  v.toText?.bind fun text ↦ Date.readLoose? text.toList

/-- The bar with the given indicators set from the entries of a record. -/
def withIndicators? (entries : List (String × Value)) (bar : Bar Float) :
    List Field → Option (Bar Float)
  | [] => some bar
  | f :: rest => do
    let value ← Value.keyed? entries f.name Value.toOptionalFloat? none
    withIndicators? entries (bar.set f value) rest

/-- The bar that a value is. -/
def ofJson? (v : Value) : Option (Bar Float) := do
  let entries ← v.record? keys
  let date ← (← Value.entry? entries "date").bind dateOfJson?
  let close ← (← Value.entry? entries Field.close.name).bind Value.toFloat?
  withIndicators? entries { date := date, close := close } indicators

/-- The bar as an object. -/
def toJson (bar : Bar Float) : Value :=
  .object
    (("date", .string bar.date.text) :: (Field.close.name, .ofFloat bar.close) ::
      indicators.filterMap fun f ↦ (bar.stored f).map fun x ↦ (f.name, .ofFloat x))

end Bar

end BarReplay
