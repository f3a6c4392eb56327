import BarReplay.Arithmetic
import BarReplay.Calendar
import BarReplay.Text.LowerCase
import Std.Data.HashMap

/-!
# Bars

The fields of a bar, what a rule can see of them, and the bar that holds them.
-/

namespace BarReplay

/-! ### Fields

The named numbers of a bar: its close and the indicators computed for it. Rules refer to a field by
its name, in either letter case. In serialized field lists a field has a key, which differs from the
name in the two moving averages.
-/

/-- A number that a bar may have and a rule may read. -/
inductive Field where
  | close
  | rsi
  | macd
  | macdSignal
  | macdDiff
  | sma20
  | sma50
  | bbHigh
  | bbLow
  | volumeRatio
  | sentimentScore
  deriving DecidableEq, Repr, Hashable

namespace Field

/-- Every field, in the order in which fields are listed. -/
def all : List Field :=
  [close, rsi, macd, macdSignal, macdDiff, sma20, sma50, bbHigh, bbLow, volumeRatio,
    sentimentScore]

theorem mem_all (f : Field) : f ∈ all := by
  cases f <;> decide

/-- The name under which rules, tables and reports refer to a field. -/
def name : Field → String
  | close => "close"
  | rsi => "rsi"
  | macd => "macd"
  | macdSignal => "macd_signal"
  | macdDiff => "macd_diff"
  | sma20 => "sma_20"
  | sma50 => "sma_50"
  | bbHigh => "bb_high"
  | bbLow => "bb_low"
  | volumeRatio => "volume_ratio"
  | sentimentScore => "sentiment_score"

/-- The key of a field in serialized form. -/
def key : Field → String
  | sma20 => "sma20"
  | sma50 => "sma50"
  | f => f.name

/-- The field that a word names, in either letter case. -/
def named? (word : List Char) : Option Field :=
  all.find? fun f ↦ f.name.toList == Text.asciiLower word

/-- The field with the given key. -/
def ofKey? (text : String) : Option Field :=
  all.find? fun f ↦ f.key == text

/-- All names, as they are listed in a message. -/
def knownNames : String :=
  ", ".intercalate (all.map name)

end Field

/-! ### Readings

A reading is what a rule can see of a moment in the market: for each field a value, or nothing if
the field is undefined. A value that is not finite is no value, whatever the reading is taken from.
-/

/-- The defined values of the fields. -/
abbrev Reading (α : Type) :=
  Field → Option α

namespace Reading

variable {α : Type} [Arithmetic α]

/-- The reading of values that may be missing or not finite. -/
def ofValues (value : Field → Option α) : Reading α :=
  fun f ↦ (value f).filter Arithmetic.isFinite

/-- The reading of a table of values. -/
def ofTable (table : Std.HashMap Field α) : Reading α :=
  ofValues fun f ↦ table[f]?

/-- The reading of a table in which a field may also be present without a value. -/
def ofOptions (table : Std.HashMap Field (Option α)) : Reading α :=
  ofValues fun f ↦ table[f]?.join

/-- The reading of a record of values by name. Only the exact name of a field is looked up. -/
def ofNames (table : Std.HashMap String (Option α)) : Reading α :=
  ofValues fun f ↦ table[f.name]?.join

end Reading

/-! ### Bars

One period of market data: its date, its close and the indicators that were computed for it. Only
the close has to be there, and a close that is missing after all is stored as an amount that is not
finite, which no run accepts.
-/

/-- One period of market data. -/
structure Bar (α : Type) where
  date : Date
  close : α
  rsi : Option α := none
  macd : Option α := none
  macdSignal : Option α := none
  macdDiff : Option α := none
  sma20 : Option α := none
  sma50 : Option α := none
  bbHigh : Option α := none
  bbLow : Option α := none
  volumeRatio : Option α := none
  sentimentScore : Option α := none

namespace Bar

variable {α : Type}

/-- The value stored for a field. -/
def stored (bar : Bar α) : Field → Option α
  | .close => some bar.close
  | .rsi => bar.rsi
  | .macd => bar.macd
  | .macdSignal => bar.macdSignal
  | .macdDiff => bar.macdDiff
  | .sma20 => bar.sma20
  | .sma50 => bar.sma50
  | .bbHigh => bar.bbHigh
  | .bbLow => bar.bbLow
  | .volumeRatio => bar.volumeRatio
  | .sentimentScore => bar.sentimentScore

variable [Arithmetic α]

/-- The bar with another value for one field. -/
def set (bar : Bar α) (field : Field) (value : Option α) : Bar α :=
  match field with
  | .close => { bar with close := value.getD Arithmetic.undefined }
  | .rsi => { bar with rsi := value }
  | .macd => { bar with macd := value }
  | .macdSignal => { bar with macdSignal := value }
  | .macdDiff => { bar with macdDiff := value }
  | .sma20 => { bar with sma20 := value }
  | .sma50 => { bar with sma50 := value }
  | .bbHigh => { bar with bbHigh := value }
  | .bbLow => { bar with bbLow := value }
  | .volumeRatio => { bar with volumeRatio := value }
  | .sentimentScore => { bar with sentimentScore := value }

/-- What a rule sees of the bar. -/
def reading (bar : Bar α) : Reading α :=
  .ofValues bar.stored

/-- Storing a value changes the field it is stored for and no other. -/
theorem stored_set_of_ne {bar : Bar α} {f g : Field} {value : Option α} (h : g ≠ f) :
    (bar.set f value).stored g = bar.stored g := by
  cases f <;> cases g <;> first | rfl | exact absurd rfl h

/-- What is stored for an indicator is what is found there. -/
theorem stored_set_self {bar : Bar α} {f : Field} {value : Option α} (h : f ≠ .close) :
    (bar.set f value).stored f = value := by
  cases f <;> first | rfl | exact absurd rfl h

/-- Storing a value keeps the date. -/
theorem date_set (bar : Bar α) (f : Field) (value : Option α) :
    (bar.set f value).date = bar.date := by
  cases f <;> rfl

end Bar

end BarReplay
