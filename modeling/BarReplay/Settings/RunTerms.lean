import BarReplay.Calendar
import BarReplay.Settings.Basic

/-!
# The terms of a run in the settings

The section `backtest` holds the capital, the rates that override those of the strategy, and the
first and last date of the bars to be used; `sweep` and `report` hold one setting each. A number has
to be zero or more wherever it is written.
-/

namespace BarReplay.Settings

/-- The capital of a run when none is written down. -/
def standardCapital : Float :=
  100000.0

/-- A number that no setting may be: one that is not finite, or is below zero. -/
def isOutOfRange (x : Float) : Bool :=
  !Arithmetic.isFinite x || decide (x < 0)

/-- A number under a key, if something is written there; it has to be zero or more. -/
def checkNonNegative (settings : Settings) (block key : String) : Except Error Unit := do
  match ← settings.optionalFloat block key with
  | some x => if isOutOfRange x then .error (.value block key (.negativeSetting key)) else pure ()
  | none => pure ()

/-- The numbers of a run are in range. -/
def checkTerms (settings : Settings) : Except Error Unit := do
  settings.checkNonNegative "backtest" "initial_capital"
  settings.checkNonNegative "backtest" "commission"
  settings.checkNonNegative "backtest" "slippage"

/-- The terms of a run. -/
def terms (settings : Settings) : Except Error (Terms Float) := do
  settings.checkTerms
  let commission ← settings.optionalFloat "backtest" "commission"
  let slippage ← settings.optionalFloat "backtest" "slippage"
  pure
    { capital := settings.float "backtest" "initial_capital" standardCapital
      commission := commission
      slippage := slippage }

/-- The date under a key, if something is written there. -/
def optionalDate (settings : Settings) (key : String) : Except Error (Option Date) :=
  match settings.text? "backtest" key with
  | none => .ok none
  | some text =>
    match Text.trim text.toList with
    | [] => .ok none
    | cs =>
      match Date.read? cs with
      | some date => .ok (some date)
      | none => .error (.value "backtest" key .notDate)

/-- A range of dates, both ends included and either end open. -/
structure DateRange where
  first : Option Date
  last : Option Date
  deriving DecidableEq

/-- The date lies in the range. -/
def DateRange.holds (range : DateRange) (date : Date) : Bool :=
  range.first.all (fun d ↦ decide (d ≤ date)) && range.last.all fun d ↦ decide (date ≤ d)

/-- All dates. -/
def DateRange.all : DateRange :=
  ⟨none, none⟩

/-- The dates of the bars that a run uses. -/
def dateRange (settings : Settings) : Except Error DateRange := do
  let first ← settings.optionalDate "start_date"
  let last ← settings.optionalDate "end_date"
  match first, last with
  | some f, some l =>
    if l < f then .error (.value "backtest" "end_date" .endBeforeStart) else pure ⟨first, last⟩
  | _, _ => pure ⟨first, last⟩

/-- The largest number of workers. -/
def workerLimit : Nat :=
  65535

/-- The number of workers for a sweep, zero for as many as there are processors. Runs do not depend
on it. -/
def workers (settings : Settings) : Except Error Nat :=
  let n := settings.int "sweep" "threads" 0
  if 0 ≤ n then .ok (min n.toNat workerLimit)
  else .error (.value "sweep" "threads" (.negativeSetting "threads"))

/-- Reports are spread over lines. -/
def spreadReports (settings : Settings) : Bool :=
  settings.flag "report" "pretty" false

end BarReplay.Settings
