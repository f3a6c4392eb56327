import BarReplay.Proofs.Command.Sources
import BarReplay.Proofs.Command.Transcript

/-!
# A backtest reports or leaves nothing

A backtest goes through six stages: it reads the settings, the terms of the run and the range of
dates, takes its strategy, loads the bars and runs. `StopsAt` says which of them fails first and
why, and `Backtested.From` that none does. Until the run has succeeded a backtest only speaks, so a
failure leaves no output (`backtest_meets`). What is left after that is to report, on the channel or
in the file that was asked for. A disk may refuse the file, and then there is no report at all.
-/

namespace BarReplay.Command

open Job

/-! ### What a backtest reads -/

/-- Everything that a backtest comes by on its way to a report. -/
structure Backtested where
  settings : Settings
  terms : Terms Float
  range : Settings.DateRange
  strategy : Strategy Float
  bars : List (Bar Float)
  outcome : Outcome Float

/-- The report of a backtest. -/
def Backtested.report (b : Backtested) : String :=
  b.outcome.report b.strategy b.settings.spreadReports

variable {disk : Disk} {config data : String} {strategy output : Option String}

end BarReplay.Command
