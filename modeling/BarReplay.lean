import BarReplay.Main
import BarReplay.Market.Document
import BarReplay.Proofs.Replay.Causality
import BarReplay.Proofs.Replay.Ledger
import BarReplay.Proofs.Replay.Signals
import BarReplay.Proofs.Replay.Valuation
import BarReplay.Proofs.Replay.Failure
import BarReplay.Proofs.Command.Transcript
import BarReplay.Proofs.Replay.Sweep
import BarReplay.Proofs.Command.Sweep
import BarReplay.Proofs.Decimal.Nearest
import BarReplay.Proofs.Decimal.Rounding
import BarReplay.Proofs.Decimal.Operations
import BarReplay.Proofs.Decimal.Reading
import BarReplay.Proofs.Decimal.Interval
import BarReplay.Proofs.Rule.Grammar
import BarReplay.Proofs.Rule.Numbers
import BarReplay.Proofs.Rule.Operands
import BarReplay.Proofs.Rule.Parsing
import BarReplay.Proofs.Decimal.Sign
import BarReplay.Proofs.Decimal.Positional
import BarReplay.Proofs.Rule.Canonical
import BarReplay.Proofs.Rule.Fields
import BarReplay.Proofs.Replay.SideBySide
import BarReplay.Proofs.Replay.Dependence
import BarReplay.Proofs.Replay.Conservation
import BarReplay.Proofs.Replay.Resumption
import BarReplay.Proofs.Settings.Agreement
import BarReplay.Proofs.Replay.Timing
import BarReplay.Proofs.Settings.SoundTerms
import BarReplay.Proofs.Decimal.Zero
import BarReplay.Proofs.Replay.LastBar
import BarReplay.Proofs.Json.Grammar
import BarReplay.Proofs.Json.Following
import BarReplay.Proofs.Strategy.Documents
import BarReplay.Proofs.Command.Sources
import BarReplay.Proofs.Rule.MissingData
import BarReplay.Proofs.Json.Printing
import BarReplay.Proofs.Strategy.Reports
import BarReplay.Proofs.Command.Validation
import BarReplay.Proofs.Command.Backtest
import BarReplay.Proofs.Decimal.Order
import BarReplay.Proofs.Decimal.Overflow
import BarReplay.Proofs.Rule.Extent
import BarReplay.Proofs.Rule.Comparisons
import BarReplay.Proofs.Rule.Negation
import BarReplay.Proofs.Rule.Rereading
import BarReplay.Proofs.Rule.Alternatives
import BarReplay.Proofs.Replay.RuleLists
import BarReplay.Proofs.Rule.Positions
import BarReplay.Proofs.Rule.LetterCase
import BarReplay.Proofs.Rule.Caret
import BarReplay.Proofs.Settings.RuleLines
import BarReplay.Proofs.Replay.Spending
import BarReplay.Proofs.Decimal.Opposite
import BarReplay.Proofs.Decimal.Signed
import BarReplay.Proofs.Decimal.Infinity
import BarReplay.Proofs.Decimal.Differences
import BarReplay.Proofs.Replay.Selling
import BarReplay.Proofs.Replay.Ruin
import BarReplay.Proofs.Replay.EagerExits
import BarReplay.Proofs.Metrics.Drawdown
import BarReplay.Proofs.Decimal.Bounds
import BarReplay.Proofs.Decimal.Root
import BarReplay.Proofs.Metrics.Totals
import BarReplay.Proofs.Metrics.Flat
import BarReplay.Proofs.Metrics.Ranges
import BarReplay.Proofs.Metrics.Sharpe
import BarReplay.Proofs.Metrics.EqualReturns
import BarReplay.Proofs.Metrics.Finite
import BarReplay.Proofs.Replay.Idle
import BarReplay.Proofs.Replay.Performance
import BarReplay.Proofs.Replay.Magnitudes
import BarReplay.Proofs.Replay.FiniteReports
import BarReplay.Proofs.Table.Contents
import BarReplay.Proofs.Table.DateOrder
import BarReplay.Proofs.Table.Rearranging
import BarReplay.Proofs.Command.RepeatedDates
import BarReplay.Proofs.Table.Cells
import BarReplay.Proofs.Table.Closes
import BarReplay.Proofs.Table.Layout
import BarReplay.Proofs.Table.Lines
import BarReplay.Proofs.Market.Sources
