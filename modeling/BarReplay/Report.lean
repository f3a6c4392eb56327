import BarReplay.Json.Printer
import BarReplay.Replay.Run

/-!
# Signals and reports

What a strategy makes of the last bar of a series, and how signals and runs are reported.
-/

namespace BarReplay

/-! ### Signals

A signal says what a strategy makes of the last bar of a series, without any account. The exit rules
are asked about a position of one share bought at that very close, whose price has not changed.
-/

/-- What a strategy makes of the last bar. -/
structure Signal where
  enters : Bool
  exit : Option ExitReason
  /-- The defined values of the close and of the fields that the rules read, by name in alphabetical
  order. -/
  values : List (String × Float)

namespace Signal

/-- No signal, from a series too short to have one. -/
def none : Signal :=
  ⟨false, .none, []⟩

/-- A value to four places, a half away from zero. -/
def rounded (x : Float) : Float :=
  (x * 10000.0).round / 10000.0

/-- The values that a signal shows of a bar. -/
def shown (s : Strategy Float) (bar : Bar Float) : List (String × Float) :=
  let fields := Field.all.filter fun f ↦ f == .close || s.reads f
  let values := fields.filterMap fun f ↦ (bar.reading f).map fun x ↦ (f.name, rounded x)
  values.mergeSort fun a b ↦ decide (a.1 ≤ b.1)

/-- The position that the exit rules are asked about. -/
def notional (index : Nat) (bar : Bar Float) : Position Float :=
  { entryDate := bar.date
    entryIndex := index
    entryPrice := bar.close
    shares := 1
    costBasis := bar.close }

end Signal

/-- What the strategy makes of the last of the bars. A signal needs two bars, and a last close that
is a price. -/
def Strategy.signal (s : Strategy Float) (bars : List (Bar Float)) :
    Except (RunError Float) Signal :=
  if bars.length < 2 then .ok .none
  else
    match bars.getLast? with
    | none => .ok .none
    | some bar =>
      let index := bars.length - 1
      if isPositive bar.close then
        .ok ⟨s.enters bar.reading, s.exit? (Signal.notional index bar) bar, Signal.shown s bar⟩
      else .error (.bar index bar.date (.close bar.close))

/-! ### Reports

A run is reported as one JSON object: the strategy as it was written down, the metrics, the trades,
the equity curve and the position that is still open. A number that is not finite is null. A signal
is reported in the same way.
-/

open Json (Value)

/-- A date as a string. -/
def Date.toJson (d : Date) : Value :=
  .string d.text

/-- The reason of an exit, with the index of the rule if a rule was the reason. -/
def ExitReason.toJson : ExitReason → Value
  | .stopLoss => .object [("kind", .string "stop_loss")]
  | .takeProfit => .object [("kind", .string "take_profit")]
  | .rule index => .object [("kind", .string "rule"), ("rule", .ofNat index)]

/-- The strategy, its rules as their texts. -/
def Strategy.toJson (s : Strategy Float) : Value :=
  .object
    [("name", .string s.name),
      ("description", .string s.description),
      ("entry_rules", .array (s.entryRules.map fun r ↦ .string r.source)),
      ("exit_rules", .array (s.exitRules.map fun r ↦ .string r.source)),
      ("stop_loss", .ofOptionalFloat s.stopLoss),
      ("take_profit", .ofOptionalFloat s.takeProfit),
      ("max_position_size", .ofFloat s.fraction),
      ("commission", .ofFloat s.costs.commission),
      ("slippage", .ofFloat s.costs.slippage)]

/-- The performance of a run. -/
def Metrics.toJson (m : Metrics Float) : Value :=
  .object
    [("total_return", .ofFloat m.totalReturn),
      ("annual_return", .ofFloat m.annualReturn),
      ("sharpe_ratio", .ofFloat m.sharpeRatio),
      ("max_drawdown", .ofFloat m.maxDrawdown),
      ("win_rate", .ofFloat m.winRate),
      ("profit_factor", .ofFloat m.profitFactor),
      ("total_trades", .ofNat m.totalTrades),
      ("avg_trade", .ofFloat m.averageTrade),
      ("final_equity", .ofFloat m.finalEquity)]

/-- A closed position. -/
def Trade.toJson (t : Trade Float) : Value :=
  .object
    [("entry_date", t.entryDate.toJson),
      ("exit_date", t.exitDate.toJson),
      ("entry_index", .ofNat t.entryIndex),
      ("exit_index", .ofNat t.exitIndex),
      ("entry_price", .ofFloat t.entryPrice),
      ("exit_price", .ofFloat t.exitPrice),
      ("shares", .ofNat t.shares),
      ("pnl", .ofFloat t.profit),
      ("return_pct", .ofFloat t.returnRate),
      ("exit_reason", t.reason.toJson)]

/-- An open position. -/
def Position.toJson (p : Position Float) : Value :=
  .object
    [("entry_date", p.entryDate.toJson),
      ("entry_index", .ofNat p.entryIndex),
      ("entry_price", .ofFloat p.entryPrice),
      ("shares", .ofNat p.shares),
      ("cost_basis", .ofFloat p.costBasis)]

/-- The report on a run of a strategy. -/
def Outcome.toJson (o : Outcome Float) (s : Strategy Float) : Value :=
  .object
    [("strategy", s.toJson),
      ("metrics", o.metrics.toJson),
      ("trades", .array (o.trades.map Trade.toJson)),
      ("equity_curve", .array (o.equity.map .ofFloat)),
      ("open_position", (o.position.map Position.toJson).getD .null)]

/-- The text of the report on a run, compact or spread over lines. -/
def Outcome.report (o : Outcome Float) (s : Strategy Float) (spread : Bool) : String :=
  if spread then (o.toJson s).spread else (o.toJson s).compact

/-- A signal. -/
def Signal.toJson (s : Signal) : Value :=
  .object
    [("entry_matched", .bool s.enters),
      ("exit_matched", .bool s.exit.isSome),
      ("exit_reason", (s.exit.map ExitReason.toJson).getD .null),
      ("current_values", .object (s.values.map fun v ↦ (v.1, .ofFloat v.2)))]

end BarReplay
