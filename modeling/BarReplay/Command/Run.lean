import BarReplay.Command.Arguments
import BarReplay.Command.Sources
import BarReplay.Report
import BarReplay.Rule.Printer

/-!
# The commands

`backtest` runs one strategy, tells what came of it and reports the run; `validate` lists the rules
of strategies in canonical form; `signal` prints what a strategy makes of the last bar; `sweep` runs
several strategies over the same bars and reports each run in a file of its own. Each is a `Job`
over a disk, and `Invocation.run` is all a program does apart from touching the disk itself.
-/

namespace BarReplay.Command

open Job

/-! ### Running one strategy -/

/-- A rate as a percentage with the given number of places. -/
def percent (places : Nat) (x : Float) : String :=
  Decimal.fixedText places (x * 100.0) ++ "%"

/-- What is told of a run. -/
def summary (s : Strategy Float) (o : Outcome Float) : List String :=
  let m := o.metrics
  ["\n=== " ++ s.name ++ " ===",
    "Total Return:     " ++ percent 2 m.totalReturn,
    "Annualized:       " ++ percent 2 m.annualReturn,
    "Sharpe Ratio:     " ++ Decimal.fixedText 2 m.sharpeRatio,
    "Max Drawdown:     " ++ percent 1 m.maxDrawdown,
    "Total Trades:     " ++ toString m.totalTrades,
    "Win Rate:         " ++ percent 1 m.winRate,
    "Profit Factor:    " ++ Decimal.fixedText 2 m.profitFactor,
    "Avg Trade:        " ++ Decimal.fixedText 2 m.averageTrade,
    "Final Equity:     " ++ Decimal.fixedText 2 m.finalEquity] ++
  (o.position.map fun p ↦
    "Open Position:    " ++ toString p.shares ++ " shares @ " ++ Decimal.fixedText 2 p.entryPrice ++
      " since " ++ p.entryDate.text).toList

/-- What is told before a run over bars, if there are any. -/
def announcement (symbol : String) (bars : List (Bar Float)) : List String :=
  match bars.head?, bars.getLast? with
  | some first, some last =>
    ["Running backtest: " ++ symbol ++ " (" ++ toString bars.length ++ " bars, " ++
      first.date.text ++ " to " ++ last.date.text ++ ")"]
  | _, _ => []

/-- The draft in a file, or else in the settings. -/
def chooseDraft (disk : Disk) (settings : Settings) : Option String → Job Draft
  | some path => do
    say ("Loading strategy from " ++ path)
    need (loadDraft disk path)
  | none => need settings.checkedDraft

/-- A run of one strategy. -/
def backtest (disk : Disk) (config data : String) (strategy output : Option String) :
    Job Nat := do
  say ("Loading config from " ++ config)
  let settings ← need (loadSettings disk config)
  let terms ← need settings.terms
  let range ← need settings.dateRange
  let draft ← chooseDraft disk settings strategy
  let s ← need draft.check
  say ("Loaded strategy: " ++ s.name)
  let (symbol, table) ← need (tableOf data)
  let bars ← need (fetchBars disk table range)
  (announcement symbol bars).forM say
  let outcome ← need ((s.run terms bars).mapError Error.ofRun)
  (summary s outcome).forM say
  let report := outcome.report s settings.spreadReports
  match output with
  | some path => do
    write disk path report
    say ("\nReport written to: " ++ path)
  | none => print report
  pure 0

/-! ### Checking strategies -/

/-- What is listed of a rule, and its error if it is none. -/
def listRule (list : RuleList) (index : Nat) (text : String) : List String × Option Error :=
  let heading := list.name ++ " rule #" ++ toString index ++ ":"
  match Expr.parse text with
  | .ok e => ([heading, "  Parsed: " ++ e.text, "  Raw:    " ++ text], none)
  | .error error =>
    ([heading, "  error:\n" ++ error.inContext text], some (.rule list index text error))

/-- What is listed of a rule list from an index on, with the errors. -/
def listRules (list : RuleList) (index : Nat) : List String → List (List String × Option Error)
  | [] => []
  | text :: rest => listRule list index text :: listRules list (index + 1) rest

/-- What is listed of a draft, with the errors of its rules. -/
def listDraft (d : Draft) : List (List String × Option Error) :=
  (["\nStrategy: " ++ d.name], none) :: listRules .entry 0 d.entryRules ++
    listRules .exit 0 d.exitRules

/-- Lists all rules of all drafts and then says what is wrong with them first: a rule, or else a
number. -/
def listDrafts (drafts : List Draft) : Job (Except Error Unit) := do
  let listing := drafts.flatMap listDraft
  (listing.flatMap Prod.fst).forM say
  match listing.findSome? Prod.snd with
  | some error => pure (.error error)
  | none => pure (drafts.forM fun d ↦ d.check.map fun _ ↦ ())

/-- A check of the strategies in a file. -/
def validate (disk : Disk) (strategy : String) : Job Nat := do
  say ("Validating strategy: " ++ strategy)
  let drafts ← need (loadDrafts disk strategy)
  match ← listDrafts drafts with
  | .ok _ => do
    say "\nStrategy configuration is valid."
    pure 0
  | .error (.rule list index text error) => do
    let e := Error.rule list index text error
    say ("\nerror: " ++ e.message)
    pure e.exitCode
  | .error e => throw e

/-! ### Signals -/

/-- The signal of a strategy on the last bar. -/
def signal (disk : Disk) (strategy data : String) : Job Nat := do
  let draft ← need (loadDraft disk strategy)
  let s ← need draft.check
  let bars ← need (loadBars disk data .all)
  let found ← need ((s.signal bars).mapError Error.ofRun)
  print found.toJson.spread
  pure 0

/-! ### Running several strategies -/

/-- The text with blanks behind it up to a width. -/
def padRight (width : Nat) (text : String) : String :=
  text ++ String.ofList (List.replicate (width - text.length) ' ')

/-- The text with blanks before it up to a width. -/
def padLeft (width : Nat) (text : String) : String :=
  String.ofList (List.replicate (width - text.length) ' ') ++ text

/-- The headings of the table of runs. -/
def sweepHeading : String :=
  "\n" ++ padRight 24 "Strategy" ++ " " ++ padLeft 10 "Return" ++ " " ++ padLeft 8 "Sharpe" ++
    " " ++ padLeft 8 "MaxDD" ++ " " ++ padLeft 7 "Trades"

/-- The row of a run. -/
def sweepRow (s : Strategy Float) : Except Error (Outcome Float) → String
  | .ok o =>
    let m := o.metrics
    padRight 24 s.name ++ " " ++ padLeft 9 (Decimal.fixedText 2 (m.totalReturn * 100.0)) ++ "% " ++
      padLeft 8 (Decimal.fixedText 2 m.sharpeRatio) ++ " " ++
      padLeft 7 (Decimal.fixedText 1 (m.maxDrawdown * 100.0)) ++ "% " ++
      padLeft 7 (toString m.totalTrades)
  | .error e => padRight 24 s.name ++ " error: " ++ e.message

/-- The texts of reports under the given path, numbered from `index`. -/
def numbered (path : String) (index : Nat) : List String → List (String × String)
  | [] => []
  | text :: rest => (path ++ "." ++ toString index, text) :: numbered path (index + 1) rest

/-- The completed runs, each with its strategy. -/
def completed (runs : List (Strategy Float × Except Error (Outcome Float))) :
    List (Strategy Float × Outcome Float) :=
  runs.filterMap fun r ↦ r.2.toOption.map fun o ↦ (r.1, o)

/-- The status of the first run that failed, zero if none did. -/
def sweepStatus (runs : List (Strategy Float × Except Error (Outcome Float))) : Nat :=
  (runs.findSome? fun r ↦
    match r.2 with
    | .ok _ => none
    | .error e => some e.exitCode).getD 0

/-- Runs of all strategies in a file. -/
def sweepAll (disk : Disk) (config data strategies : String) (output : Option String) :
    Job Nat := do
  say ("Loading config from " ++ config)
  let settings ← need (loadSettings disk config)
  let terms ← need settings.terms
  let range ← need settings.dateRange
  let drafts ← need (loadDrafts disk strategies)
  let all ← need (drafts.mapM Draft.check)
  let bars ← need (loadBars disk data range)
  let _ ← need settings.workers
  let results := (sweep all terms bars false).map fun r ↦ r.mapError Error.ofRun
  let runs := all.zip results
  say sweepHeading
  runs.forM fun r ↦ say (sweepRow r.1 r.2)
  match output with
  | some path => do
    let reports := (completed runs).map fun r ↦ r.2.report r.1 settings.spreadReports
    (numbered path 0 reports).forM fun f ↦ write disk f.1 f.2
    say ("\nReports written to: " ++ path ++ ".N")
  | none => pure ()
  pure (sweepStatus runs)

/-! ### All commands -/

/-- The job that a command line asks for. -/
def Invocation.job (disk : Disk) : Invocation → Job Nat
  | .backtest config data strategy output => Command.backtest disk config data strategy output
  | .validate strategy => Command.validate disk strategy
  | .signal strategy data => Command.signal disk strategy data
  | .sweep config data strategies output => sweepAll disk config data strategies output

/-- The paths that a command line may read. -/
def Invocation.inputs : Invocation → List String
  | .backtest config data strategy _ => config :: strategy.toList ++ tablePaths data
  | .validate strategy => [strategy]
  | .signal strategy data => strategy :: tablePaths data
  | .sweep config data strategies _ => config :: strategies :: tablePaths data
where
  /-- The path of the table that a path of bars means. -/
  tablePaths (data : String) : List String :=
    match tableOf data with
    | .ok (_, table) => [table]
    | .error _ => []

/-- The exit status of a command line, and what was said, printed and written. -/
def Invocation.run (disk : Disk) (i : Invocation) : Nat × Transcript :=
  (i.job disk).finish

end BarReplay.Command
