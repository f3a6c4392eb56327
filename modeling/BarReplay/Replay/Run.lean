import BarReplay.Account
import BarReplay.Metrics
import BarReplay.Strategy.Basic

/-!
# Runs

The terms of a run, and what a strategy makes of bars under them. A run is written in two ways:
`Strategy.replay` looks through all bars before it trades on any, and `Strategy.replayByBar` takes
them one at a time. What they report is the same.
-/

namespace BarReplay

/-! ### Terms of a run

The capital that a run starts with, and the rates that hold for it in place of those of the
strategy. A run also needs bars that can be traded one after the other: every close a price, every
date after the one before. None of this depends on what a strategy does, so it can be settled before
the first trade.
-/

/-- The parameters of a run. -/
structure Terms (α : Type) where
  capital : α
  /-- The commission that overrides the strategy's. -/
  commission : Option α
  /-- The slippage that overrides the strategy's. -/
  slippage : Option α

/-- A parameter of a run that has to be zero or more. -/
inductive Terms.Parameter where
  | capital
  | commission
  | slippage
  deriving DecidableEq, Repr

/-- What is wrong with a bar. -/
inductive BarFault (α : Type) where
  /-- The close is no price. -/
  | close (value : α)
  /-- The date is not after that of the bar before. -/
  | order (previous : Date)
  deriving DecidableEq

/-- Why a run fails. -/
inductive RunError (α : Type) where
  | parameter (which : Terms.Parameter) (value : α)
  | noBars
  | bar (index : Nat) (date : Date) (fault : BarFault α)
  | cancelled (index : Nat)
  deriving DecidableEq

variable {α : Type} [Arithmetic α]

namespace Terms

/-- A parameter that is zero or more. -/
def checked (which : Parameter) (value : α) : Except (RunError α) α :=
  if isNonNegative value then .ok value else .error (.parameter which value)

/-- The rates that hold for a strategy under these terms. -/
def costsFor (terms : Terms α) (s : Strategy α) : Except (RunError α) (Costs α) := do
  let commission ← checked .commission (terms.commission.getD s.costs.commission)
  let slippage ← checked .slippage (terms.slippage.getD s.costs.slippage)
  pure ⟨commission, slippage⟩

/-- The capital and the rates of a run of a strategy under these terms. -/
def settle (terms : Terms α) (s : Strategy α) : Except (RunError α) (α × Costs α) := do
  let capital ← checked .capital terms.capital
  let costs ← terms.costsFor s
  pure (capital, costs)

end Terms

/-- What is wrong with a bar that follows the one with date `previous`, or follows none. The close
is looked at first. -/
def Bar.fault? (previous : Option Date) (bar : Bar α) : Option (BarFault α) :=
  if isPositive bar.close then
    match previous with
    | some date => if date < bar.date then none else some (.order date)
    | none => none
  else some (.close bar.close)

/-- The index of the first bar that cannot be traded after those before it, counted from `index`,
with its date and fault. -/
def firstFault? (index : Nat) (previous : Option Date) : List (Bar α) → Option (RunError α)
  | [] => none
  | bar :: rest =>
    match bar.fault? previous with
    | some fault => some (.bar index bar.date fault)
    | none => firstFault? (index + 1) (some bar.date) rest

/-! ### Days of a run

A run goes through the bars in order. On the first bar it only takes stock. On every later bar it
does one thing at most: without a position it may buy one, with a position it may sell it, never
both. What happens on a bar depends on the standing before it, on its index and on the bar alone, so
nothing is known of later bars.

The days of a run are its whole history; the ledger, the equity curve and the position at the end
are read off them.
-/

/-- One bar of a run: the standing after it, and the trade that was closed on it, if any. -/
structure Day (α : Type) where
  bar : Bar α
  standing : Standing α
  closed : Option (Trade α)

/-- What a run reports. -/
structure Outcome (α : Type) where
  metrics : Metrics α
  trades : List (Trade α)
  /-- The value of the account after each bar. -/
  equity : List α
  /-- The position still held after the last bar. -/
  position : Option (Position α)

/-- The value of the account after the bar, at its close. -/
def Day.equity (d : Day α) : α :=
  d.standing.equity d.bar.close

namespace Strategy

/-- What the strategy makes of a bar, given the standing before it. -/
def advance (s : Strategy α) (costs : Costs α) (index : Nat) (bar : Bar α) (before : Standing α) :
    Day α :=
  match before.position with
  | none =>
    if s.enters bar.reading then
      match before.buy? costs s.fraction index bar with
      | some (_, after) => ⟨bar, after, none⟩
      | none => ⟨bar, before, none⟩
    else ⟨bar, before, none⟩
  | some p =>
    match s.exit? p bar with
    | some reason =>
      let (trade, after) := before.sell p costs index bar reason
      ⟨bar, after, some trade⟩
    | none => ⟨bar, before, none⟩

/-- The days of the bars from `index` on. -/
def daysFrom (s : Strategy α) (costs : Costs α) (index : Nat) (before : Standing α) :
    List (Bar α) → List (Day α)
  | [] => []
  | bar :: rest =>
    let day := s.advance costs index bar before
    day :: s.daysFrom costs (index + 1) day.standing rest

/-- The days of a run that starts with the given capital. -/
def days (s : Strategy α) (costs : Costs α) (capital : α) : List (Bar α) → List (Day α)
  | [] => []
  | first :: rest =>
    let start : Standing α := ⟨capital, none⟩
    ⟨first, start, none⟩ :: s.daysFrom costs 1 start rest

end Strategy

/-- The report on the days of a run. -/
def Outcome.ofDays (days : List (Day α)) : Outcome α :=
  let equity := days.map Day.equity
  let trades := days.filterMap Day.closed
  { metrics := Metrics.compute equity (trades.map Trade.profit) days.length
    trades := trades
    equity := equity
    position := days.getLast?.bind fun d ↦ d.standing.position }

/-- The first thing wrong with the bars of a run. A run that has been cancelled gets no further than
its first bar. -/
def barsError? (cancelled : Bool) : List (Bar α) → Option (RunError α)
  | [] => some .noBars
  | first :: rest =>
    match cancelled, first.fault? none, rest with
    | true, none, _ :: _ => some (.cancelled 1)
    | _, _, _ => firstFault? 0 none (first :: rest)

/-- A run of a strategy over bars, which may have been cancelled before it starts. -/
def Strategy.replay (s : Strategy α) (terms : Terms α) (bars : List (Bar α)) (cancelled : Bool) :
    Except (RunError α) (Outcome α) := do
  let (capital, costs) ← terms.settle s
  match barsError? cancelled bars with
  | some error => .error error
  | none => .ok (Outcome.ofDays (s.days costs capital bars))

/-- A run of a strategy over bars. -/
def Strategy.run (s : Strategy α) (terms : Terms α) (bars : List (Bar α)) :
    Except (RunError α) (Outcome α) :=
  s.replay terms bars false

/-- The runs of several strategies over the same bars, in the order of the strategies. -/
def sweep (strategies : List (Strategy α)) (terms : Terms α) (bars : List (Bar α))
    (cancelled : Bool) : List (Except (RunError α) (Outcome α)) :=
  strategies.map fun s ↦ s.replay terms bars cancelled

/-! ### Bar by bar

The same run as it goes on, with nothing looked at before its turn. Before each bar after the first
the flag is read that cancels the run; then the bar is checked against the one before it, and only
then does the strategy act on it. The flag may be raised at any time, so it is read anew for each
bar. What the run gathers on its way is given up when it stops early.
-/

/-- What a run has gathered after some bars. -/
structure Progress (α : Type) where
  standing : Standing α
  trades : List (Trade α)
  equity : List α

namespace Progress

/-- Before anything is traded, the first bar has been taken stock of. -/
def start (capital : α) : Progress α :=
  { standing := ⟨capital, none⟩
    trades := []
    equity := [capital] }

/-- One more day is added. -/
def add (p : Progress α) (day : Day α) : Progress α :=
  { standing := day.standing
    trades := p.trades ++ day.closed.toList
    equity := p.equity ++ [day.equity] }

/-- The report on what was gathered over `count` bars. -/
def report (p : Progress α) (count : Nat) : Outcome α :=
  { metrics := Metrics.compute p.equity (p.trades.map Trade.profit) count
    trades := p.trades
    equity := p.equity
    position := p.standing.position }

end Progress

namespace Strategy

/-- The bars from `index` on, which follow the bar `previous`; `cancelled i` is the flag as it is
read before bar `i`. -/
def pass (s : Strategy α) (costs : Costs α) (cancelled : Nat → Bool) (index : Nat)
    (previous : Bar α) (p : Progress α) : List (Bar α) → Except (RunError α) (Progress α)
  | [] => .ok p
  | bar :: rest =>
    if cancelled index then .error (.cancelled index)
    else
      match bar.fault? (some previous.date) with
      | some fault => .error (.bar index bar.date fault)
      | none =>
        s.pass costs cancelled (index + 1) bar (p.add (s.advance costs index bar p.standing)) rest

/-- All bars, from the given capital on. The flag is not read before the first bar. -/
def passAll (s : Strategy α) (costs : Costs α) (cancelled : Nat → Bool) (capital : α) :
    List (Bar α) → Except (RunError α) (Progress α)
  | [] => .error .noBars
  | first :: rest =>
    match first.fault? none with
    | some fault => .error (.bar 0 first.date fault)
    | none => s.pass costs cancelled 1 first (.start capital) rest

/-- A run of a strategy, bar by bar. -/
def replayByBar (s : Strategy α) (terms : Terms α) (bars : List (Bar α))
    (cancelled : Nat → Bool) : Except (RunError α) (Outcome α) := do
  let (capital, costs) ← terms.settle s
  let p ← s.passAll costs cancelled capital bars
  pure (p.report bars.length)

end Strategy

end BarReplay
