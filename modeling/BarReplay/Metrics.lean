import BarReplay.Arithmetic

/-!
# Performance

What is reported of a run: returns, risk and the ledger in numbers. All are functions of the equity
curve, of the profits of the trades and of the number of bars. A ratio without a denominator is
zero.
-/

namespace BarReplay

/-- The performance of a run. -/
structure Metrics (α : Type) where
  totalReturn : α
  annualReturn : α
  sharpeRatio : α
  /-- The deepest fall from a peak, as a fraction of the peak and not positive. -/
  maxDrawdown : α
  winRate : α
  profitFactor : α
  totalTrades : Nat
  averageTrade : α
  finalEquity : α
  deriving DecidableEq

namespace Metrics

variable {α : Type} [Arithmetic α]

/-- The sum of a list, taken from left to right. -/
def total (xs : List α) : α :=
  xs.foldl (· + ·) 0

/-- The growth from the first value of the curve to the last, as a fraction of the first. -/
def growth (curve : List α) : α :=
  let first := curve.head?.getD 0
  if first == 0 then 0 else curve.getLast?.getD 0 / first - 1

/-- The return per year that compounds to the given return over the given number of bars. An account
that is used up returns minus one. -/
def annualized (totalReturn : α) (bars : Nat) : α :=
  let factor := 1 + totalReturn
  if factor ≤ 0 then -1
  else Arithmetic.pow factor (Arithmetic.yearDays / Arithmetic.ofCount (max 1 bars)) - 1

/-- The return of one step of the curve, if it has one. -/
def stepReturn? (before after : α) : Option α :=
  if before == 0 then none
  else
    let r := after / before - 1
    if Arithmetic.isFinite r then some r else none

/-- The returns of the steps of the curve. -/
def periodReturns : List α → List α
  | before :: after :: rest =>
    (stepReturn? before after).toList ++ periodReturns (after :: rest)
  | _ => []

/-- The mean return over its sample deviation, for a year of trading days; zero when there are
fewer than two returns or they do not deviate. -/
def sharpe (returns : List α) : α :=
  if returns.length < 2 then 0
  else
    let n : α := Arithmetic.ofCount returns.length
    let mean := total returns / n
    let variance := total (returns.map fun r ↦ (r - mean) * (r - mean)) / (n - 1)
    let deviation := Arithmetic.sqrt variance
    if isPositive deviation then mean / deviation * Arithmetic.sqrt Arithmetic.yearDays else 0

/-- The values of a curve, each with the highest value up to it, `peak` being that before. -/
def withPeaks (peak : α) : List α → List (α × α)
  | [] => []
  | value :: rest =>
    let peak := if peak < value then value else peak
    (value, peak) :: withPeaks peak rest

/-- The fall of a value from its peak, as a fraction of the peak, if that is not zero. -/
def drawdown? (point : α × α) : Option α :=
  if point.2 == 0 then none else some ((point.1 - point.2) / point.2)

/-- The lesser of two amounts, of equal ones the second; one that is undefined gives way. -/
def lesser (a b : α) : α :=
  if a == a then (if b ≤ a then b else a) else b

/-- The deepest fall of a curve from a peak, zero if no peak has a fall. -/
def deepestDrawdown (curve : List α) : α :=
  match (withPeaks Arithmetic.lowest curve).filterMap drawdown? with
  | [] => 0
  | d :: rest => rest.foldl lesser d

/-- A part of a whole in numbers, zero of nothing. -/
def ratio (part whole : Nat) : α :=
  if whole = 0 then 0 else Arithmetic.ofCount part / Arithmetic.ofCount whole

/-- What was won for one unit lost, zero if nothing was lost. -/
def winPerLoss (profits : List α) : α :=
  let won := total (profits.filter fun p ↦ decide (0 < p))
  let lost := Arithmetic.abs (total (profits.filter fun p ↦ decide (p < 0)))
  if 0 < lost then won / lost else 0

/-- The mean of the profits, zero of none. -/
def average (profits : List α) : α :=
  if profits.isEmpty then 0 else total profits / Arithmetic.ofCount profits.length

/-- The performance of a run with the given equity curve and profits over the given number of
bars. -/
def compute (curve profits : List α) (bars : Nat) : Metrics α :=
  { totalReturn := growth curve
    annualReturn := annualized (growth curve) bars
    sharpeRatio := sharpe (periodReturns curve)
    maxDrawdown := deepestDrawdown curve
    winRate := ratio (profits.filter fun p ↦ decide (0 < p)).length profits.length
    profitFactor := winPerLoss profits
    totalTrades := profits.length
    averageTrade := average profits
    finalEquity := curve.getLast?.getD 0 }

end Metrics

end BarReplay
