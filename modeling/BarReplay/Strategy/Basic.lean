import BarReplay.Account
import BarReplay.Rule.Parser
import BarReplay.Rule.Expr

/-!
# Strategies

A strategy says when to enter the market, when to leave it, how much to commit and what trading
costs. A list of rules holds when one of its rules does. A position is left at its stop-loss, at its
take-profit, or by the first exit rule that holds, in this order of precedence.
-/

namespace BarReplay

/-- A strategy whose rules have been read and whose numbers have been checked. -/
structure Strategy (α : Type) where
  name : String
  description : String
  entryRules : List (Rule α)
  exitRules : List (Rule α)
  /-- The fall at which a position is left. -/
  stopLoss : Option α
  /-- The rise at which a position is left. -/
  takeProfit : Option α
  /-- The share of the cash that an entry commits. -/
  fraction : α
  costs : Costs α
  deriving DecidableEq

variable {α : Type} [Arithmetic α]

/-- The index of the first rule that holds. -/
def Rule.firstHolding? (rules : List (Rule α)) (reading : Reading α) : Option Nat :=
  rules.findIdx? fun r ↦ r.expr.holds reading

/-- Some rule holds. -/
def Rule.anyHolds (rules : List (Rule α)) (reading : Reading α) : Bool :=
  (Rule.firstHolding? rules reading).isSome

namespace Strategy

/-- The strategy would enter on this reading. -/
def enters (s : Strategy α) (reading : Reading α) : Bool :=
  Rule.anyHolds s.entryRules reading

/-- Why the strategy would leave the position on this bar, if it would. -/
def exit? (s : Strategy α) (p : Position α) (bar : Bar α) : Option ExitReason :=
  if p.hitsStopLoss bar.close s.stopLoss then some .stopLoss
  else if p.hitsTakeProfit bar.close s.takeProfit then some .takeProfit
  else (Rule.firstHolding? s.exitRules bar.reading).map .rule

/-- Some rule of the strategy reads the field. -/
def reads (s : Strategy α) (f : Field) : Bool :=
  (s.entryRules ++ s.exitRules).any fun r ↦ r.expr.reads f

/-- Every field that the rules read, in the order of fields. -/
def fields (s : Strategy α) : List Field :=
  Field.all.filter s.reads

end Strategy

end BarReplay
