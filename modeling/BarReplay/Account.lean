import BarReplay.Market.Bar

/-!
# Accounts

What trading costs, what a purchase and a sale make of it, and what an account holds.
-/

namespace BarReplay

/-! ### Costs of trading

Two rates apply to both legs of a trade. Slippage moves the price against the account: a purchase
is filled above the close and a sale below it. Commission is a share of the value that changes
hands.
-/

/-- The rates that a trade costs, as fractions. -/
structure Costs (α : Type) where
  commission : α
  slippage : α
  deriving DecidableEq

namespace Costs

/-- The rates of a strategy that states none. -/
def standard : Costs Float :=
  { commission := 0.001, slippage := 0.0005 }

variable {α : Type} [Arithmetic α]

/-- The price at which a purchase at the given close is filled. -/
def buyPrice (costs : Costs α) (close : α) : α :=
  close * (1 + costs.slippage)

/-- The price at which a sale at the given close is filled. -/
def sellPrice (costs : Costs α) (close : α) : α :=
  close * (1 - costs.slippage)

/-- What a purchase of the given value takes from the account. -/
def debit (costs : Costs α) (value : α) : α :=
  value * (1 + costs.commission)

/-- What a sale of the given value brings to the account. -/
def credit (costs : Costs α) (value : α) : α :=
  value * (1 - costs.commission)

end Costs

/-! ### Positions and trades

A position is a number of whole shares bought on one bar. Its cost basis is what the account paid
for it, commission included, and is what the account gets back, more or less the profit, when the
position is sold; the round trip is then a trade.
-/

/-- An open position. -/
structure Position (α : Type) where
  entryDate : Date
  entryIndex : Nat
  /-- The price of a share, slippage included. -/
  entryPrice : α
  shares : Nat
  /-- What the account paid, commission included. -/
  costBasis : α
  deriving DecidableEq

/-- Why a position was closed. -/
inductive ExitReason where
  | stopLoss
  | takeProfit
  /-- The exit rule with this index. -/
  | rule (index : Nat)
  deriving DecidableEq, Repr

/-- A position that was closed. -/
structure Trade (α : Type) where
  entryDate : Date
  exitDate : Date
  entryIndex : Nat
  exitIndex : Nat
  entryPrice : α
  exitPrice : α
  shares : Nat
  /-- What came back less what was paid. -/
  profit : α
  /-- The profit as a fraction of what was paid. -/
  returnRate : α
  reason : ExitReason
  deriving DecidableEq

section

variable {α : Type} [Arithmetic α]

namespace Position

/-- The number of shares as an amount. -/
def size (p : Position α) : α :=
  Arithmetic.ofCount p.shares

/-- The change of the price since the position was opened, as a fraction. -/
def change (p : Position α) (close : α) : α :=
  (close - p.entryPrice) / p.entryPrice

/-- The gain that a sale at the close would realize, costs aside. -/
def unrealized (p : Position α) (close : α) : α :=
  (close - p.entryPrice) * p.size

/-- The value of the position at the close. -/
def mark (p : Position α) (close : α) : α :=
  p.costBasis + p.unrealized close

/-- The position bought on a bar with a share `fraction` of the cash. The cash committed buys whole
shares, and at least one; nothing is bought if there is nothing to commit. -/
def buy? (costs : Costs α) (fraction : α) (index : Nat) (bar : Bar α) (cash : α) :
    Option (Position α) :=
  let committed := cash * fraction
  if 0 < committed then
    let price := costs.buyPrice bar.close
    let shares := max 1 (Arithmetic.wholeCount (committed / price))
    some
      { entryDate := bar.date
        entryIndex := index
        entryPrice := price
        shares := shares
        costBasis := costs.debit (Arithmetic.ofCount shares * price) }
  else none

/-- The trade that selling the position on a bar makes of it. -/
def sell (p : Position α) (costs : Costs α) (index : Nat) (bar : Bar α) (reason : ExitReason) :
    Trade α :=
  let price := costs.sellPrice bar.close
  let profit := costs.credit (p.size * price) - p.costBasis
  { entryDate := p.entryDate
    exitDate := bar.date
    entryIndex := p.entryIndex
    exitIndex := index
    entryPrice := p.entryPrice
    exitPrice := price
    shares := p.shares
    profit := profit
    returnRate := if p.costBasis == 0 then 0 else profit / p.costBasis
    reason := reason }

/-- The price has fallen by the threshold or more; never without a threshold. -/
def hitsStopLoss (p : Position α) (close : α) : Option α → Bool
  | none => false
  | some threshold => decide (p.change close ≤ -threshold)

/-- The price has risen by the threshold or more; never without a threshold. -/
def hitsTakeProfit (p : Position α) (close : α) : Option α → Bool
  | none => false
  | some threshold => decide (threshold ≤ p.change close)

end Position

/-- What a closed position brings to the cash, given what was paid for it. -/
def Trade.proceeds (t : Trade α) (costBasis : α) : α :=
  costBasis + t.profit

end

/-! ### Standings

What an account holds at one moment: free cash, and at most one position. A purchase takes the cost
basis of the position from the cash, and a sale brings back the cost basis with the profit.
-/

/-- The cash of an account and its position, if any. -/
structure Standing (α : Type) where
  cash : α
  position : Option (Position α)

namespace Standing

variable {α : Type}

/-- The account holds no position. -/
def isFlat (s : Standing α) : Bool :=
  s.position.isNone

variable [Arithmetic α]

/-- The value of the account at a close. -/
def equity (s : Standing α) (close : α) : α :=
  match s.position with
  | none => s.cash
  | some p => s.cash + p.mark close

/-- The position bought on a bar with a share `fraction` of the cash, and the standing after that;
nothing if nothing can be bought. -/
def buy? (s : Standing α) (costs : Costs α) (fraction : α) (index : Nat) (bar : Bar α) :
    Option (Position α × Standing α) :=
  (Position.buy? costs fraction index bar s.cash).map fun p ↦
    (p, ⟨s.cash - p.costBasis, some p⟩)

/-- The trade that selling the position on a bar makes of it, and the standing after that. -/
def sell (s : Standing α) (p : Position α) (costs : Costs α) (index : Nat) (bar : Bar α)
    (reason : ExitReason) : Trade α × Standing α :=
  let trade := p.sell costs index bar reason
  (trade, ⟨s.cash + trade.proceeds p.costBasis, none⟩)

end Standing

end BarReplay
