/-!
# The arithmetic of prices and money

A run is one recipe of sums, products and comparisons. `Arithmetic α` names exactly the operations
that the recipe uses, so that the recipe can be carried out in doubles, as it is when a program
runs, and also read in exact numbers, where sums can be rearranged. No law is asked of the
operations here.
-/

namespace BarReplay

/-- The operations that prices, money and rates are computed with. -/
class Arithmetic (α : Type) extends Zero α, One α, Add α, Sub α, Mul α, Div α, Neg α, LT α, LE α,
    BEq α where
  /-- The order is decided. -/
  decLt : DecidableLT α
  /-- The weak order is decided. -/
  decLe : DecidableLE α
  /-- The amount is a number, neither infinite nor undefined. -/
  isFinite : α → Bool
  /-- The amount that stands for a missing close; it is not finite. -/
  undefined : α
  /-- An amount that no finite amount lies below. -/
  lowest : α
  /-- The distance within which two values count as equal. -/
  tolerance : α
  /-- The number of trading days that a year is reckoned with. -/
  yearDays : α
  /-- Distance from zero. -/
  abs : α → α
  /-- Square root. -/
  sqrt : α → α
  /-- Power. -/
  pow : α → α → α
  /-- A count as an amount. -/
  ofCount : Nat → α
  /-- The whole part of a positive amount as a count, the greatest count if there is no such, and
  zero for an amount that is not positive. -/
  wholeCount : α → Nat

/-- The order of amounts is decided. -/
instance Arithmetic.decidableLT {α : Type} [Arithmetic α] : DecidableLT α :=
  Arithmetic.decLt

/-- The weak order of amounts is decided. -/
instance Arithmetic.decidableLE {α : Type} [Arithmetic α] : DecidableLE α :=
  Arithmetic.decLe

/-- The arithmetic of doubles. Counts of shares have 64 bits. -/
instance : Arithmetic Float where
  zero := 0.0
  one := 1.0
  decLt := inferInstance
  decLe := inferInstance
  isFinite := Float.isFinite
  undefined := 0.0 / 0.0
  lowest := -1.0 / 0.0
  tolerance := 1e-9
  yearDays := 252.0
  abs := Float.abs
  sqrt := Float.sqrt
  pow := Float.pow
  ofCount := Float.ofNat
  wholeCount x := x.toUInt64.toNat

section Checks

variable {α : Type} [Arithmetic α]

/-- A finite amount that is zero or more: a capital, a rate or a threshold that makes sense. -/
def isNonNegative (x : α) : Bool :=
  Arithmetic.isFinite x && decide (0 ≤ x)

/-- A finite amount above zero: a price at which something can be traded. -/
def isPositive (x : α) : Bool :=
  Arithmetic.isFinite x && decide (0 < x)

/-- A share of an account: more than nothing and at most all of it. -/
def isShareOfAccount (x : α) : Bool :=
  decide (0 < x) && decide (x ≤ 1)

end Checks

end BarReplay
