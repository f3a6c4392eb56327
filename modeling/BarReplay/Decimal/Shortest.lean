/-!
# Shortest decimals

A double is taken apart into exact integers, and the shortest decimal that reads back to it is found
among them.
-/

namespace BarReplay.Decimal

/-! ### Doubles as exact numbers

A finite double is a sign and a magnitude `significand * 2 ^ exponent`. Decimal text is chosen by
exact arithmetic on these two numbers; no step of it computes with doubles.
-/

/-- A power of two. -/
def twoTo (k : Nat) : Nat :=
  Nat.pow 2 k

/-- A power of ten. -/
def tenTo (k : Nat) : Nat :=
  Nat.pow 10 k

/-- The magnitude of a finite double. -/
structure Binary where
  significand : Nat
  exponent : Int
  deriving DecidableEq, Repr

/-- The sign bit of a double is set; this also tells the two zeros apart. -/
def isNegative (x : Float) : Bool :=
  x.toBits.toNat / twoTo 63 == 1

/-- The magnitude that the bits of a finite double stand for. A subnormal double has the exponent
of the smallest normal one and no hidden bit. -/
def Binary.ofFloat (x : Float) : Binary :=
  let bits := x.toBits.toNat
  let fraction : Nat := bits % twoTo 52
  let biased : Nat := bits / twoTo 52 % twoTo 11
  if biased = 0 then ⟨fraction, -1074⟩ else ⟨twoTo 52 + fraction, biased - 1075⟩

/-- A power of two, at which the next smaller double is half as far away as the next larger one. -/
def Binary.isBoundary (b : Binary) : Bool :=
  b.significand == twoTo 52 && decide (-1074 < b.exponent)

/-! ### The fewest digits that read back

The reals that round to a given double form an interval around it, whose ends belong to it exactly
when the significand is even. The shortest decimal of the double is the decimal of that interval
that lies on the coarsest grid `10 ^ t`; if both neighbours of the double on that grid lie in the
interval, it is the nearer of the two. An exact tie is left to the caller.

All comparisons are of natural numbers. The double and the ends of its interval are taken in units
of a quarter of its last place, `2 ^ (exponent - 2)`, where the three are integers.
-/

/-- A decimal `coefficient * 10 ^ exponent`. -/
structure Digits where
  coefficient : Nat
  exponent : Int
  deriving DecidableEq, Repr

/-- Which of two equally near decimals is taken. -/
inductive Tie where
  /-- The one whose last digit is even. -/
  | even
  /-- The larger one. -/
  | up
  deriving DecidableEq, Repr

/-- The interval that rounds to a double, on the grid `10 ^ t`: the grid's unit, the double and the
two ends, all as multiples of one small number. -/
structure Bracket where
  unit : Nat
  value : Nat
  low : Nat
  high : Nat
  closed : Bool

/-- The interval of the magnitude `b` over the grid `10 ^ t`. -/
def Bracket.of (b : Binary) (t : Int) : Bracket :=
  let unit := tenTo t.toNat * twoTo (2 - b.exponent).toNat
  let scale := tenTo (-t).toNat * twoTo (b.exponent - 2).toNat
  let below := if b.isBoundary then 1 else 2
  { unit
    value := 4 * b.significand * scale
    low := (4 * b.significand - below) * scale
    high := (4 * b.significand + 2) * scale
    closed := b.significand % 2 == 0 }

/-- The grid point `c` lies in the interval. -/
def Bracket.holds (r : Bracket) (c : Nat) : Bool :=
  let p := c * r.unit
  if r.closed then decide (r.low ≤ p) && decide (p ≤ r.high)
  else decide (r.low < p) && decide (p < r.high)

/-- The nearer of the grid points `c` and `c + 1`. -/
def Bracket.nearer (r : Bracket) (tie : Tie) (c : Nat) : Nat :=
  let middle := (2 * c + 1) * r.unit
  if 2 * r.value < middle then c
  else if middle < 2 * r.value then c + 1
  else
    match tie with
    | .even => if c % 2 = 0 then c else c + 1
    | .up => c + 1

/-- The grid point that stands for the double, if a neighbour of it lies in the interval. -/
def Bracket.choose? (r : Bracket) (tie : Tie) : Option Nat :=
  let c := r.value / r.unit
  match r.holds c, r.holds (c + 1) with
  | true, true => some (r.nearer tie c)
  | true, false => some c
  | false, true => some (c + 1)
  | false, false => none

/-- An upper bound of the decimal exponent of a magnitude, at most two above it. -/
def coarsestGrid (b : Binary) : Int :=
  (b.significand.log2 + b.exponent) * 30103 / 100000 + 2

/-- The first grid from `10 ^ t` down on which the double has a decimal, among `fuel` grids. -/
def searchGrids (b : Binary) (tie : Tie) : Nat → Int → Digits
  | 0, t => ⟨(Bracket.of b t).value / (Bracket.of b t).unit, t⟩
  | fuel + 1, t =>
    match (Bracket.of b t).choose? tie with
    | some c => ⟨c, t⟩
    | none => searchGrids b tie fuel (t - 1)

/-- Trailing zeros of the coefficient are moved into the exponent. -/
def Digits.normalize (fuel : Nat) (d : Digits) : Digits :=
  match fuel with
  | 0 => d
  | fuel + 1 =>
    if d.coefficient ≠ 0 ∧ d.coefficient % 10 = 0 then
      Digits.normalize fuel ⟨d.coefficient / 10, d.exponent + 1⟩
    else d

/-- The shortest decimal that reads back to the finite double `x`, up to its sign. Seventeen digits
always suffice, so the search ends within its bound. -/
def shortest (tie : Tie) (x : Float) : Digits :=
  let b := Binary.ofFloat x
  if b.significand = 0 then ⟨0, 0⟩
  else (searchGrids b tie 20 (coarsestGrid b)).normalize 20

end BarReplay.Decimal
