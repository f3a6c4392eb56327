import BarReplay.Market.Bar

/-!
# Rules

Rules as trees, and their truth under what can be seen of a moment in the market.
-/

namespace BarReplay

/-! ### Rules as trees

A rule is a boolean combination of comparisons. A comparison sets a field of the bar or a constant
against another; the constants are amounts of whatever arithmetic the rule is evaluated in.
-/

/-- The side of a comparison. -/
inductive Operand (α : Type) where
  | field (f : Field)
  | constant (value : α)
  deriving DecidableEq, BEq, Repr

/-- The six ways to compare. -/
inductive Comparison where
  | lt
  | gt
  | le
  | ge
  | eq
  | ne
  deriving DecidableEq, Repr

/-- A rule as a tree. -/
inductive Expr (α : Type) where
  | literal (value : Bool)
  | compare (left : Operand α) (sign : Comparison) (right : Operand α)
  | and (left right : Expr α)
  | or (left right : Expr α)
  | not (inner : Expr α)
  deriving DecidableEq, BEq, Repr

/-- The sign of a comparison in the text of a rule. -/
def Comparison.sign : Comparison → String
  | lt => "<"
  | gt => ">"
  | le => "<="
  | ge => ">="
  | eq => "=="
  | ne => "!="

variable {α : Type}

/-- The operand is the field `f`. -/
def Operand.reads (f : Field) : Operand α → Bool
  | field g => f == g
  | constant _ => false

/-- The rule reads the field `f` somewhere. -/
def Expr.reads (f : Field) : Expr α → Bool
  | literal _ => false
  | compare left _ right => left.reads f || right.reads f
  | and left right => left.reads f || right.reads f
  | or left right => left.reads f || right.reads f
  | not inner => inner.reads f

/-- Every field that the rule reads, in the order of fields. -/
def Expr.fields (e : Expr α) : List Field :=
  Field.all.filter e.reads

theorem Expr.mem_fields {e : Expr α} {f : Field} : f ∈ e.fields ↔ e.reads f = true := by
  simp [Expr.fields, Field.mem_all]

/-! ### The truth of a rule

A rule is evaluated in three values. A comparison that reads an undefined field has no truth value;
`not` keeps that, and `and` and `or` have a value without it only if the other side decides the
outcome. A rule holds when its value is true, so missing data never makes a rule hold.
-/

/-- A truth value, or none where the data do not decide. -/
abbrev Truth :=
  Option Bool

namespace Truth

/-- Negation keeps what is undecided. -/
def not (a : Truth) : Truth :=
  a.map (!·)

/-- A conjunction is false as soon as one side is. -/
def and : Truth → Truth → Truth
  | some false, _ => some false
  | some true, b => b
  | none, some false => some false
  | none, _ => none

/-- A disjunction is true as soon as one side is. -/
def or : Truth → Truth → Truth
  | some true, _ => some true
  | some false, b => b
  | none, some true => some true
  | none, _ => none

end Truth

variable [Arithmetic α]

/-- The value of an operand. -/
def Operand.value? (reading : Reading α) : Operand α → Option α
  | field f => reading f
  | constant value => some value

/-- The comparison of two values. Equality and its opposite allow for the tolerance. -/
def Comparison.holds (left : α) (sign : Comparison) (right : α) : Bool :=
  match sign with
  | lt => decide (left < right)
  | gt => decide (right < left)
  | le => decide (left ≤ right)
  | ge => decide (right ≤ left)
  | eq => decide (Arithmetic.abs (left - right) < Arithmetic.tolerance)
  | ne => decide (Arithmetic.tolerance ≤ Arithmetic.abs (left - right))

/-- The truth of a rule under a reading. -/
def Expr.truth (reading : Reading α) : Expr α → Truth
  | literal value => some value
  | compare left sign right =>
    match left.value? reading, right.value? reading with
    | some l, some r => some (sign.holds l r)
    | _, _ => none
  | and left right => (left.truth reading).and (right.truth reading)
  | or left right => (left.truth reading).or (right.truth reading)
  | not inner => (inner.truth reading).not

/-- The rule holds under a reading. -/
def Expr.holds (e : Expr α) (reading : Reading α) : Bool :=
  (e.truth reading).getD false

end BarReplay
