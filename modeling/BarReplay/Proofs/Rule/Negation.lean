import BarReplay.Proofs.Rule.Comparisons

/-!
# Negation

The negation of a rule says the same as the rule with every connective, every literal and every
comparison turned into its opposite (`Expr.truth_not_of_parse`), whether or not data are missing.

For `and`, `or` and the literals this is a matter of three values, and holds of all trees
(`Truth.not_and`, `Truth.not_or`). For comparisons it needs that the values compared are numbers:
a comparison with the double that is no number fails, and so does the opposite one. What a rule
compares are numbers, because a reading has finite values only and a text has numbers only. What `=`
and `!=` set against the tolerance is a difference, and this could be no number although both sides
are; but two infinite sides would be two constants, and every comparison reads a field.
-/

namespace BarReplay

variable {α : Type}

/-! ### Opposites -/

/-- The comparison that should hold where this one does not. -/
def Comparison.opposite : Comparison → Comparison
  | lt => ge
  | gt => le
  | le => gt
  | ge => lt
  | eq => ne
  | ne => eq

/-- The rule, or its negation, with all negations pushed into the comparisons and literals. -/
def Expr.pushed (negated : Bool) : Expr α → Expr α
  | literal value => .literal (value ^^ negated)
  | compare left sign right => .compare left (if negated then sign.opposite else sign) right
  | and left right =>
    if negated then .or (left.pushed negated) (right.pushed negated)
    else .and (left.pushed negated) (right.pushed negated)
  | or left right =>
    if negated then .and (left.pushed negated) (right.pushed negated)
    else .or (left.pushed negated) (right.pushed negated)
  | not inner => inner.pushed (!negated)

/-- There is no negation in the tree. -/
def Expr.IsPositive : Expr α → Prop
  | literal _ => True
  | compare _ _ _ => True
  | and left right => left.IsPositive ∧ right.IsPositive
  | or left right => left.IsPositive ∧ right.IsPositive
  | not _ => False

/-- No negation is left where all are pushed down. -/
theorem Expr.isPositive_pushed (e : Expr α) (negated : Bool) : (e.pushed negated).IsPositive := by
  induction e generalizing negated with
  | literal value => trivial
  | compare left sign right => trivial
  | and left right ihl ihr | or left right ihl ihr =>
    cases negated with
    | false => exact ⟨ihl _, ihr _⟩
    | true => exact ⟨ihl _, ihr _⟩
  | not inner ih => exact ih _

/-! ### Connectives -/

namespace Truth

theorem not_not (a : Truth) : a.not.not = a := by
  rcases a with - | a
  · rfl
  · exact congrArg some (Bool.not_not a)

/-- The negation of a conjunction, with values missing or not. -/
theorem not_and (a b : Truth) : (a.and b).not = a.not.or b.not := by
  match a, b with
  | some false, _ => rfl
  | some true, _ => rfl
  | none, some false => rfl
  | none, some true => rfl
  | none, none => rfl

/-- The negation of a disjunction, with values missing or not. -/
theorem not_or (a b : Truth) : (a.or b).not = a.not.and b.not := by
  match a, b with
  | some true, _ => rfl
  | some false, _ => rfl
  | none, some true => rfl
  | none, some false => rfl
  | none, none => rfl

end Truth

/-! ### Comparisons -/

/-- **Opposite comparisons of numbers have opposite outcomes**, if one of the numbers is finite. The
tolerance is a number, and the difference is one, also if it overflows. -/
theorem Comparison.holds_opposite {x y : Float} (hx : x.isNaN = false) (hy : y.isNaN = false)
    (h : x.isFinite = true ∨ y.isFinite = true) (sign : Comparison) :
    sign.opposite.holds x y = !sign.holds x y := by
  have hdistance : (Arithmetic.abs (x - y)).isNaN = false :=
    (isNaN_abs (x - y)).trans (isNaN_sub hx hy h)
  have htolerance : (Arithmetic.tolerance : Float).isNaN = false := by decide +kernel
  cases sign with
  | lt => exact decide_le_eq_not_lt hx hy
  | gt => exact decide_le_eq_not_lt hy hx
  | le => exact decide_lt_eq_not_le hy hx
  | ge => exact decide_lt_eq_not_le hx hy
  | eq => exact decide_le_eq_not_lt hdistance htolerance
  | ne => exact decide_lt_eq_not_le hdistance htolerance

/-- What is defined is finite. -/
def Reading.IsFinite [Arithmetic α] (r : Reading α) : Prop :=
  ∀ f x, r f = some x → Arithmetic.isFinite x = true

/-- Bars, tables and records show finite values only. -/
theorem Reading.isFinite_ofValues [Arithmetic α] (value : Field → Option α) :
    (Reading.ofValues value).IsFinite := by
  intro f x hx
  exact (Option.filter_eq_some_iff.1 hx).2

section Sides

variable {r : Reading Float} (hr : r.IsFinite) {o : Operand Float} {x : Float}

include hr

/-- Where an operand has a value, the value is a number. -/
theorem Operand.isNaN_of_value? (ho : ∀ c, o = .constant c → c.isNaN = false)
    (hx : o.value? r = some x) : x.isNaN = false := by
  cases o with
  | field f => exact isNaN_of_isFinite (hr f x hx)
  | constant c =>
    obtain rfl : c = x := Option.some.inj hx
    exact ho c rfl

theorem Operand.isFinite_of_value? (ho : ¬ Rule.IsConstant o) (hx : o.value? r = some x) :
    x.isFinite = true := by
  cases o with
  | field f => exact hr f x hx
  | constant c => exact absurd ⟨c, rfl⟩ ho

/-- The opposite of a comparison that a text can hold has the opposite value, or none if the
comparison has none. -/
theorem Expr.truth_opposite {text : List Char} {left right : Operand Float} (sign : Comparison)
    (h : Rule.ComparedIn text (left, right)) :
    (Expr.compare left sign.opposite right).truth r = ((Expr.compare left sign right).truth r).not
    := by
  rw [truth, truth]
  rcases hleft : left.value? r with - | x
  · rfl
  rcases hright : right.value? r with - | y
  · rfl
  have hx : x.isNaN = false :=
    Operand.isNaN_of_value? hr (fun c hc ↦ (h.written c (.inl hc)).isNaN) hleft
  have hy : y.isNaN = false :=
    Operand.isNaN_of_value? hr (fun c hc ↦ (h.written c (.inr hc)).isNaN) hright
  have hfinite : x.isFinite = true ∨ y.isFinite = true :=
    (not_and_or.1 h.reads).imp (fun ho ↦ Operand.isFinite_of_value? hr ho hleft)
      fun ho ↦ Operand.isFinite_of_value? hr ho hright
  exact congrArg some (Comparison.holds_opposite hx hy hfinite sign)

end Sides

/-! ### Rules -/

/-- A tree says the same when its negations are pushed down, and its negation says the opposite. -/
theorem Expr.truth_pushed {r : Reading Float} (hr : r.IsFinite) {text : List Char} {e : Expr Float}
    (h : ∀ sides ∈ e.comparisons, Rule.ComparedIn text sides) :
    (e.pushed false).truth r = e.truth r ∧ (e.pushed true).truth r = (e.truth r).not := by
  induction e with
  | literal value => exact ⟨by rw [pushed, Bool.xor_false], by rw [pushed, Bool.xor_true]; rfl⟩
  | compare left sign right => exact ⟨rfl, truth_opposite hr sign (h _ (List.mem_singleton_self _))⟩
  | and left right ihl ihr =>
    obtain ⟨hleft, hleft'⟩ := ihl fun sides hs ↦ h sides (List.mem_append_left _ hs)
    obtain ⟨hright, hright'⟩ := ihr fun sides hs ↦ h sides (List.mem_append_right _ hs)
    constructor
    · show ((left.pushed false).truth r).and ((right.pushed false).truth r) = _
      rw [hleft, hright, truth]
    · show ((left.pushed true).truth r).or ((right.pushed true).truth r) = _
      rw [hleft', hright', truth, Truth.not_and]
  | or left right ihl ihr =>
    obtain ⟨hleft, hleft'⟩ := ihl fun sides hs ↦ h sides (List.mem_append_left _ hs)
    obtain ⟨hright, hright'⟩ := ihr fun sides hs ↦ h sides (List.mem_append_right _ hs)
    constructor
    · show ((left.pushed false).truth r).or ((right.pushed false).truth r) = _
      rw [hleft, hright, truth]
    · show ((left.pushed true).truth r).and ((right.pushed true).truth r) = _
      rw [hleft', hright', truth, Truth.not_or]
  | not inner ih =>
    obtain ⟨hinner, hinner'⟩ := ih h
    exact ⟨hinner', hinner.trans (Truth.not_not _).symm⟩

/-- **Negation is exact.** The negation of a rule that was read from a text has on every reading the
same value as the rule with all its parts turned into their opposites, in which no negation is left.
A reading shows finite values only, whatever it is a reading of. In particular `==` and `!=` never
agree on two numbers of which one is finite, however close they are, and also if their difference
overflows. -/
theorem Expr.truth_not_of_parse {text : String} {e : Expr Float} (h : Expr.parse text = .ok e) :
    ((∀ r : Reading Float, r.IsFinite → (Expr.not e).truth r = (e.pushed true).truth r) ∧
        ∀ value : Field → Option Float, (Reading.ofValues value).IsFinite) ∧
      (e.pushed true).IsPositive ∧
      ∀ x y : Float, x.isNaN = false → y.isNaN = false → (x.isFinite = true ∨ y.isFinite = true) →
        Comparison.ne.holds x y = !Comparison.eq.holds x y :=
  ⟨⟨fun _ hr ↦ (truth_pushed hr (comparisons_of_parse h)).2.symm, Reading.isFinite_ofValues⟩,
    isPositive_pushed e true, fun _ _ hx hy hfinite ↦ Comparison.holds_opposite hx hy hfinite .eq⟩

/-- A finite value is not equal to infinity, and neither are two doubles whose difference
overflows. -/
theorem Expr.sample_truth_not :
    Expr.parse "rsi == 1e999" = .ok Sample.unbounded ∧
      Sample.unbounded.pushed true = .compare (.field .rsi) .ne (.constant (1 / 0)) ∧
      (Expr.not Sample.unbounded).truth (.ofValues fun _ ↦ some 30) =
        (Sample.unbounded.pushed true).truth (.ofValues fun _ ↦ some 30) ∧
      (Expr.not Sample.unbounded).truth (.ofValues fun _ ↦ some 30) = some true ∧
      ((1e308 : Float) - -1e308).isInf = true ∧
      Comparison.ne.holds (1e308 : Float) (-1e308) =
        !Comparison.eq.holds (1e308 : Float) (-1e308) := by
  obtain ⟨⟨htruth, hfinite⟩, -, hvalues⟩ := truth_not_of_parse Sample.parse_unbounded
  exact ⟨Sample.parse_unbounded, rfl, htruth _ (hfinite _), by decide +kernel, by decide +kernel,
    hvalues _ _ (by decide +kernel) (by decide +kernel) (.inl (by decide +kernel))⟩

end BarReplay
