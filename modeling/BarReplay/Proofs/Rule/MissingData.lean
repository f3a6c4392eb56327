import BarReplay.Rule.Expr

/-!
# Missing data

A reading that fills in another one keeps all values that were defined and may define more. A truth
value that a rule has without these values is not revised when they arrive: what the rule says on
less, it says on more (`Expr.truth_of_filledBy`). So a rule that holds although data are missing
would hold whatever they are, and nothing is done because of what is not known.

The argument is about `not`, `and` and `or` on their own: none of them takes back a value when one
of its sides, which had none, gets one. With a missing comparison read as false this would fail for
`not`, which turns the missing value into a true one. Where nothing is missing the three values are
the ordinary two (`Expr.truth_of_reads`), so a rule is left without a value by missing data alone.
-/

namespace BarReplay

/-- A value that was there is kept, and one that was not may come to be there. -/
def KeptBy {β : Type} (a b : Option β) : Prop :=
  ∀ x, a = some x → b = some x

/-! ### Connectives -/

namespace Truth

variable {a a' b b' : Truth}

theorem not_keptBy (ha : KeptBy a a') : KeptBy a.not a'.not := by
  intro value h
  obtain ⟨inner, hinner, rfl⟩ := Option.map_eq_some_iff.1 h
  rw [ha inner hinner]
  rfl

/-- A conjunction is decided by both sides, or by one that is false. -/
theorem and_keptBy (ha : KeptBy a a') (hb : KeptBy b b') : KeptBy (a.and b) (a'.and b') := by
  intro value h
  match a, b with
  | some false, _ =>
    rw [ha false rfl]
    exact h
  | some true, some right =>
    rw [ha true rfl, hb right rfl]
    exact h
  | none, some false =>
    -- the right side alone has decided, whatever the left side turns out to be
    obtain rfl : false = value := Option.some.inj h
    rw [hb false rfl]
    match a' with
    | some false => rfl
    | some true => rfl
    | none => rfl
  | some true, none => cases h
  | none, some true => cases h
  | none, none => cases h

/-- A disjunction is decided by both sides, or by one that is true. -/
theorem or_keptBy (ha : KeptBy a a') (hb : KeptBy b b') : KeptBy (a.or b) (a'.or b') := by
  intro value h
  match a, b with
  | some true, _ =>
    rw [ha true rfl]
    exact h
  | some false, some right =>
    rw [ha false rfl, hb right rfl]
    exact h
  | none, some true =>
    obtain rfl : true = value := Option.some.inj h
    rw [hb true rfl]
    match a' with
    | some true => rfl
    | some false => rfl
    | none => rfl
  | some false, none => cases h
  | none, some false => cases h
  | none, none => cases h

end Truth

/-! ### Rules -/

variable {α : Type}

/-- The second reading has every value of the first, and may have more. -/
def Reading.FilledBy (r r' : Reading α) : Prop :=
  ∀ f, KeptBy (r f) (r' f)

/-- The reading with values put in where it has none. -/
def Reading.fill (r more : Reading α) : Reading α :=
  fun f ↦ (r f).or (more f)

theorem Reading.filledBy_fill (r more : Reading α) : r.FilledBy (r.fill more) := by
  intro f x h
  rw [fill, h, Option.some_or]

theorem Operand.value?_keptBy {r r' : Reading α} (h : r.FilledBy r') (x : Operand α) :
    KeptBy (x.value? r) (x.value? r') := by
  cases x with
  | field f => exact h f
  | constant c => exact fun _ hvalue ↦ hvalue

variable [Arithmetic α]

/-- A rule keeps its truth value when more data are known. -/
theorem Expr.truth_keptBy {r r' : Reading α} (h : r.FilledBy r') (e : Expr α) :
    KeptBy (e.truth r) (e.truth r') := by
  induction e with
  | literal value => exact fun _ hvalue ↦ hvalue
  | compare left sign right =>
    intro value htruth
    -- a comparison has a value only if both operands have one
    rw [truth] at htruth
    split at htruth
    next l x hl hx =>
      rw [truth, left.value?_keptBy h l hl, right.value?_keptBy h x hx]
      exact htruth
    next => cases htruth
  | and left right ihl ihr => exact Truth.and_keptBy ihl ihr
  | or left right ihl ihr => exact Truth.or_keptBy ihl ihr
  | not inner ih => exact Truth.not_keptBy ih

/-! ### Nothing is missing -/

/-- The value of an operand where every field has one. -/
def Operand.valueIn (values : Field → α) : Operand α → α
  | field f => values f
  | constant c => c

/-- The truth of a rule in two values, where every field has a value. -/
def Expr.isTrueIn (values : Field → α) : Expr α → Bool
  | literal value => value
  | compare left sign right => sign.holds (left.valueIn values) (right.valueIn values)
  | and left right => left.isTrueIn values && right.isTrueIn values
  | or left right => left.isTrueIn values || right.isTrueIn values
  | not inner => !inner.isTrueIn values

omit [Arithmetic α] in
theorem Operand.value?_of_reads {r : Reading α} {values : Field → α} {x : Operand α}
    (h : ∀ f, x.reads f = true → r f = some (values f)) :
    x.value? r = some (x.valueIn values) := by
  cases x with
  | field f => exact h f (by simp [reads])
  | constant c => rfl

/-- Where the fields that it reads are defined, a rule has the truth value that it has in two
values. -/
theorem Expr.truth_of_reads {r : Reading α} {values : Field → α} {e : Expr α}
    (h : ∀ f, e.reads f = true → r f = some (values f)) :
    e.truth r = some (e.isTrueIn values) := by
  induction e with
  | literal value => rfl
  | compare left sign right =>
    have hleft : left.value? r = some (left.valueIn values) :=
      Operand.value?_of_reads fun f hf ↦ h f (by simp [reads, hf])
    have hright : right.value? r = some (right.valueIn values) :=
      Operand.value?_of_reads fun f hf ↦ h f (by simp [reads, hf])
    rw [truth, hleft, hright]
    rfl
  | and left right ihl ihr =>
    have hleft := ihl fun f hf ↦ h f (by simp [reads, hf])
    have hright := ihr fun f hf ↦ h f (by simp [reads, hf])
    rw [truth, hleft, hright, isTrueIn]
    cases left.isTrueIn values <;> rfl
  | or left right ihl ihr =>
    have hleft := ihl fun f hf ↦ h f (by simp [reads, hf])
    have hright := ihr fun f hf ↦ h f (by simp [reads, hf])
    rw [truth, hleft, hright, isTrueIn]
    cases left.isTrueIn values <;> rfl
  | not inner ih =>
    rw [truth, ih fun f hf ↦ h f hf]
    rfl

/-- **Missing data never make a rule hold.** A rule that is true or false on some data has the same
value on all data that agree with them and define more. So if it holds although values are missing,
it holds however they are filled in. And where none is missing that it reads, its value is the
ordinary one of two. -/
theorem Expr.truth_of_filledBy (e : Expr α) :
    (∀ r r' : Reading α, r.FilledBy r' → ∀ value, e.truth r = some value →
      e.truth r' = some value) ∧
    (∀ r : Reading α, e.holds r = true → ∀ more : Reading α, e.holds (r.fill more) = true) ∧
    ∀ (r : Reading α) (values : Field → α),
      (∀ f, e.reads f = true → r f = some (values f)) → e.truth r = some (e.isTrueIn values) := by
  refine ⟨fun r r' h ↦ e.truth_keptBy h, fun r hholds more ↦ ?_, fun r values ↦ truth_of_reads⟩
  have htrue : e.truth r = some true := by
    rw [holds] at hholds
    rcases htruth : e.truth r with - | value
    · rw [htruth] at hholds
      cases hholds
    · rw [htruth] at hholds
      rw [show value = true from hholds]
  rw [holds, e.truth_keptBy (r.filledBy_fill more) true htrue]
  rfl

namespace Sample

/-- `not (rsi > 70 and macd < 0) or sma_20 > close`. -/
def calmRule : Expr Float :=
  .or (.not (.and (.compare (.field .rsi) .gt (.constant 70))
    (.compare (.field .macd) .lt (.constant 0)))) (.compare (.field .sma20) .gt (.field .close))

/-- A moment of which one indicator is known. -/
def macdOnly : Reading Float
  | .macd => some 1
  | _ => none

/-- Values that the fields might have. -/
def values : Field → Float
  | .rsi => 80
  | .macd => -1
  | .sma20 => 90
  | _ => 100

/-- A moment of which all is known that the rule reads. -/
def fourFields : Reading Float
  | .rsi => some 80
  | .macd => some (-1)
  | .sma20 => some 90
  | .close => some 100
  | _ => none

end Sample

/-- The rule holds on one indicator, and so it does when others come to be known. On these alone it
has the value false. -/
theorem Expr.sample_truth_of_filledBy :
    Sample.macdOnly.FilledBy (Sample.macdOnly.fill Sample.fourFields) ∧
      Sample.calmRule.truth (Sample.macdOnly.fill Sample.fourFields) = some true ∧
      Sample.calmRule.holds (Sample.macdOnly.fill Sample.fourFields) = true ∧
      Sample.calmRule.truth Sample.fourFields = some false := by
  have hfilled := Sample.macdOnly.filledBy_fill Sample.fourFields
  have htruth : Sample.calmRule.truth Sample.macdOnly = some true := by decide +kernel
  have hholds : Sample.calmRule.holds Sample.macdOnly = true := by decide +kernel
  have hread : ∀ f, Sample.calmRule.reads f = true →
      Sample.fourFields f = some (Sample.values f) := by
    intro f hf
    cases f with
    | rsi | macd | sma20 | close => rfl
    | _ => exact absurd hf (by decide)
  have hvalue : Sample.calmRule.isTrueIn Sample.values = false := by decide +kernel
  obtain ⟨hkept, hstays, hordinary⟩ := Sample.calmRule.truth_of_filledBy
  exact ⟨hfilled, hkept _ _ hfilled true htruth, hstays _ hholds _,
    (hordinary _ _ hread).trans (congrArg some hvalue)⟩

end BarReplay
