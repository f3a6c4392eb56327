import BarReplay.Proofs.Decimal.Order
import BarReplay.Proofs.Rule.Extent
import BarReplay.Proofs.Rule.Parsing

/-!
# What a rule compares

Whatever text a rule is read from, each of its comparisons reads a field, and its constants are
numbers that stand in the text (`comparisons_of_parse`). So no constant is the double that is no
number; but a constant is infinite if the number in the text is beyond all doubles.
-/

namespace BarReplay

open Decimal (IsNearest Numeral NumeralText)

/-- The two sides of every comparison in the tree, from left to right. -/
def Expr.comparisons {α : Type} : Expr α → List (Operand α × Operand α)
  | literal _ => []
  | compare left _ right => [(left, right)]
  | and left right => left.comparisons ++ right.comparisons
  | or left right => left.comparisons ++ right.comparisons
  | not inner => inner.comparisons

/-- The double is nearest to a number in the text, up to its sign. -/
def IsWrittenIn (text : List Char) (x : Float) : Prop :=
  ∃ (before numeral after : List Char) (n : Numeral) (y : Float),
    text = before ++ numeral ++ after ∧ NumeralText n numeral ∧ IsNearest n.value y ∧
      (x = y ∨ x = -y)

/-- Some side of the comparison is this constant. -/
def HasConstant (sides : Operand Float × Operand Float) (x : Float) : Prop :=
  sides.1 = .constant x ∨ sides.2 = .constant x

theorem IsWrittenIn.append_left {text : List Char} {x : Float} (h : IsWrittenIn text x)
    (before : List Char) : IsWrittenIn (before ++ text) x := by
  obtain ⟨pre, numeral, after, n, y, rfl, hrest⟩ := h
  exact ⟨before ++ pre, numeral, after, n, y, by simp only [List.append_assoc], hrest⟩

theorem IsWrittenIn.isNaN {text : List Char} {x : Float} (h : IsWrittenIn text x) :
    x.isNaN = false := by
  obtain ⟨_, _, _, n, y, _, _, hnearest, rfl | rfl⟩ := h
  · exact hnearest.unsigned.number
  · rw [isNaN_neg]
    exact hnearest.unsigned.number

namespace Rule

/-- The comparison reads a field, and its constants are written in the text. -/
structure ComparedIn (text : List Char) (sides : Operand Float × Operand Float) : Prop where
  reads : ¬ (IsConstant sides.1 ∧ IsConstant sides.2)
  written : ∀ x, HasConstant sides x → IsWrittenIn text x

theorem ComparedIn.append_left {text : List Char} {sides : Operand Float × Operand Float}
    (h : ComparedIn text sides) (before : List Char) : ComparedIn (before ++ text) sides :=
  ⟨h.reads, fun x hx ↦ (h.written x hx).append_left before⟩

theorem Number.isWrittenIn {x : Float} {text rest : List Char} (h : Number x text rest) :
    IsWrittenIn text x := by
  cases h with
  | unsigned spelled _ nearest => exact ⟨[], _, _, _, _, rfl, spelled, nearest, .inl rfl⟩
  | negative spelled _ nearest => exact ⟨['-'], _, _, _, _, rfl, spelled, nearest, .inr rfl⟩

/-- A constant is written where it is read. -/
theorem Side.isWrittenIn {x : Float} {cs rest : List Char} (h : Side (.constant x) cs rest) :
    IsWrittenIn cs x := by
  cases h with
  | constant number =>
    obtain @⟨blanks, text, _, _, number⟩ := number
    exact number.isWrittenIn.append_left blanks

/-- What a phrase compares is written in its text. -/
theorem Derives.comparedIn {phrase : Phrase} {cs rest : List Char} {e : Expr Float}
    (h : Derives phrase cs e rest) : ∀ sides ∈ e.comparisons, ComparedIn cs sides := by
  -- each part of a phrase stands behind the parts before it, which are put back in front of it
  induction h with
  | or first word _ hfirst hsecond | and first word _ hfirst hsecond =>
    obtain ⟨taken, rfl⟩ := first.takes.exists_append
    obtain ⟨between, rfl⟩ := word.takes.exists_append
    intro sides hsides
    rcases List.mem_append.1 hsides with hleft | hright
    · exact hfirst sides hleft
    · exact ((hsecond sides hright).append_left between).append_left taken
  | single _ honly | lone _ honly => exact honly
  | not word _ hinner =>
    obtain ⟨before, rfl⟩ := word.takes.exists_append
    exact fun sides hsides ↦ (hinner sides hsides).append_left before
  | brackets opening _ _ hinner =>
    obtain ⟨before, rfl⟩ := (takes_of_spaced_symbol opening).exists_append
    exact fun sides hsides ↦ (hinner sides hsides).append_left before
  | true word | false word =>
    intro sides hsides
    cases hsides
  | compare first between second reads =>
    intro sides hsides
    obtain rfl := List.mem_singleton.1 hsides
    refine ⟨reads, fun x hx ↦ ?_⟩
    rcases hx with hleft | hright
    · obtain rfl := hleft
      exact first.isWrittenIn
    · obtain rfl := hright
      obtain ⟨left, rfl⟩ := first.takes.exists_append
      obtain ⟨sign, rfl⟩ := (takes_of_spaced_symbol between).exists_append
      exact (second.isWrittenIn.append_left sign).append_left left

end Rule

/-- **What is read compares fields**, with fields or with numbers that stand in the text. -/
theorem comparisons_of_parse {text : String} {e : Expr Float} (h : Expr.parse text = .ok e) :
    ∀ sides ∈ e.comparisons, Rule.ComparedIn text.toList sides := by
  obtain ⟨blanks, -, hderives⟩ := parse_eq_ok_iff.1 h
  exact hderives.comparedIn

namespace Sample

/-- A comparison with infinity. -/
def unbounded : Expr Float :=
  .compare (.field .rsi) .eq (.constant (1 / 0))

/-- The number in this text is beyond all doubles. -/
theorem parse_unbounded : Expr.parse "rsi == 1e999" = .ok unbounded := by
  have hfield : Rule.Side (.field .rsi) "rsi == 1e999".toList " == 1e999".toList :=
    .field ((Rule.keyword?_eq_some_iff (by decide)).1 (by decide))
  have hsign : Rule.Spaced (Rule.Symbol Comparison.eq.sign.toList) " == 1e999".toList
      " 1e999".toList :=
    (Rule.spaced_symbol_iff (Rule.startsPrintable_sign .eq)).2 (by decide)
  have hexponent : Decimal.ExponentText 999 ['e', '9', '9', '9'] :=
    @Decimal.ExponentText.unsigned 'e' ['9', '9', '9'] (.inl rfl) (List.all_eq_true.1 (by decide))
      (List.cons_ne_nil _ _)
  have hnumeral : NumeralText ⟨['1'], [], 999⟩ (['1'] ++ [] ++ ['e', '9', '9', '9']) :=
    .mk (List.all_eq_true.1 (by decide)) .absent (.inl (List.cons_ne_nil _ _)) hexponent
  have hvalue : Numeral.toFloat ⟨['1'], [], 999⟩ = 1 / 0 := by decide +kernel
  have hnearest := Numeral.isNearest_toFloat ⟨['1'], [], 999⟩
  rw [hvalue] at hnearest
  have hnumber : Rule.Side (.constant (1 / 0)) " 1e999".toList [] :=
    .constant (@Rule.Spaced.mk _ [' '] _ _ (List.forall_mem_singleton.2 rfl)
      (.unsigned hnumeral rfl hnearest))
  have hcompare : Rule.Derives .factor "rsi == 1e999".toList unbounded [] :=
    .compare hfield hsign hnumber (by rintro ⟨⟨x, hx⟩, -⟩; cases hx)
  exact parse_eq_ok_iff.2 ⟨[], List.forall_mem_nil _, .single (.lone hcompare)⟩

end Sample

end BarReplay
