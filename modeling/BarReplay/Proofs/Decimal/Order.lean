import BarReplay.Proofs.Decimal.Zero

/-!
# The order of doubles

Two doubles are compared as numbers are as long as neither of them is the double that is no number:
then exactly one of `x < y` and `y ≤ x` holds (`decide_le_eq_not_lt`). Arithmetic can lose this. A
sum, a product or a quotient that overflows is infinite and still a number, but the difference of
two infinities is none. So a difference is a number if both its sides are and one of them is finite
(`isNaN_sub`).

What an operation packs is a number exactly if its unpacked result is (`isNaN_pack`), which settles
all of this on the unpacked doubles.
-/

open Float.Model Float.Model.UnpackedFloat

namespace BarReplay

/-! ### Numbers -/

/-- Parts are packed as no number only if they are the ones reserved for it. -/
theorem isNaN_unpack_packComponents {s : Sign} {e : BitVec 11} {m : BitVec 52}
    (h : e ≠ -1#11 ∨ m = 0#52) :
    (UnpackedFloat.unpack Format.binary64 (packComponents Format.binary64 s e m)).isNaN =
      false := by
  rw [UnpackedFloat.unpack]
  simp only [unpackExponent_packComponents, unpackMantissa_packComponents]
  split_ifs with hmax hzero
  · rfl
  · exact absurd (h.resolve_left fun hne ↦ hne hmax) hzero
  all_goals rfl

/-- What is packed is a number exactly if what is unpacked is one. -/
theorem isNaN_pack (u : UnpackedFloat) : (Float.Model.pack u).isNaN = u.isNaN := by
  show (UnpackedFloat.unpack Format.binary64 (UnpackedFloat.pack Format.binary64 u)).isNaN = u.isNaN
  cases u with
  | notANumber => rfl
  | infinity s => exact isNaN_unpack_packComponents (.inr rfl)
  | zero s => exact isNaN_unpack_packComponents (.inr rfl)
  | finite s m e hm =>
    rw [UnpackedFloat.pack]
    simp only
    split_ifs with hlarge hnormal
    · exact isNaN_unpack_packComponents (.inr rfl)
    · -- an exponent that is not too large is below the one reserved for infinity
      refine isNaN_unpack_packComponents (.inl ?_)
      have hsmall : ¬ 2 ^ 11 ≤ _ + 1 := hlarge
      rw [ne_eq, ← BitVec.toNat_inj, BitVec.toNat_ofNat]
      show ¬ _ % 2 ^ 11 = 2047
      rw [Nat.mod_eq_of_lt (by omega)]
      omega
    · exact isNaN_unpack_packComponents (.inl (by decide))

theorem isNaN_neg (x : Float) : (-x).isNaN = x.isNaN := by
  refine (isNaN_pack x.toModel.unpack.neg).trans ?_
  show _ = x.toModel.unpack.isNaN
  cases x.toModel.unpack <;> rfl

theorem isNaN_abs (x : Float) : x.abs.isNaN = x.isNaN := by
  refine (isNaN_pack x.toModel.unpack.abs).trans ?_
  show _ = x.toModel.unpack.isNaN
  cases x.toModel.unpack <;> rfl

/-- Rounding yields a number. -/
theorem isNaN_normalize (m e : ℤ) (zeroSign : Sign) :
    (UnpackedFloat.normalize Format.binary64 m e zeroSign).isNaN = false := by
  have hround (s : Sign) (m : ℕ) : (UnpackedFloat.round Format.binary64 s m e).isNaN = false := by
    simp only [UnpackedFloat.round, UnpackedFloat.roundWithAccuracy]
    split_ifs <;> rfl
  unfold UnpackedFloat.normalize
  split
  · exact hround ..
  · rfl
  · exact hround ..

/-- **A difference is a number** if both sides are and one of them is finite, also when it
overflows. -/
theorem isNaN_sub {x y : Float} (hx : x.isNaN = false) (hy : y.isNaN = false)
    (h : x.isFinite = true ∨ y.isFinite = true) : (x - y).isNaN = false := by
  have hx : x.toModel.unpack.isNaN = false := hx
  have hy : y.toModel.unpack.isNaN = false := hy
  have h : x.toModel.unpack.isFinite = true ∨ y.toModel.unpack.isFinite = true := h
  refine (isNaN_pack (UnpackedFloat.sub Format.binary64 x.toModel.unpack y.toModel.unpack)).trans ?_
  generalize x.toModel.unpack = u at *
  generalize y.toModel.unpack = v at *
  cases u with
  | notANumber => cases hx
  | infinity s =>
    cases v with
    | notANumber => cases hy
    | infinity t => exact absurd h (by simp [UnpackedFloat.isFinite])
    | zero t => rfl
    | finite t m e hm => rfl
  | zero s =>
    cases v with
    | notANumber => cases hy
    | infinity t => rfl
    | zero t => cases s <;> cases t <;> rfl
    | finite t m e hm => rfl
  | finite s m e hm =>
    cases v with
    | notANumber => cases hy
    | infinity t => rfl
    | zero t => rfl
    | finite t m' e' hm' => exact isNaN_normalize ..

/-- A finite double is a number. -/
theorem isNaN_of_isFinite {x : Float} (h : x.isFinite = true) : x.isNaN = false :=
  (Decimal.isNaN_isInf_of_isFinite h).1

/-! ### Comparisons -/

/-- Any two numbers can be compared. -/
theorem isSome_compare (u v : UnpackedFloat) : (u.compare v).isSome = (!u.isNaN && !v.isNaN) := by
  cases u with
  | notANumber => cases v <;> rfl
  | infinity s => cases s <;> cases v <;> rfl
  | zero s =>
    cases v with
    | infinity t => cases t <;> rfl
    | finite t => cases t <;> rfl
    | notANumber | zero => rfl
  | finite s =>
    cases v with
    | infinity t => cases s <;> cases t <;> rfl
    | finite t => cases s <;> cases t <;> rfl
    | notANumber | zero => cases s <;> rfl

theorem swap_compare_then (e e' : ℤ) (m m' : ℕ) :
    ((compare e e').then (compare m m')).swap = (compare e' e).then (compare m' m) := by
  rw [Ordering.swap_then, ← Std.OrientedCmp.eq_swap, ← Std.OrientedCmp.eq_swap]

/-- A comparison the other way round has the opposite outcome. -/
theorem compare_swap (u v : UnpackedFloat) : v.compare u = (u.compare v).map Ordering.swap := by
  cases u with
  | notANumber =>
    cases v with
    | infinity t => cases t <;> rfl
    | finite t => cases t <;> rfl
    | notANumber | zero => rfl
  | infinity s =>
    cases v with
    | infinity t => cases s <;> cases t <;> rfl
    | finite t => cases s <;> cases t <;> rfl
    | notANumber | zero => cases s <;> rfl
  | zero s =>
    cases v with
    | infinity t => cases t <;> rfl
    | finite t => cases t <;> rfl
    | notANumber | zero => rfl
  | finite s m e hm =>
    cases v with
    | infinity t => cases s <;> cases t <;> rfl
    | finite t m' e' hm' =>
      -- only doubles of one sign are told apart by their parts
      cases s <;> cases t
      · simp [UnpackedFloat.compare, swap_compare_then]
      · rfl
      · rfl
      · simp [UnpackedFloat.compare, swap_compare_then]
    | notANumber | zero => cases s <;> rfl

theorem decide_lt_eq (x y : Float) :
    decide (x < y) = UnpackedFloat.lt x.toModel.unpack y.toModel.unpack := by
  rw [Bool.eq_iff_iff, decide_eq_true_iff]
  exact decide_eq_true_iff

theorem decide_le_eq (x y : Float) :
    decide (x ≤ y) = UnpackedFloat.le x.toModel.unpack y.toModel.unpack := by
  rw [Bool.eq_iff_iff, decide_eq_true_iff]
  exact decide_eq_true_iff

/-- **Of two numbers either the first is less or the second is not greater.** -/
theorem decide_le_eq_not_lt {x y : Float} (hx : x.isNaN = false) (hy : y.isNaN = false) :
    decide (y ≤ x) = !decide (x < y) := by
  have hx : x.toModel.unpack.isNaN = false := hx
  have hy : y.toModel.unpack.isNaN = false := hy
  obtain ⟨order, horder⟩ : ∃ order, x.toModel.unpack.compare y.toModel.unpack = some order := by
    rw [← Option.isSome_iff_exists, isSome_compare, hx, hy]
    rfl
  rw [decide_le_eq, decide_lt_eq, UnpackedFloat.le, UnpackedFloat.lt, compare_swap x.toModel.unpack,
    horder]
  cases order <;> rfl

theorem decide_lt_eq_not_le {x y : Float} (hx : x.isNaN = false) (hy : y.isNaN = false) :
    decide (x < y) = !decide (y ≤ x) := by
  rw [decide_le_eq_not_lt hx hy, Bool.not_not]

end BarReplay
