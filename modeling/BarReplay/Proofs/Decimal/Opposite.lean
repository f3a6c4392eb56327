import BarReplay.Proofs.Decimal.Arithmetic

/-!
# Opposites

Taking the opposite of a double changes the sign bit and nothing else (`toBits_opposite`), so every
number is a double without a sign or the opposite of one (`isUnsigned_or_opposite`). What is known
of doubles without a sign is carried over to all numbers by this: each has an amount, which is the
magnitude with the sign (`amount`), and numbers compare as their amounts do (`le_iff_amount`,
`lt_iff_amount`, `beq_iff_amount`). The order is transitive (`float_le_trans`) although it is not
reflexive, as what can be compared is a number (`isNaN_of_le`).
-/

open Float.Model Float.Model.UnpackedFloat

namespace BarReplay.Decimal

/-! ### Bits -/

theorem toNat_pack_opposite {u : UnpackedFloat} (hu : u.isNaN = false) :
    (UnpackedFloat.pack Format.binary64 u.neg).toNat =
      ((UnpackedFloat.pack Format.binary64 u).toNat + 2 ^ 63) % 2 ^ 64 := by
  cases u with
  | notANumber => cases hu
  | infinity s => cases s <;> rfl
  | zero s => cases s <;> rfl
  | finite s m e hm =>
    have hsign := toNat_pack_negative m e hm
    have hlt : (UnpackedFloat.pack Format.binary64 (.finite .negative m e hm)).toNat < 2 ^ 64 :=
      BitVec.isLt _
    cases s with
    | positive =>
      show (UnpackedFloat.pack Format.binary64 (.finite .negative m e hm)).toNat = _
      omega
    | negative =>
      show (UnpackedFloat.pack Format.binary64 (.finite .positive m e hm)).toNat = _
      omega

/-- A double is packed from what it is unpacked as. -/
theorem pack_unpack (x : Float) :
    UnpackedFloat.pack Format.binary64 x.toModel.unpack = x.toBits.toBitVec :=
  pack_unpack_of_valid x.toModel.valid

theorem ofModel_pack_unpack (x : Float) :
    Float.ofModel (Float.Model.pack x.toModel.unpack) = x :=
  float_ext (congrArg BitVec.toNat (pack_unpack x))

/-- An operation whose unpacked result is that of a double yields this double. -/
theorem ofModel_pack_of_eq {u : UnpackedFloat} {x : Float} (h : u = x.toModel.unpack) :
    Float.ofModel (Float.Model.pack u) = x :=
  h ▸ ofModel_pack_unpack x

theorem toBits_opposite {x : Float} (hx : x.isNaN = false) :
    (-x).toBits.toNat = (x.toBits.toNat + 2 ^ 63) % 2 ^ 64 := by
  show (UnpackedFloat.pack Format.binary64 x.toModel.unpack.neg).toNat =
    (x.toBits.toBitVec.toNat + 2 ^ 63) % 2 ^ 64
  rw [toNat_pack_opposite hx, pack_unpack]

theorem eq_notANumber {u : UnpackedFloat} (h : u.isNaN = true) : u = .notANumber := by
  cases u with
  | notANumber => rfl
  | infinity | zero | finite => cases h

/-- The double that is no number has no opposite but itself. -/
theorem opposite_of_isNaN {x : Float} (hx : x.isNaN = true) : -x = x := by
  have hneg : x.toModel.unpack.neg = x.toModel.unpack := by
    rw [eq_notANumber (u := x.toModel.unpack) hx]
    rfl
  show Float.ofModel (Float.Model.pack x.toModel.unpack.neg) = x
  rw [hneg, ofModel_pack_unpack]

theorem opposite_opposite (x : Float) : -(-x) = x := by
  cases hx : x.isNaN with
  | true => rw [opposite_of_isNaN hx, opposite_of_isNaN hx]
  | false =>
    have hbits : x.toBits.toNat < 2 ^ 64 := x.toBits.toNat_lt
    apply float_ext
    rw [toBits_opposite ((isNaN_neg x).trans hx), toBits_opposite hx]
    omega

/-- A number has no sign, or its opposite has none. -/
theorem isUnsigned_or_opposite {x : Float} (hx : x.isNaN = false) :
    IsUnsigned x ∨ IsUnsigned (-x) := by
  cases hsign : isNegative x with
  | false => exact .inl ⟨hsign, hx⟩
  | true =>
    have hbit : x.toBits.toNat / 2 ^ 63 = 1 := eq_of_beq hsign
    refine .inr ⟨?_, (isNaN_neg x).trans hx⟩
    show ((-x).toBits.toNat / 2 ^ 63 == 1) = false
    rw [toBits_opposite hx, beq_eq_false_iff_ne]
    omega

theorem unpack_opposite (x : Float) : (-x).toModel.unpack = x.toModel.unpack.neg := by
  have hinvolutive (u : UnpackedFloat) : u.neg.neg = u := by
    cases u with
    | notANumber => rfl
    | infinity s | zero s => cases s <;> rfl
    | finite s => cases s <;> rfl
  cases hx : x.isNaN with
  | true =>
    rw [opposite_of_isNaN hx, eq_notANumber (u := x.toModel.unpack) hx]
    rfl
  | false =>
    have hbits := toBits_opposite hx
    -- bits below `2 ^ 63` determine what they become with the sign; a sign is removed by going back
    rcases isUnsigned_or_opposite hx with h | h
    · have hle := isUnsigned_iff.1 h
      rw [topRung] at hle
      exact unpack_of_toNat_eq (hbits.trans (by
        show _ = 2 ^ 63 + x.toBits.toNat
        omega))
    · have hle := isUnsigned_iff.1 h
      rw [topRung] at hle
      have hback := unpack_of_toNat_eq (b := x.toBits.toBitVec) (c := (-x).toBits.toBitVec) (by
        show x.toBits.toNat = 2 ^ 63 + (-x).toBits.toNat
        have := x.toBits.toNat_lt
        omega)
      exact (hinvolutive _).symm.trans (congrArg UnpackedFloat.neg hback.symm)

/-- The opposite of what is packed is packed from the opposite. -/
theorem opposite_pack (u : UnpackedFloat) :
    -Float.ofModel (Float.Model.pack u) = Float.ofModel (Float.Model.pack u.neg) := by
  have hu := isNaN_pack u
  cases hnumber : u.isNaN with
  | true =>
    obtain rfl := eq_notANumber hnumber
    exact opposite_of_isNaN (hu.trans hnumber)
  | false =>
    exact float_ext ((toBits_opposite (hu.trans hnumber)).trans (toNat_pack_opposite hnumber).symm)

/-! ### Amounts -/

/-- The exact value of a double, its sign included; infinities count as `2 ^ 1024` and its
opposite. -/
def amount (x : Float) : ℚ :=
  if isNegative x then -magnitude x else magnitude x

theorem IsUnsigned.amount_eq {x : Float} (hx : IsUnsigned x) : amount x = magnitude x := by
  rw [amount, hx.sign, if_neg Bool.false_ne_true]

theorem amount_opposite {x : Float} (hx : x.isNaN = false) : amount (-x) = -amount x := by
  have hbits := toBits_opposite hx
  have hlt : x.toBits.toNat < 2 ^ 64 := x.toBits.toNat_lt
  have hmagnitude : magnitude (-x) = magnitude x := by
    have hmod : (-x).toBits.toNat % 2 ^ 63 = x.toBits.toNat % 2 ^ 63 := by omega
    rw [magnitude, magnitude, ofFloat_eq_ofRung, ofFloat_eq_ofRung, hmod]
  have hsign : isNegative (-x) = !isNegative x := by
    show ((-x).toBits.toNat / 2 ^ 63 == 1) = !(x.toBits.toNat / 2 ^ 63 == 1)
    rw [Bool.eq_iff_iff, beq_iff_eq, Bool.not_eq_true', beq_eq_false_iff_ne, hbits]
    omega
  rw [amount, amount, hsign, hmagnitude]
  cases isNegative x <;> simp

/-! ### Order -/

/-- Opposites compare the other way round. -/
theorem le_unpack_neg (u v : UnpackedFloat) :
    UnpackedFloat.le u.neg v.neg = UnpackedFloat.le v u := by
  cases u with
  | notANumber => cases v <;> rfl
  | infinity s => cases v with
    | infinity t => cases s <;> cases t <;> rfl
    | finite t => cases s <;> cases t <;> rfl
    | notANumber | zero => cases s <;> rfl
  | zero s => cases v with
    | infinity t => cases t <;> rfl
    | finite t => cases t <;> rfl
    | notANumber | zero => rfl
  | finite s m e hm => cases v with
    | infinity t => cases s <;> cases t <;> rfl
    | finite t m' e' hm' =>
      cases s <;> cases t
      · simp [UnpackedFloat.le, UnpackedFloat.neg, UnpackedFloat.compare, swap_compare_then]
      · rfl
      · rfl
      · simp [UnpackedFloat.le, UnpackedFloat.neg, UnpackedFloat.compare, swap_compare_then]
    | notANumber | zero => cases s <;> rfl

theorem opposite_le_opposite_iff {x y : Float} : -x ≤ -y ↔ y ≤ x := by
  rw [← decide_eq_true_iff (p := -x ≤ -y), ← decide_eq_true_iff (p := y ≤ x), decide_le_eq,
    decide_le_eq, unpack_opposite, unpack_opposite, le_unpack_neg]

/-- What can be compared is a number. -/
theorem isNaN_of_le {x y : Float} (h : x ≤ y) : x.isNaN = false ∧ y.isNaN = false := by
  have hle : UnpackedFloat.le x.toModel.unpack y.toModel.unpack = true :=
    (decide_le_eq x y).symm.trans (decide_eq_true h)
  have hsome : (x.toModel.unpack.compare y.toModel.unpack).isSome = true := by
    rw [UnpackedFloat.le] at hle
    cases horder : x.toModel.unpack.compare y.toModel.unpack with
    | none => rw [horder] at hle; cases hle
    | some order => rfl
  rw [isSome_compare, Bool.and_eq_true, Bool.not_eq_true', Bool.not_eq_true'] at hsome
  exact hsome

theorem IsUnsigned.opposite_le {x y : Float} (hx : IsUnsigned x) (hy : IsUnsigned y) : -x ≤ y := by
  rw [← decide_eq_true_iff (p := -x ≤ y), decide_le_eq, unpack_opposite]
  cases hx.shape with
  | zero hunpack =>
    rw [hunpack]
    cases hy.shape with
    | zero hunpack' | finite _ _ _ hunpack' | infinity hunpack' => rw [hunpack']; rfl
  | finite k r hpos hunpack =>
    rw [hunpack]
    cases hy.shape with
    | zero hunpack' | finite _ _ _ hunpack' | infinity hunpack' => rw [hunpack']; rfl
  | infinity hunpack =>
    rw [hunpack]
    cases hy.shape with
    | zero hunpack' | finite _ _ _ hunpack' | infinity hunpack' => rw [hunpack']; rfl

theorem IsUnsigned.amount_nonneg {x : Float} (hx : IsUnsigned x) : 0 ≤ amount x :=
  hx.amount_eq ▸ magnitude_nonneg x

theorem IsUnsigned.amount_eq_zero_iff {x : Float} (hx : IsUnsigned x) :
    amount x = 0 ↔ x.toBits.toNat = 0 := by
  rw [hx.amount_eq, hx.magnitude_eq, ← rung_zero, rung_strictMono.injective.eq_iff]

/-- Above or below zero there is no number without a sign and opposite to one. -/
theorem IsUnsigned.le_opposite_iff {x y : Float} (hx : IsUnsigned x) (hy : IsUnsigned y) :
    x ≤ -y ↔ amount x = 0 ∧ amount y = 0 := by
  rw [← decide_eq_true_iff (p := x ≤ -y), decide_le_eq, unpack_opposite, hx.amount_eq_zero_iff,
    hy.amount_eq_zero_iff]
  -- of the nine pairs of shapes only the two zeros compare
  cases hx.shape with
  | zero hunpack hbits =>
    rw [hunpack]
    cases hy.shape with
    | zero hunpack' hbits' =>
      rw [hunpack']
      exact iff_of_true rfl ⟨hbits, hbits'⟩
    | finite k r hpos hunpack' hbits' =>
      rw [hunpack']
      exact iff_of_false Bool.false_ne_true (by omega)
    | infinity hunpack' hbits' =>
      rw [hunpack', hbits', topRung]
      exact iff_of_false Bool.false_ne_true (by omega)
  | finite k r hpos hunpack hbits =>
    rw [hunpack]
    refine iff_of_false ?_ (by omega)
    cases hy.shape with
    | zero hunpack' | finite _ _ _ hunpack' | infinity hunpack' =>
      rw [hunpack']
      exact Bool.false_ne_true
  | infinity hunpack hbits =>
    rw [hunpack, hbits]
    refine iff_of_false ?_ (by rw [topRung]; omega)
    cases hy.shape with
    | zero hunpack' | finite _ _ _ hunpack' | infinity hunpack' =>
      rw [hunpack']
      exact Bool.false_ne_true

/-- **Numbers compare as their amounts.** -/
theorem le_iff_amount {x y : Float} (hx : x.isNaN = false) (hy : y.isNaN = false) :
    x ≤ y ↔ amount x ≤ amount y := by
  rcases isUnsigned_or_opposite hx with hx' | hx' <;>
    rcases isUnsigned_or_opposite hy with hy' | hy'
  · rw [hx'.le_iff hy', hx'.amount_eq, hy'.amount_eq]
  · -- with the signs the wrong way round only zeros compare
    have hxpos := hx'.amount_nonneg
    have hypos := hy'.amount_nonneg
    have hback := hx'.le_opposite_iff hy'
    rw [opposite_opposite] at hback
    rw [hback]
    rw [amount_opposite hy] at hypos ⊢
    constructor
    · rintro ⟨h, h'⟩
      linarith
    · intro h
      constructor <;> linarith
  · have hle := hx'.opposite_le hy'
    rw [opposite_opposite] at hle
    have hxpos := hx'.amount_nonneg
    have hypos := hy'.amount_nonneg
    rw [amount_opposite hx] at hxpos
    exact iff_of_true hle (by linarith)
  · have hle := hy'.le_iff hx'
    rw [opposite_le_opposite_iff] at hle
    rw [hle, ← hx'.amount_eq, ← hy'.amount_eq, amount_opposite hx, amount_opposite hy,
      neg_le_neg_iff]

theorem lt_iff_amount {x y : Float} (hx : x.isNaN = false) (hy : y.isNaN = false) :
    x < y ↔ amount x < amount y := by
  rw [← not_le, ← le_iff_amount hy hx, ← decide_eq_true_iff (p := x < y),
    decide_lt_eq_not_le hx hy, Bool.not_eq_true', decide_eq_false_iff_not]

theorem beq_iff_amount {x y : Float} (hx : x.isNaN = false) (hy : y.isNaN = false) :
    (x == y) = true ↔ amount x = amount y := by
  have hboth : amount x = amount y ↔ x ≤ y ∧ y ≤ x := by
    rw [le_antisymm_iff, le_iff_amount hx hy, le_iff_amount hy hx]
  rw [hboth, ← decide_eq_true_iff (p := x ≤ y), ← decide_eq_true_iff (p := y ≤ x), decide_le_eq,
    decide_le_eq]
  show UnpackedFloat.beq x.toModel.unpack y.toModel.unpack = true ↔ _
  rw [UnpackedFloat.beq, UnpackedFloat.le, UnpackedFloat.le, compare_swap x.toModel.unpack]
  cases x.toModel.unpack.compare y.toModel.unpack with
  | none => simp
  | some order => cases order <;> simp

theorem float_le_refl {x : Float} (hx : x.isNaN = false) : x ≤ x :=
  (le_iff_amount hx hx).2 le_rfl

theorem float_le_total {x y : Float} (hx : x.isNaN = false) (hy : y.isNaN = false) :
    x ≤ y ∨ y ≤ x := by
  rw [le_iff_amount hx hy, le_iff_amount hy hx]
  exact le_total _ _

theorem float_le_of_lt {x y : Float} (hx : x.isNaN = false) (hy : y.isNaN = false) (h : x < y) :
    x ≤ y :=
  (le_iff_amount hx hy).2 ((lt_iff_amount hx hy).1 h).le

theorem float_le_of_not_lt {x y : Float} (hx : x.isNaN = false) (hy : y.isNaN = false)
    (h : ¬ x < y) : y ≤ x := by
  rw [lt_iff_amount hx hy, not_lt] at h
  exact (le_iff_amount hy hx).2 h

theorem float_not_lt {x y : Float} (h : x ≤ y) : ¬ y < x := by
  obtain ⟨hx, hy⟩ := isNaN_of_le h
  rw [lt_iff_amount hy hx]
  exact ((le_iff_amount hx hy).1 h).not_gt

theorem float_lt_of_lt_of_le {x y z : Float} (hx : x.isNaN = false) (h : x < y) (h' : y ≤ z) :
    x < z := by
  obtain ⟨hy, hz⟩ := isNaN_of_le h'
  rw [lt_iff_amount hx hz]
  exact ((lt_iff_amount hx hy).1 h).trans_le ((le_iff_amount hy hz).1 h')

/-- The order of doubles is transitive, also where it is not reflexive. -/
theorem float_le_trans {x y z : Float} (h : x ≤ y) (h' : y ≤ z) : x ≤ z := by
  obtain ⟨hx, hy⟩ := isNaN_of_le h
  obtain ⟨-, hz⟩ := isNaN_of_le h'
  rw [le_iff_amount hx hz]
  exact ((le_iff_amount hx hy).1 h).trans ((le_iff_amount hy hz).1 h')

end BarReplay.Decimal
