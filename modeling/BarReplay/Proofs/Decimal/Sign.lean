import BarReplay.Proofs.Decimal.Reading

/-!
# Signs

A finite double is below the last rung when its sign is left out (`isFinite_iff`). Negation sets the
sign of such a double and keeps its magnitude (`toBits_neg`), so every finite double with a sign is
the negation of one without (`exists_neg_eq`).
-/

open Float.Model Float.Model.UnpackedFloat

namespace BarReplay.Decimal

/-- A double is finite if its exponent is not the greatest one. -/
theorem isFinite_iff {x : Float} :
    x.isFinite = true ↔ x.toBits.toNat % 2 ^ 63 < topRung := by
  have hexponent := unpackExponent_eq_neg_one_iff x.toBits.toBitVec
  have htop : x.toBits.toNat % 2 ^ 63 < topRung ↔ x.toBits.toNat / 2 ^ 52 % 2 ^ 11 ≠ 2047 := by
    rw [topRung]
    omega
  rw [htop]
  show (UnpackedFloat.unpack Format.binary64 x.toBits.toBitVec).isFinite = true ↔ _
  rw [UnpackedFloat.unpack]
  split_ifs with hmax
  · exact iff_of_false Bool.false_ne_true fun h ↦ h (hexponent.1 hmax)
  · exact iff_of_false Bool.false_ne_true fun h ↦ h (hexponent.1 hmax)
  all_goals exact iff_of_true rfl fun h ↦ hmax (hexponent.2 h)

/-- A finite double is neither infinite nor no number. -/
theorem isNaN_isInf_of_isFinite {x : Float} (h : x.isFinite = true) :
    x.isNaN = false ∧ x.isInf = false := by
  have h : x.toModel.unpack.isFinite = true := h
  show x.toModel.unpack.isNaN = false ∧ x.toModel.unpack.isInf = false
  cases hx : x.toModel.unpack with
  | infinity s => rw [hx] at h; cases h
  | notANumber => rw [hx] at h; cases h
  | zero s => exact ⟨rfl, rfl⟩
  | finite s m e hm => exact ⟨rfl, rfl⟩

/-- A finite double without a sign is unpacked as zero or as a mantissa with its exponent. -/
theorem unpack_unsigned {x : Float} (hx : x.toBits.toNat < topRung) :
    x.toModel.unpack = .zero .positive ∨
      ∃ m e hm, x.toModel.unpack = .finite .positive m e hm := by
  rw [topRung] at hx
  have hsign := unpackSign_eq_zero (x := x) (by omega)
  have hmax : ¬ @unpackExponent Format.binary64 x.toBits.toBitVec = -1#11 := by
    rw [unpackExponent_eq_neg_one_iff]
    show ¬ x.toBits.toNat / 2 ^ 52 % 2 ^ 11 = 2047
    omega
  show UnpackedFloat.unpack Format.binary64 x.toBits.toBitVec = _ ∨
    ∃ m e hm, UnpackedFloat.unpack Format.binary64 x.toBits.toBitVec = .finite .positive m e hm
  rw [UnpackedFloat.unpack, if_neg hmax, hsign]
  have hhidden (m : BitVec 52) : 0 < (1#1 ++ m).toNat := by
    rw [BitVec.toNat_append, ← Nat.shiftLeft_add_eq_or_of_lt m.isLt, Nat.shiftLeft_eq]
    show 0 < 1 * 2 ^ 52 + m.toNat
    omega
  split_ifs with hmin hzero
  · exact .inl rfl
  · exact .inr ⟨_, _, BitVec.toNat_pos_of_ne_zero hzero, rfl⟩
  · exact .inr ⟨_, _, hhidden _, rfl⟩

/-- The sign is the first bit of a packed double. -/
theorem toNat_pack_negative (m : ℕ) (e : ℤ) (hm : 0 < m) :
    (UnpackedFloat.pack Format.binary64 (.finite .negative m e hm)).toNat =
      2 ^ 63 + (UnpackedFloat.pack Format.binary64 (.finite .positive m e hm)).toNat := by
  have hsign : ∀ (exponent : BitVec 11) (mantissa : BitVec 52),
      (packComponents Format.binary64 .negative exponent mantissa).toNat =
        2 ^ 63 + (packComponents Format.binary64 .positive exponent mantissa).toNat := by
    intro exponent mantissa
    rw [toNat_packComponents, toNat_packComponents]
    show 1 * 2 ^ 63 + _ + _ = 2 ^ 63 + (0 * 2 ^ 63 + _ + _)
    omega
  rw [UnpackedFloat.pack, UnpackedFloat.pack]
  simp only
  split_ifs
  · exact hsign _ _
  · exact hsign _ _
  · exact hsign _ _

/-- Negation sets the sign of a finite double. -/
theorem toBits_neg {x : Float} (hx : x.toBits.toNat < topRung) :
    (-x).toBits.toNat = 2 ^ 63 + x.toBits.toNat := by
  have hpack : UnpackedFloat.pack Format.binary64 x.toModel.unpack = x.toBits.toBitVec :=
    pack_unpack_of_valid x.toModel.valid
  show (UnpackedFloat.pack Format.binary64 x.toModel.unpack.neg).toNat =
    2 ^ 63 + x.toBits.toBitVec.toNat
  -- both sides are packed from the same parts, and packing looks at the sign last
  rw [← hpack]
  rcases unpack_unsigned hx with hzero | ⟨m, e, hm, hfinite⟩
  · rw [hzero]
    decide
  · rw [hfinite]
    exact toNat_pack_negative m e hm

/-- A finite double with a sign is the negation of one without. -/
theorem exists_neg_eq {x : Float} (hx : x.isFinite = true) (hsign : isNegative x = true) :
    ∃ y : Float, -y = x ∧ y.toBits.toNat = x.toBits.toNat % 2 ^ 63 := by
  have hlow : x.toBits.toNat % 2 ^ 63 < topRung := isFinite_iff.1 hx
  obtain ⟨y, hy⟩ := exists_float hlow.le
  refine ⟨y, float_ext ?_, hy⟩
  have hneg := toBits_neg (x := y) (by omega)
  have hbit : x.toBits.toNat / 2 ^ 63 = 1 := by
    have hbeq : (x.toBits.toNat / 2 ^ 63 == 1) = true := hsign
    simpa using hbeq
  omega

end BarReplay.Decimal
