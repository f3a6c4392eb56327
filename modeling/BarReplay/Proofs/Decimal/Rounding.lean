import BarReplay.Proofs.Decimal.Nearest

/-!
# Rounding

The arithmetic of doubles is exact up to one last step, which rounds. What it rounds is an extended
mantissa: the whole part of a number, the first bit after it, and whether there is anything behind
that bit. `Stands` says what number that is, or rather between which bounds it lies; a shift to the
right keeps this. The rounded mantissa is then the whole number nearest to it (`RoundsTo`), and what
is packed is the nearest rung (`isNearestRung_round`).
-/

open Float.Model Float.Model.UnpackedFloat

namespace BarReplay.Decimal

/-! ### Extended mantissas -/

/-- The extended mantissa is what is left of the number `x` when all behind its first binary place
is replaced by one bit. -/
structure Stands (em : ExtendedMantissa) (x : ℚ) : Prop where
  lower : 2 * em.mantissa + em.roundBit.toNat ≤ 2 * x
  upper : 2 * x < 2 * em.mantissa + em.roundBit.toNat + 1
  sticky : em.stickyBit = true ↔ 2 * em.mantissa + em.roundBit.toNat < 2 * x

theorem Stands.shiftRightOne {em : ExtendedMantissa} {x : ℚ} (h : Stands em x) :
    Stands em.shiftRightOne (x / 2) := by
  obtain ⟨m, round, sticky⟩ := em
  obtain ⟨hlower, hupper, hsticky⟩ := h
  -- the mantissa and the new bit after it are the old mantissa
  have hbit : 2 * (m / 2) + (m % 2 != 0).toNat = m := by
    rcases Nat.mod_two_eq_zero_or_one m with h | h <;> simp [h] <;> omega
  have hwhole : 2 * ((m / 2 : ℕ) : ℚ) + ((m % 2 != 0).toNat : ℕ) = m := by exact_mod_cast hbit
  have hdouble : 2 * (x / 2) = x := by ring
  rcases round with - | - <;> simp only [Bool.toNat_false, Bool.toNat_true, Nat.cast_zero,
    Nat.cast_one, add_zero] at hlower hupper hsticky
  all_goals
    refine ⟨?_, ?_, ?_⟩ <;>
      simp only [ExtendedMantissa.shiftRightOne, hwhole, hdouble, Bool.false_or, Bool.true_or,
        true_iff]
  · linarith
  · linarith
  · rw [hsticky]
    exact ⟨fun h ↦ by linarith, fun h ↦ by linarith⟩
  · linarith
  · linarith
  · linarith

theorem mantissa_shiftRight (em : ExtendedMantissa) (s : ℕ) :
    (em >>> s).mantissa = em.mantissa / 2 ^ s := by
  induction s with
  | zero => exact (Nat.div_one _).symm
  | succ s ih =>
    show (em >>> s).mantissa / 2 = _
    rw [ih, Nat.div_div_eq_div_mul, Nat.pow_succ]

theorem Stands.shiftRight {em : ExtendedMantissa} {x : ℚ} (h : Stands em x) (s : ℕ) :
    Stands (em >>> s) (x / 2 ^ s) := by
  induction s with
  | zero =>
    rw [pow_zero, div_one]
    exact h
  | succ s ih =>
    rw [pow_succ, ← div_div]
    exact ih.shiftRightOne

/-- The whole number `r` is nearest to `x`, and the even one if `x` lies in the middle between two;
`c` is the whole part of `x`. -/
def RoundsTo (x : ℚ) (c r : ℕ) : Prop :=
  r = c ∧ (2 * x < 2 * c + 1 ∨ 2 * x = 2 * c + 1 ∧ c % 2 = 0) ∨
    r = c + 1 ∧ (2 * c + 1 < 2 * x ∨ 2 * x = 2 * c + 1 ∧ c % 2 = 1)

theorem Stands.rounds {em : ExtendedMantissa} {x : ℚ} (h : Stands em x) :
    RoundsTo x em.mantissa em.roundedMantissa := by
  obtain ⟨m, round, sticky⟩ := em
  obtain ⟨hlower, hupper, hsticky⟩ := h
  rcases round with - | - <;> simp only [Bool.toNat_false, Bool.toNat_true, Nat.cast_zero,
    Nat.cast_one, add_zero] at hlower hupper hsticky
  · have hround : (ExtendedMantissa.mk m false sticky).roundedMantissa = m := by
      cases sticky <;> rfl
    exact .inl ⟨hround, .inl hupper⟩
  · rcases sticky with - | -
    · have hmiddle : 2 * x = 2 * m + 1 :=
        le_antisymm (not_lt.1 fun h ↦ Bool.false_ne_true (hsticky.2 h)) hlower
      have hround : (ExtendedMantissa.mk m true false).roundedMantissa = m + m % 2 := rfl
      rcases Nat.mod_two_eq_zero_or_one m with heven | hodd
      · rw [heven] at hround
        exact .inl ⟨hround, .inr ⟨hmiddle, heven⟩⟩
      · rw [hodd] at hround
        exact .inr ⟨hround, .inr ⟨hmiddle, hodd⟩⟩
    · exact .inr ⟨rfl, .inl (hsticky.1 rfl)⟩

/-! ### Packing -/

theorem toNat_packComponents (s : Sign) (e : BitVec 11) (m : BitVec 52) :
    (packComponents Format.binary64 s e m).toNat =
      s.toBitVec.toNat * 2 ^ 63 + e.toNat * 2 ^ 52 + m.toNat := by
  have he : e.toNat < 2 ^ 11 := e.isLt
  have hm : m.toNat < 2 ^ 52 := m.isLt
  rw [packComponents, BitVec.toNat_append, BitVec.toNat_append, ← Nat.shiftLeft_add_eq_or_of_lt hm,
    ← Nat.shiftLeft_add_eq_or_of_lt he, Nat.shiftLeft_eq, Nat.shiftLeft_eq]
  show (s.toBitVec.toNat * 2 ^ 11 + e.toNat) * 2 ^ 52 + m.toNat = _
  ring

theorem toNat_packedInfinity : (packedInfinity Format.binary64 .positive).toNat = topRung :=
  rfl

theorem toNat_pack_finite {m : ℕ} {k : ℕ} (hm : m < 2 ^ 53) (hk : k = 0 ∨ 2 ^ 52 ≤ m)
    (hpos : 0 < m) :
    (UnpackedFloat.pack Format.binary64 (.finite .positive m (k - 1074) hpos)).toNat =
      min (k * 2 ^ 52 + m) topRung := by
  have hbiased :
      ((k - 1074 : ℤ) + Format.exponentBias Format.binary64 + (52 : ℕ)).toNat = k + 1 := by
    rw [show Format.exponentBias Format.binary64 = 1023 from rfl]
    omega
  have hlog : m.log2 + 1 = Format.mantissaBits Format.binary64 ↔ 2 ^ 52 ≤ m := by
    show m.log2 + 1 = 53 ↔ _
    rw [Nat.add_right_cancel_iff (m := m.log2) (k := 52), Nat.log2_eq_iff hpos.ne']
    omega
  rw [UnpackedFloat.pack, topRung]
  simp only [hbiased]
  split_ifs with hlarge hnormal
  · have hlarge : 2 ^ 11 ≤ k + 1 + 1 := hlarge
    rw [toNat_packedInfinity, topRung]
    omega
  · have hsmall : ¬ 2 ^ 11 ≤ k + 1 + 1 := hlarge
    have hm' : 2 ^ 52 ≤ m := hlog.1 hnormal
    rw [toNat_packComponents, BitVec.toNat_ofNat, BitVec.toNat_ofNat]
    show 0 * 2 ^ 63 + (k + 1) % 2 ^ 11 * 2 ^ 52 + m % 2 ^ 52 = _
    omega
  · have hm' : ¬ 2 ^ 52 ≤ m := fun h ↦ hnormal (hlog.2 h)
    rw [toNat_packComponents, BitVec.toNat_ofNat]
    show 0 * 2 ^ 63 + 0 * 2 ^ 52 + m % 2 ^ 52 = _
    omega
/-- What is rounded to a whole number of units of its level is nearest to the rung of that level
and number, or to the last rung if there is none so high. -/
theorem isNearestRung_of_roundsTo {q x : ℚ} {k c r : ℕ} (hq : q = x * 2 ^ (k - 1074 : ℤ))
    (hk : k = 0 ∨ 2 ^ 52 ≤ c) (hc : c < 2 ^ 53) (hlow : c ≤ x) (hhigh : x < c + 1)
    (hr : RoundsTo x c r) : IsNearestRung q (min (k * 2 ^ 52 + r) topRung) := by
  have hunit : (0 : ℚ) < 2 ^ (k - 1074 : ℤ) := by positivity
  have hrung : rung (k * 2 ^ 52 + c) = c * 2 ^ (k - 1074 : ℤ) := rung_eq hk hc.le
  have hnext : rung (k * 2 ^ 52 + c + 1) = (c + 1) * 2 ^ (k - 1074 : ℤ) := by
    rw [Nat.add_assoc, rung_eq (by omega) hc]
    push_cast
    rfl
  have hmidpoint : rung (k * 2 ^ 52 + c) + rung (k * 2 ^ 52 + c + 1) =
      (2 * c + 1) * 2 ^ (k - 1074 : ℤ) := by
    rw [hrung, hnext]
    ring
  have htwice : 2 * q = 2 * x * 2 ^ (k - 1074 : ℤ) := by rw [hq, mul_assoc]
  have hparity : (k * 2 ^ 52 + c) % 2 = c % 2 := by omega
  have hnextParity : (k * 2 ^ 52 + c + 1) % 2 = (c + 1) % 2 := by
    rw [Nat.add_mod, hparity, ← Nat.add_mod]
  refine isNearestRung_of_neighbours (n := k * 2 ^ 52 + c) ?_ ?_ ?_
  · rw [hrung, hq]
    exact mul_le_mul_of_nonneg_right hlow hunit.le
  · rw [hnext, hq]
    exact mul_lt_mul_of_pos_right hhigh hunit
  · rcases hr with ⟨rfl, hbelow⟩ | ⟨rfl, habove⟩
    · refine .inl ⟨rfl, ?_⟩
      rw [BelowMidpoint, hmidpoint, htwice, hparity]
      rcases hbelow with hlt | ⟨heq, heven⟩
      · exact .inl (mul_lt_mul_of_pos_right hlt hunit)
      · exact .inr ⟨by rw [heq], heven⟩
    · refine .inr ⟨(Nat.add_assoc _ _ _).symm, fun m hm ↦ ?_⟩
      obtain rfl : m = k * 2 ^ 52 + c := by omega
      rw [hmidpoint, htwice, hnextParity]
      rcases habove with hlt | ⟨heq, hodd⟩
      · exact .inl (mul_lt_mul_of_pos_right hlt hunit)
      · exact .inr ⟨by rw [heq], by omega⟩

/-! ### The last step of an operation -/

/-- The exponent that a number with the given mantissa and exponent has after rounding. -/
theorem targetExponent_eq (m : ℕ) (e : ℤ) :
    Format.binary64.targetExponent (totalExponent m e) = max (m.log2 + e - 52) (-1074) := by
  show max ((m.log2 : ℤ) + 1 + e - 53) (-1074) = _
  congr 1
  ring

/-- The double with the given mantissa and exponent, or zero. -/
def settled (last : ExtendedMantissa × ℤ) : UnpackedFloat :=
  if h : last.1.mantissa = 0 then .zero .positive
  else .finite .positive last.1.mantissa last.2 (Nat.pos_of_ne_zero h)

/-- Once the mantissa is rounded, a second shift takes care of the one case in which it has got a
bit too many. -/
theorem toNat_pack_settled {k r : ℕ} (hk : k = 0 ∨ 2 ^ 52 ≤ r) (hr : r ≤ 2 ^ 53) :
    (UnpackedFloat.pack Format.binary64
      (settled (shiftToTargetExponent Format.binary64 r (k - 1074) .exact))).toNat =
      min (k * 2 ^ 52 + r) topRung := by
  rcases Nat.lt_or_eq_of_le hr with hlt | rfl
  · have hshift : shiftToTargetExponent Format.binary64 r (k - 1074) .exact =
        ((⟨r, false, false⟩, k - 1074) : ExtendedMantissa × ℤ) := by
      have hlog : r.log2 ≤ 52 := by
        rcases Nat.eq_zero_or_pos r with rfl | hpos
        · decide
        · exact Nat.le_of_lt_succ ((Nat.log2_lt hpos.ne').2 hlt)
      have hamount : (max ((r.log2 : ℤ) + (k - 1074) - 52) (-1074) - (k - 1074)).toNat = 0 := by
        omega
      rw [shiftToTargetExponent, targetExponent_eq, shiftToExponent, hamount]
      simp only [Nat.cast_zero, add_zero]
      rfl
    rw [hshift]
    rcases Nat.eq_zero_or_pos r with rfl | hpos
    · obtain rfl : k = 0 := by omega
      rfl
    · rw [settled, dif_neg hpos.ne']
      exact toNat_pack_finite hlt hk hpos
  · have hshift : shiftToTargetExponent Format.binary64 (2 ^ 53) (k - 1074) .exact =
        ((⟨2 ^ 52, false, false⟩, (k + 1 : ℕ) - 1074) : ExtendedMantissa × ℤ) := by
      have hamount : (max (((2 ^ 53 : ℕ).log2 : ℤ) + (k - 1074) - 52) (-1074) -
          (k - 1074)).toNat = 1 := by
        rw [Nat.log2_two_pow]
        omega
      rw [shiftToTargetExponent, targetExponent_eq, shiftToExponent, hamount]
      refine Prod.ext rfl ?_
      show (k - 1074 : ℤ) + (1 : ℕ) = (k + 1 : ℕ) - 1074
      push_cast
      ring
    rw [hshift]
    have hpack := toNat_pack_finite (m := 2 ^ 52) (k := k + 1) (by omega) (.inr le_rfl) (by omega)
    have hrung : (k + 1) * 2 ^ 52 + 2 ^ 52 = k * 2 ^ 52 + 2 ^ 53 := by omega
    rw [hrung] at hpack
    exact hpack

theorem mantissa_ofMantissaAndAccuracy (m : ℕ) (accuracy : Accuracy) :
    (ExtendedMantissa.ofMantissaAndAccuracy m accuracy).mantissa = m := by
  rcases accuracy with - | o
  · rfl
  · cases o <;> rfl

theorem stands_exact (m : ℕ) : Stands (.ofMantissaAndAccuracy m .exact) m := by
  refine ⟨?_, ?_, ?_⟩ <;> simp [ExtendedMantissa.ofMantissaAndAccuracy]

/-- The first shift leaves a mantissa of as many bits as there is room for, and a number that is not
too small leaves no room. -/
theorem shifted_mantissa_bounds {m s : ℕ} (hs : m.log2 ≤ 52 + s) :
    m / 2 ^ s < 2 ^ 53 ∧ (m.log2 = 52 + s → 2 ^ 52 ≤ m / 2 ^ s) := by
  constructor
  · rw [Nat.div_lt_iff_lt_mul (Nat.two_pow_pos s), ← Nat.pow_add]
    calc m < 2 ^ (m.log2 + 1) := Nat.lt_log2_self
      _ ≤ 2 ^ (53 + s) := Nat.pow_le_pow_right (by decide) (by omega)
  · intro hlog
    have hm : m ≠ 0 := by
      rintro rfl
      rw [Nat.log2_zero] at hlog
      omega
    rw [Nat.le_div_iff_mul_le (Nat.two_pow_pos s), ← Nat.pow_add, ← hlog]
    exact Nat.log2_self_le hm

/-- **What an operation packs is nearest to its exact result**, if it comes to the last step with
bits to spare. -/
theorem isNearestRung_round {m : ℕ} {e : ℤ} {accuracy : Accuracy} {x : ℚ}
    (hx : Stands (.ofMantissaAndAccuracy m accuracy) x)
    (he : e ≤ max (m.log2 + e - 52) (-1074)) :
    IsNearestRung (x * 2 ^ e) (UnpackedFloat.pack Format.binary64
      (roundWithAccuracy Format.binary64 .positive m e accuracy)).toNat := by
  obtain ⟨k, hk⟩ : ∃ k : ℕ, max ((m.log2 : ℤ) + e - 52) (-1074) = k - 1074 :=
    ⟨(max ((m.log2 : ℤ) + e - 52) (-1074) + 1074).toNat, by omega⟩
  obtain ⟨s, hs⟩ : ∃ s : ℕ, (k - 1074 : ℤ) = e + s := ⟨(k - 1074 - e : ℤ).toNat, by omega⟩
  have hfirst : shiftToTargetExponent Format.binary64 m e accuracy =
      ((ExtendedMantissa.ofMantissaAndAccuracy m accuracy) >>> s, (k - 1074 : ℤ)) := by
    have hamount : (k - 1074 - e : ℤ).toNat = s := by omega
    rw [shiftToTargetExponent, targetExponent_eq, shiftToExponent, hk, hamount, hs]
  have hstands := hx.shiftRight s
  generalize hem : (ExtendedMantissa.ofMantissaAndAccuracy m accuracy) >>> s = em at *
  have hmantissa : em.mantissa = m / 2 ^ s := by
    rw [← hem, mantissa_shiftRight, mantissa_ofMantissaAndAccuracy]
  obtain ⟨hroom, hfull⟩ := shifted_mantissa_bounds (m := m) (s := s) (by omega)
  rw [← hmantissa] at hroom hfull
  have hlevel : k = 0 ∨ 2 ^ 52 ≤ em.mantissa := by
    rcases Nat.eq_zero_or_pos k with hzero | hpos
    · exact .inl hzero
    · exact .inr (hfull (by omega))
  have hrounds : RoundsTo (x / 2 ^ s) em.mantissa em.roundedMantissa := hstands.rounds
  have hbounds : em.mantissa ≤ em.roundedMantissa ∧ em.roundedMantissa ≤ em.mantissa + 1 := by
    rcases hrounds with ⟨h, -⟩ | ⟨h, -⟩ <;> omega
  have hbit : (em.roundBit.toNat : ℚ) ≤ 1 := by exact_mod_cast Bool.toNat_le _
  have hpack := toNat_pack_settled (k := k) (r := em.roundedMantissa) (by omega) (by omega)
  have hround : roundWithAccuracy Format.binary64 .positive m e accuracy =
      settled (shiftToTargetExponent Format.binary64 em.roundedMantissa (k - 1074) .exact) := by
    rw [roundWithAccuracy, hfirst]
    rfl
  rw [hround, hpack]
  refine isNearestRung_of_roundsTo (x := x / 2 ^ s) ?_ hlevel hroom ?_ ?_ hrounds
  · rw [hs, zpow_add₀ two_ne_zero, zpow_natCast]
    field_simp
  · have hlower := hstands.lower
    have hpos : (0 : ℚ) ≤ em.roundBit.toNat := Nat.cast_nonneg _
    linarith
  · have hupper := hstands.upper
    linarith

end BarReplay.Decimal
