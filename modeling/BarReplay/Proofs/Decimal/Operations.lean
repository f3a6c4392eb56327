import BarReplay.Proofs.Decimal.Rounding

/-!
# Products and quotients

A product or a quotient is rounded once, from a mantissa with bits to spare, so what is packed is
the rung nearest to the exact result. This does not need the factors to be doubles: a decimal
`m * 10 ^ e` is the product or the quotient of its coefficient and a power of ten, of any size
(`isNearestRung_ofScientific`).
-/

open Float.Model Float.Model.UnpackedFloat

namespace BarReplay.Decimal

variable {m₁ m₂ : ℕ} (h₁ : 0 < m₁) (h₂ : 0 < m₂)

/-! ### Products -/

/-- A product is nearest if it has as many bits as there is room for. -/
theorem isNearestRung_mul (e₁ e₂ : ℤ) (hbits : 52 ≤ (m₁ * m₂).log2) :
    IsNearestRung (m₁ * 2 ^ e₁ * (m₂ * 2 ^ e₂)) (UnpackedFloat.pack Format.binary64
      (UnpackedFloat.mul Format.binary64 (.finite .positive m₁ e₁ h₁)
        (.finite .positive m₂ e₂ h₂))).toNat := by
  have hround := isNearestRung_round (e := e₁ + e₂) (stands_exact (m₁ * m₂)) (by omega)
  have hvalue : (m₁ * 2 ^ e₁ * (m₂ * 2 ^ e₂) : ℚ) = (m₁ * m₂ : ℕ) * 2 ^ (e₁ + e₂) := by
    rw [zpow_add₀ two_ne_zero]
    push_cast
    ring
  rw [hvalue]
  exact hround

/-! ### Quotients -/

/-- What is left of a division says on which side of the next half the quotient lies. -/
theorem stands_div (a : ℕ) {b : ℕ} (hb : 0 < b) :
    Stands (.ofMantissaAndAccuracy (a / b) (accuracyOfFraction (a % b) b)) (a / b) := by
  have hb' : (0 : ℚ) < b := by exact_mod_cast hb
  have hquotient : (a / b : ℚ) = (a / b : ℕ) + (a % b : ℕ) / b := by
    rw [eq_comm, eq_div_iff hb'.ne', add_mul, div_mul_cancel₀ _ hb'.ne']
    exact_mod_cast Nat.div_add_mod' a b
  have hlt : ((a % b : ℕ) / b : ℚ) < 1 := by
    rw [div_lt_one hb']
    exact_mod_cast Nat.mod_lt a hb
  rw [hquotient]
  generalize a / b = c at *
  generalize a % b = d at *
  have htwice : 2 * (d / b : ℚ) = (2 * d : ℕ) / b := by
    push_cast
    ring
  unfold accuracyOfFraction
  split_ifs with hzero
  · subst hzero
    simpa using stands_exact c
  · have hpos : (0 : ℚ) < d / b := div_pos (by exact_mod_cast Nat.pos_of_ne_zero hzero) hb'
    rcases Nat.lt_trichotomy (2 * d) b with hless | hsame | hmore
    · have hhalf : 2 * (d / b : ℚ) < 1 := by
        rw [htwice, div_lt_one hb']
        exact_mod_cast hless
      rw [Nat.compare_eq_lt.2 hless]
      refine ⟨?_, ?_, ?_⟩ <;> simp [ExtendedMantissa.ofMantissaAndAccuracy] <;> linarith
    · have hhalf : 2 * (d / b : ℚ) = 1 := by
        rw [htwice, hsame, div_self hb'.ne']
      rw [Nat.compare_eq_eq.2 hsame]
      refine ⟨?_, ?_, ?_⟩ <;> simp [ExtendedMantissa.ofMantissaAndAccuracy] <;> linarith
    · have hhalf : 1 < 2 * (d / b : ℚ) := by
        rw [htwice, one_lt_div hb']
        exact_mod_cast hmore
      rw [Nat.compare_eq_gt.2 hmore]
      refine ⟨?_, ?_, ?_⟩ <;> simp [ExtendedMantissa.ofMantissaAndAccuracy] <;> linarith

include h₁ h₂ in
/-- The dividend is shifted far enough for the quotient to have all its bits. -/
theorem log2_quotient {s : ℕ} (h : 53 + m₂.log2 ≤ m₁.log2 + s) :
    52 ≤ (m₁ * 2 ^ s / m₂).log2 := by
  have hdividend : 2 ^ 52 * m₂ ≤ m₁ * 2 ^ s := by
    calc 2 ^ 52 * m₂ ≤ 2 ^ 52 * 2 ^ (m₂.log2 + 1) :=
          Nat.mul_le_mul_left _ Nat.lt_log2_self.le
      _ = 2 ^ (53 + m₂.log2) := by rw [← Nat.pow_add]; congr 1; omega
      _ ≤ 2 ^ (m₁.log2 + s) := Nat.pow_le_pow_right (by decide) h
      _ = 2 ^ m₁.log2 * 2 ^ s := Nat.pow_add _ _ _
      _ ≤ m₁ * 2 ^ s := Nat.mul_le_mul_right _ (Nat.log2_self_le h₁.ne')
  have hquotient : 2 ^ 52 ≤ m₁ * 2 ^ s / m₂ := (Nat.le_div_iff_mul_le h₂).2 hdividend
  exact (Nat.le_log2 (by omega)).2 hquotient

/-- A quotient is nearest. -/
theorem isNearestRung_div (e₁ e₂ : ℤ) :
    IsNearestRung (m₁ * 2 ^ e₁ / (m₂ * 2 ^ e₂)) (UnpackedFloat.pack Format.binary64
      (UnpackedFloat.div Format.binary64 (.finite .positive m₁ e₁ h₁)
        (.finite .positive m₂ e₂ h₂))).toNat := by
  obtain ⟨t, ht⟩ : ∃ t, min (e₁ - e₂)
      (max ((m₁.log2 + 1 + e₁ : ℤ) - (m₂.log2 + 1 + e₂) - 53) (-1074)) = t := ⟨_, rfl⟩
  obtain ⟨s, hs⟩ : ∃ s : ℕ, e₁ - e₂ = t + s := ⟨(e₁ - e₂ - t).toNat, by omega⟩
  have hcore : divCore Format.binary64 m₁ e₁ m₂ e₂ =
      (m₁ * 2 ^ s / m₂, t, accuracyOfFraction (m₁ * 2 ^ s % m₂) m₂) := by
    have htarget : min (e₁ - e₂) (Format.binary64.targetExponent
        (totalExponent m₁ e₁ - totalExponent m₂ e₂)) = t := ht
    have hamount : (e₁ - e₂ - t).toNat = s := by omega
    rw [divCore, htarget, hamount, Nat.shiftLeft_eq]
  have hbits : t ≤ max ((m₁ * 2 ^ s / m₂).log2 + t - 52) (-1074) := by
    rcases le_or_gt t (-1074) with hlow | hhigh
    · omega
    · have := log2_quotient h₁ h₂ (s := s) (by omega)
      omega
  have hround := isNearestRung_round (stands_div (m₁ * 2 ^ s) h₂) hbits
  have hvalue : (m₁ * 2 ^ e₁ / (m₂ * 2 ^ e₂) : ℚ) = (m₁ * 2 ^ s : ℕ) / m₂ * 2 ^ t := by
    have hexponent : e₁ = e₂ + (t + s) := by omega
    rw [hexponent, zpow_add₀ two_ne_zero, zpow_add₀ two_ne_zero, zpow_natCast]
    have hm₂ : (m₂ : ℚ) ≠ 0 := by exact_mod_cast h₂.ne'
    push_cast
    field_simp
  rw [hvalue, UnpackedFloat.div, hcore]
  exact hround

/-! ### Powers of ten -/

/-- A number from `2 ^ 1024` on is nearest to infinity. -/
theorem isNearestRung_infinite {q : ℚ} (h : 2 ^ 1024 ≤ q) : IsNearestRung q topRung :=
  isNearestRung_top (rung_top ▸ h)

/-- A number up to half of the least double is nearest to zero. -/
theorem isNearestRung_vanishing {q : ℚ} (hpos : 0 ≤ q) (h : q ≤ 2 ^ (-1075 : ℤ)) :
    IsNearestRung q 0 := by
  have hone : rung (0 + 1) = 2 ^ (-1074 : ℤ) := by
    have h := rung_eq (k := 0) (r := 1) (.inl rfl) (by omega)
    simpa using h
  have hhalf : (2 : ℚ) ^ (-1074 : ℤ) = 2 * 2 ^ (-1075 : ℤ) := by
    rw [← zpow_one_add₀ two_ne_zero]
    norm_num
  refine isNearestRung_lower (Nat.zero_le _) (rung_zero.trans_le hpos) ?_
  rcases h.lt_or_eq with h | h
  · left
    rw [rung_zero, hone, hhalf]
    linarith
  · -- in the middle, and zero is the even one of the two
    refine .inr ⟨?_, rfl⟩
    rw [rung_zero, hone, hhalf, h]
    ring

/-- A decimal with so large an exponent is beyond all doubles. -/
theorem le_decimal {m : ℕ} {e : ℤ} (hm : 0 < m) (he : 2 ^ 11 < e) :
    (2 : ℚ) ^ 1024 ≤ m * 10 ^ e := by
  have hm' : (1 : ℚ) ≤ m := by exact_mod_cast hm
  calc (2 : ℚ) ^ 1024 ≤ 10 ^ 1024 := pow_le_pow_left₀ (by norm_num) (by norm_num) _
    _ = 10 ^ ((1024 : ℕ) : ℤ) := (zpow_natCast _ _).symm
    _ ≤ 10 ^ e := zpow_le_zpow_right₀ (by norm_num) (by omega)
    _ ≤ m * 10 ^ e := le_mul_of_one_le_left (by positivity) hm'

/-- A decimal with so small an exponent is below half of the least double. -/
theorem decimal_lt {m : ℕ} {e : ℤ} (he : e < -(2 ^ 11 + m.log2)) :
    (m * 10 ^ e : ℚ) < 2 ^ (-1075 : ℤ) := by
  have hm : (m : ℚ) < 2 ^ ((m.log2 + 1 : ℕ) : ℤ) := by
    rw [zpow_natCast]
    exact_mod_cast Nat.lt_log2_self
  have hten : (10 : ℚ) ^ e ≤ 2 ^ e := by
    obtain ⟨n, rfl⟩ : ∃ n : ℕ, e = -n := ⟨(-e).toNat, by omega⟩
    rw [zpow_neg, zpow_neg, zpow_natCast, zpow_natCast]
    exact inv_anti₀ (by positivity) (pow_le_pow_left₀ (by norm_num) (by norm_num) _)
  calc (m * 10 ^ e : ℚ) ≤ m * 2 ^ e := mul_le_mul_of_nonneg_left hten (by positivity)
    _ < 2 ^ ((m.log2 + 1 : ℕ) : ℤ) * 2 ^ e := mul_lt_mul_of_pos_right hm (by positivity)
    _ = 2 ^ ((m.log2 + 1 : ℕ) + e) := (zpow_add₀ two_ne_zero _ _).symm
    _ ≤ 2 ^ (-1075 : ℤ) := zpow_le_zpow_right₀ (by norm_num) (by push_cast; omega)

theorem cast_pow_toNat (b : ℕ) {e : ℤ} (he : 0 ≤ e) : ((b ^ e.toNat : ℕ) : ℚ) = (b : ℚ) ^ e := by
  rw [Nat.cast_pow, ← zpow_natCast, Int.toNat_of_nonneg he]

/-- **A decimal is rounded to the nearest double.** -/
theorem isNearestRung_ofScientific (m : ℕ) (e : ℤ) :
    IsNearestRung (m * 10 ^ e) (UnpackedFloat.pack Format.binary64
      (UnpackedFloat.ofScientific Format.binary64 m e)).toNat := by
  unfold UnpackedFloat.ofScientific
  split_ifs with hzero hlarge hsmall hsign
  · rw [hzero, Nat.cast_zero, zero_mul]
    exact isNearestRung_vanishing le_rfl (by positivity)
  · show IsNearestRung _ (packedInfinity Format.binary64 .positive).toNat
    rw [toNat_packedInfinity]
    exact isNearestRung_infinite (le_decimal (Nat.pos_of_ne_zero hzero) hlarge)
  · exact isNearestRung_vanishing (by positivity) (decimal_lt hsmall).le
  · have hpos : 0 < m <<< 53 := by
      rw [Nat.shiftLeft_eq]
      exact Nat.mul_pos (Nat.pos_of_ne_zero hzero) (Nat.two_pow_pos _)
    have hten : 0 < 10 ^ e.toNat := Nat.pow_pos (by decide)
    have hbits : 52 ≤ (m <<< 53 * 10 ^ e.toNat).log2 := by
      rw [Nat.le_log2 (Nat.mul_pos hpos hten).ne', Nat.shiftLeft_eq]
      calc 2 ^ 52 ≤ 2 ^ 53 := Nat.pow_le_pow_right (by decide) (by decide)
        _ ≤ m * 2 ^ 53 := Nat.le_mul_of_pos_left _ (Nat.pos_of_ne_zero hzero)
        _ ≤ m * 2 ^ 53 * 10 ^ e.toNat := Nat.le_mul_of_pos_right _ hten
    have h := isNearestRung_mul hpos hten (-53) 0 hbits
    have hvalue : (m * 10 ^ e : ℚ) =
        (m <<< 53 : ℕ) * 2 ^ (-53 : ℤ) * ((10 ^ e.toNat : ℕ) * 2 ^ (0 : ℤ)) := by
      rw [cast_pow_toNat 10 hsign, Nat.shiftLeft_eq, zpow_neg, zpow_zero, mul_one]
      push_cast
      field_simp
    rw [hvalue]
    exact h
  · have hten : 0 < 10 ^ (-e).toNat := Nat.pow_pos (by decide)
    have h := isNearestRung_div (Nat.pos_of_ne_zero hzero) hten 0 0
    have hvalue : (m * 10 ^ e : ℚ) =
        m * 2 ^ (0 : ℤ) / ((10 ^ (-e).toNat : ℕ) * 2 ^ (0 : ℤ)) := by
      rw [cast_pow_toNat 10 (by omega), zpow_neg, zpow_zero, mul_one, mul_one, div_inv_eq_mul]
      norm_num
    rw [hvalue]
    exact h

end BarReplay.Decimal
