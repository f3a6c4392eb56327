import BarReplay.Proofs.Decimal.Bounds

/-!
# Square roots

A square root is rounded once, from a whole root with bits to spare and from the side of the next
half on which the exact root lies. The exact root need not be a fraction, so it is told by the
fractions on either side of it: what is not beyond the exact root is not beyond some number that the
result is nearest to, and the other way round (`exists_isNearest_sqrt_above`,
`exists_isNearest_sqrt_below`). With that, a double whose square is no larger than `x` is no larger
than the root of `x` (`le_sqrt`), and the other way round (`within_sqrt`).
-/

open Float.Model Float.Model.UnpackedFloat

namespace BarReplay.Decimal

/-! ### Whole roots -/

/-- On which side of the next half the root of a number lies. -/
def rootAccuracy (n : ℕ) : Accuracy :=
  if n - n.sqrt * n.sqrt = 0 then .exact
  else .inexact (if n - n.sqrt * n.sqrt ≤ n.sqrt then .lt else .gt)

/-- The root of a whole number is its whole root, or lies in one of the two halves behind it. -/
inductive RootPlace (n : ℕ) : Prop where
  | whole (square : n = n.sqrt ^ 2) (accuracy : rootAccuracy n = .exact)
  | firstHalf (above : n.sqrt ^ 2 < n) (below : (n : ℚ) < (n.sqrt + 1 / 2 : ℚ) ^ 2)
      (accuracy : rootAccuracy n = .inexact .lt)
  | secondHalf (above : (n.sqrt + 1 / 2 : ℚ) ^ 2 < n) (below : n < (n.sqrt + 1) ^ 2)
      (accuracy : rootAccuracy n = .inexact .gt)

theorem rootPlace (n : ℕ) : RootPlace n := by
  have hlow : n.sqrt * n.sqrt ≤ n := Nat.sqrt_le n
  have hhigh : n < (n.sqrt + 1) * (n.sqrt + 1) := Nat.lt_succ_sqrt n
  have hhalf : ((n.sqrt : ℚ) + 1 / 2) ^ 2 = n.sqrt * n.sqrt + n.sqrt + 1 / 4 := by ring
  rcases Nat.eq_zero_or_pos (n - n.sqrt * n.sqrt) with hzero | hpos
  · exact .whole (by rw [sq]; omega) (by rw [rootAccuracy, if_pos hzero])
  rcases Nat.lt_or_ge n.sqrt (n - n.sqrt * n.sqrt) with hlarge | hsmall
  · refine .secondHalf ?_ (by rw [sq]; exact hhigh)
      (by rw [rootAccuracy, if_neg hpos.ne', if_neg hlarge.not_ge])
    have hcast : ((n.sqrt * n.sqrt + n.sqrt + 1 : ℕ) : ℚ) ≤ n := Nat.cast_le.2 (by omega)
    push_cast at hcast
    rw [hhalf]
    linarith
  · refine .firstHalf (by rw [sq]; omega) ?_
      (by rw [rootAccuracy, if_neg hpos.ne', if_pos hsmall])
    have hcast : (n : ℚ) ≤ (n.sqrt * n.sqrt + n.sqrt : ℕ) := Nat.cast_le.2 (by omega)
    push_cast at hcast
    rw [hhalf]
    linarith

/-- What lies in the first half behind a whole number. -/
theorem stands_firstHalf {c : ℕ} {x : ℚ} (hlow : (c : ℚ) < x) (hhigh : x < c + 1 / 2) :
    Stands (.ofMantissaAndAccuracy c (.inexact .lt)) x := by
  refine ⟨?_, ?_, iff_of_true rfl ?_⟩
  all_goals
    simp only [ExtendedMantissa.ofMantissaAndAccuracy, Bool.toNat_false, Nat.cast_zero]
    linarith

/-- What lies in the second half behind a whole number. -/
theorem stands_secondHalf {c : ℕ} {x : ℚ} (hlow : (c : ℚ) + 1 / 2 < x) (hhigh : x < c + 1) :
    Stands (.ofMantissaAndAccuracy c (.inexact .gt)) x := by
  refine ⟨?_, ?_, iff_of_true rfl ?_⟩
  all_goals
    simp only [ExtendedMantissa.ofMantissaAndAccuracy, Bool.toNat_true, Nat.cast_one]
    linarith

/-- What is not beyond the root of a whole number is not beyond something that is rounded in the
same way. -/
theorem exists_stands_above (n : ℕ) {y : ℚ} (hy : 0 ≤ y) (h : y ^ 2 ≤ n) :
    ∃ x, y ≤ x ∧ Stands (.ofMantissaAndAccuracy n.sqrt (rootAccuracy n)) x := by
  have hroot : (0 : ℚ) ≤ n.sqrt := Nat.cast_nonneg _
  cases rootPlace n with
  | whole square accuracy =>
    have hsquare : (n : ℚ) = (n.sqrt : ℚ) ^ 2 := by exact_mod_cast square
    rw [hsquare, pow_le_pow_iff_left₀ hy hroot two_ne_zero] at h
    exact ⟨n.sqrt, h, accuracy ▸ stands_exact n.sqrt⟩
  | firstHalf above below accuracy =>
    have hlt : y < n.sqrt + 1 / 2 := lt_of_pow_lt_pow_left₀ 2 (by positivity) (h.trans_lt below)
    have hle := le_max_right y (n.sqrt + 1 / 4 : ℚ)
    exact ⟨max y (n.sqrt + 1 / 4), le_max_left _ _,
      accuracy ▸ stands_firstHalf (by linarith) (max_lt hlt (by linarith))⟩
  | secondHalf above below accuracy =>
    have hbelow : (n : ℚ) < (n.sqrt + 1 : ℚ) ^ 2 := by exact_mod_cast below
    have hlt : y < n.sqrt + 1 := lt_of_pow_lt_pow_left₀ 2 (by positivity) (h.trans_lt hbelow)
    have hle := le_max_right y (n.sqrt + 3 / 4 : ℚ)
    exact ⟨max y (n.sqrt + 3 / 4), le_max_left _ _,
      accuracy ▸ stands_secondHalf (by linarith) (max_lt hlt (by linarith))⟩

/-- And what the root is not beyond, something that is rounded in the same way is not beyond. -/
theorem exists_stands_below (n : ℕ) {y : ℚ} (hy : 0 ≤ y) (h : n ≤ y ^ 2) :
    ∃ x ≤ y, Stands (.ofMantissaAndAccuracy n.sqrt (rootAccuracy n)) x := by
  cases rootPlace n with
  | whole square accuracy =>
    have hsquare : (n : ℚ) = (n.sqrt : ℚ) ^ 2 := by exact_mod_cast square
    rw [hsquare, pow_le_pow_iff_left₀ (Nat.cast_nonneg _) hy two_ne_zero] at h
    exact ⟨n.sqrt, h, accuracy ▸ stands_exact n.sqrt⟩
  | firstHalf above below accuracy =>
    have habove : (n.sqrt : ℚ) ^ 2 < n := by exact_mod_cast above
    have hlt : (n.sqrt : ℚ) < y := lt_of_pow_lt_pow_left₀ 2 hy (habove.trans_le h)
    have hle := min_le_right y (n.sqrt + 1 / 4 : ℚ)
    exact ⟨min y (n.sqrt + 1 / 4), min_le_left _ _,
      accuracy ▸ stands_firstHalf (lt_min hlt (by linarith)) (by linarith)⟩
  | secondHalf above below accuracy =>
    have hlt : (n.sqrt + 1 / 2 : ℚ) < y := lt_of_pow_lt_pow_left₀ 2 hy (above.trans_le h)
    have hle := min_le_right y (n.sqrt + 3 / 4 : ℚ)
    exact ⟨min y (n.sqrt + 3 / 4), min_le_left _ _,
      accuracy ▸ stands_secondHalf (lt_min hlt (by linarith)) (by linarith)⟩

/-! ### Roots of doubles -/

/-- The root of a positive double is packed from a whole root with bits to spare, in units of which
the double is the square. -/
theorem exists_root {x : Float} (hx : isPositive x = true) : ∃ (n : ℕ) (t : ℤ),
    magnitude x = n * (2 ^ t) ^ 2 ∧ ∀ z, Stands (.ofMantissaAndAccuracy n.sqrt (rootAccuracy n)) z →
      IsNearest (z * 2 ^ t) x.sqrt := by
  obtain ⟨k, r, hr, hunpack, hvalue, -⟩ := exists_parts hx
  obtain ⟨e, he⟩ : ∃ e : ℤ, (k - 1074 : ℤ) = e := ⟨_, rfl⟩
  rw [he] at hunpack hvalue
  obtain ⟨t, ht⟩ : ∃ t : ℤ, min (e / 2) (max ((r.log2 + 1 + e + 1 : ℤ) / 2 - 53) (-1074)) = t :=
    ⟨_, rfl⟩
  obtain ⟨s, hs⟩ : ∃ s : ℕ, e = 2 * t + s := ⟨(e - 2 * t).toNat, by omega⟩
  have hcore : sqrtCore Format.binary64 r e =
      ((r * 2 ^ s).sqrt, t, rootAccuracy (r * 2 ^ s)) := by
    have htarget : min (e.ediv 2) (Format.binary64.targetExponent
        ((totalExponent r e + 1).ediv 2)) = t := ht
    have hamount : (e - 2 * t).toNat = s := by omega
    rw [sqrtCore, htarget, hamount, Nat.shiftLeft_eq]
    rfl
  -- above the lowest exponent the square has been shifted until its root has all the bits
  have hbits : t ≤ max ((r * 2 ^ s).sqrt.log2 + t - 52) (-1074) := by
    rcases le_or_gt t (-1074) with hlow | hhigh
    · exact hlow.trans (le_max_right _ _)
    · have hshift : 104 ≤ r.log2 + s := by omega
      have hsquare : 2 ^ 52 * 2 ^ 52 ≤ r * 2 ^ s := by
        calc 2 ^ 52 * 2 ^ 52 ≤ 2 ^ (r.log2 + s) := by
              rw [← Nat.pow_add]
              exact Nat.pow_le_pow_right (by decide) hshift
          _ = 2 ^ r.log2 * 2 ^ s := Nat.pow_add _ _ _
          _ ≤ r * 2 ^ s := Nat.mul_le_mul_right _ (Nat.log2_self_le hr.ne')
      have hroot := Nat.le_sqrt.2 hsquare
      have hlog : 52 ≤ (r * 2 ^ s).sqrt.log2 := (Nat.le_log2 (by omega)).2 hroot
      omega
  refine ⟨r * 2 ^ s, t, ?_, fun z hz ↦ ?_⟩
  · rw [hvalue, hs, zpow_add₀ two_ne_zero, zpow_natCast, two_mul, zpow_add₀ two_ne_zero]
    push_cast
    ring
  · have hround := isNearestRung_round hz hbits
    rw [isNearest_iff]
    show IsNearestRung _ (UnpackedFloat.pack Format.binary64
      (UnpackedFloat.sqrt Format.binary64 x.toModel.unpack)).toNat
    rw [hunpack, UnpackedFloat.sqrt, hcore]
    exact hround

variable {x : Float} (hx : isPositive x = true) {y : ℚ} (hy : 0 ≤ y)

include hx hy

/-- **What has a square no larger than a double is not above its root**, up to rounding. -/
theorem exists_isNearest_sqrt_above (h : y ^ 2 ≤ magnitude x) :
    ∃ q, y ≤ q ∧ IsNearest q x.sqrt := by
  obtain ⟨n, t, hvalue, hroot⟩ := exists_root hx
  have hunit : (0 : ℚ) < 2 ^ t := by positivity
  have hsquare : (y / 2 ^ t) ^ 2 ≤ n := by
    rw [div_pow, div_le_iff₀ (by positivity)]
    exact hvalue ▸ h
  obtain ⟨z, hle, hz⟩ := exists_stands_above n (by positivity) hsquare
  exact ⟨z * 2 ^ t, (div_le_iff₀ hunit).1 hle, hroot z hz⟩

/-- **What has a square no smaller than a double is not below its root**, up to rounding. -/
theorem exists_isNearest_sqrt_below (h : magnitude x ≤ y ^ 2) :
    ∃ q ≤ y, IsNearest q x.sqrt := by
  obtain ⟨n, t, hvalue, hroot⟩ := exists_root hx
  have hunit : (0 : ℚ) < 2 ^ t := by positivity
  have hsquare : (n : ℚ) ≤ (y / 2 ^ t) ^ 2 := by
    rw [div_pow, le_div_iff₀ (by positivity)]
    exact hvalue ▸ h
  obtain ⟨z, hle, hz⟩ := exists_stands_below n (by positivity) hsquare
  exact ⟨z * 2 ^ t, (le_div_iff₀ hunit).1 hle, hroot z hz⟩

/-- A double is not above the root if its square is not above the number. -/
theorem le_sqrt (hdouble : Represented y) (h : y ^ 2 ≤ magnitude x) : y ≤ amount x.sqrt := by
  obtain ⟨q, hle, hq⟩ := exists_isNearest_sqrt_above hx hy h
  obtain ⟨z, hz, -, rfl⟩ := hdouble
  rw [hz.amount_eq] at hle ⊢
  rw [hq.unsigned.amount_eq]
  exact hz.isNearest.mono hq hle

/-- A root is within a double if the number is not above its square. -/
theorem within_sqrt (hdouble : Represented y) (h : magnitude x ≤ y ^ 2) : Within y x.sqrt := by
  obtain ⟨q, hle, hq⟩ := exists_isNearest_sqrt_below hx hy h
  obtain ⟨z, hz, hfinite, rfl⟩ := hdouble
  rw [hz.amount_eq] at hle ⊢
  refine ⟨hq.isFinite_of_le hfinite hle, ?_⟩
  rw [hq.unsigned.amount_eq, abs_of_nonneg (magnitude_nonneg _)]
  exact hq.mono hz.isNearest hle

omit hx hy

/-- Only a positive double has a positive root that is finite. -/
theorem isPositive_of_sqrt (h : isPositive x.sqrt = true) : isPositive x = true := by
  have h : isPositive (Float.ofModel (Float.Model.pack
    (UnpackedFloat.sqrt Format.binary64 x.toModel.unpack))) = true := h
  rw [isPositive_eq]
  generalize x.toModel.unpack = u at h ⊢
  cases u with
  | notANumber => exact absurd h (by decide)
  | infinity s | zero s => cases s <;> exact absurd h (by decide)
  | finite s m e hm =>
    cases s with
    | positive => rfl
    | negative =>
      have hundefined : isPositive (Float.ofModel (Float.Model.pack .notANumber)) = true := h
      exact absurd hundefined (by decide)

end BarReplay.Decimal
