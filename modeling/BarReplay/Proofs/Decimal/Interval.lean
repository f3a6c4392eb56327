import BarReplay.Decimal.Shortest
import BarReplay.Proofs.Decimal.Nearest

/-!
# The fewest digits read back

The interval of a double is computed in whole numbers. In units of a quarter of the last place it
reaches from the midpoint to the double below up to the midpoint to the double above, so a decimal
that lies in it is nearest to the double (`isNearestRung_of_holds`). The search for the coarsest
grid with a decimal in the interval ends early enough, because a grid whose unit is less than half
of the last place has one (`exists_grid`). Therefore the shortest decimal of a double is nearest to
it (`isNearestRung_shortest`).
-/

namespace BarReplay.Decimal

/-- The value of a decimal. -/
def Digits.value (d : Digits) : ℚ :=
  d.coefficient * 10 ^ d.exponent

/-! ### The interval and the midpoints -/

/-- The magnitude of a rung on its level. -/
theorem ofRung_eq {k r : ℕ} (hk : k = 0 ∨ 2 ^ 52 ≤ r) (hr : r < 2 ^ 53) :
    Binary.ofRung (k * 2 ^ 52 + r) = ⟨r, k - 1074⟩ := by
  rw [Binary.ofRung]
  split_ifs with hlow
  · obtain rfl : k = 0 := by omega
    have hmod : (0 * 2 ^ 52 + r) % 2 ^ 52 = r := by omega
    rw [hmod]
    rfl
  · have hdiv : (k * 2 ^ 52 + r) / 2 ^ 52 = k + 1 := by omega
    have hmod : 2 ^ 52 + (k * 2 ^ 52 + r) % 2 ^ 52 = r := by omega
    rw [hdiv, hmod]
    congr 1
    push_cast
    ring

/-- How far the interval of a magnitude reaches down, in quarters of its last place. -/
def Binary.below (b : Binary) : ℕ :=
  if b.isBoundary then 1 else 2

theorem zpow_eq_quarters (e : ℤ) : (2 : ℚ) ^ e = 4 * 2 ^ (e - 2) := by
  rw [zpow_sub₀ two_ne_zero]
  norm_num
  ring

/-- The midpoint to the rung above, in quarters of the last place. -/
theorem rung_add_succ (n : ℕ) :
    rung n + rung (n + 1) = 2 * ((4 * (Binary.ofRung n).significand + 2 : ℕ) *
      2 ^ ((Binary.ofRung n).exponent - 2)) := by
  obtain ⟨k, r, rfl, hk, hr⟩ := exists_level n
  rw [Nat.add_assoc, rung_eq hk hr.le, rung_eq (by omega) hr, ofRung_eq hk hr]
  simp only
  rw [zpow_eq_quarters]
  push_cast
  ring

theorem Binary.isBoundary_iff {b : Binary} :
    b.isBoundary = true ↔ b.significand = 2 ^ 52 ∧ -1074 < b.exponent := by
  rw [isBoundary, Bool.and_eq_true, beq_iff_eq, decide_eq_true_iff]
  rfl

/-- The midpoint to the rung below, in quarters of the last place. -/
theorem rung_pred_add (p : ℕ) :
    rung p + rung (p + 1) = 2 * ((4 * (Binary.ofRung (p + 1)).significand -
      (Binary.ofRung (p + 1)).below : ℕ) * 2 ^ ((Binary.ofRung (p + 1)).exponent - 2)) := by
  obtain ⟨k, r, hp, hk, hr⟩ := exists_level (p + 1)
  rw [hp, ofRung_eq hk hr, rung_eq hk hr.le]
  by_cases hboundary : r = 2 ^ 52 ∧ k ≠ 0
  · -- the rung below is the last one of the level below
    obtain ⟨rfl, hk0⟩ := hboundary
    obtain ⟨l, rfl⟩ := Nat.exists_eq_succ_of_ne_zero hk0
    have hbelow : (Binary.mk (2 ^ 52) ((l + 1 : ℕ) - 1074)).below = 1 :=
      if_pos (Binary.isBoundary_iff.2 ⟨rfl, by simp only; omega⟩)
    have hprev : p = l * 2 ^ 52 + (2 ^ 53 - 1) := by omega
    have hlevel : (2 : ℚ) ^ (l - 1074 : ℤ) = 2 * 2 ^ ((l + 1 : ℕ) - 1074 - 2 : ℤ) := by
      rw [← zpow_one_add₀ two_ne_zero]
      congr 1
      push_cast
      ring
    rw [hbelow, hprev, rung_eq (by omega) (by omega), hlevel]
    simp only
    rw [zpow_eq_quarters ((l + 1 : ℕ) - 1074)]
    push_cast
    ring
  · have hbelow : (Binary.mk r (k - 1074)).below = 2 := by
      refine if_neg fun h ↦ hboundary ?_
      obtain ⟨hr', hk'⟩ := Binary.isBoundary_iff.1 h
      simp only at hr' hk'
      exact ⟨hr', by omega⟩
    obtain ⟨c, rfl⟩ : ∃ c, r = c + 1 := ⟨r - 1, by omega⟩
    have hprev : p = k * 2 ^ 52 + c := by omega
    have hlow : 4 * (c + 1) - 2 = 4 * c + 2 := by omega
    rw [hbelow, hprev, rung_eq (by omega) (by omega)]
    simp only
    rw [zpow_eq_quarters, hlow]
    push_cast
    ring

/-! ### Whole numbers -/

section

variable (b : Binary) (t : ℤ)

/-- What is common to the double and the ends of its interval over a grid. -/
def gridScale : ℕ :=
  tenTo (-t).toNat * twoTo (b.exponent - 2).toNat

theorem gridScale_pos : 0 < gridScale b t :=
  Nat.mul_pos (Nat.pow_pos (by decide)) (Nat.pow_pos (by decide))

theorem cast_tenTo (k : ℕ) : (tenTo k : ℚ) = 10 ^ k :=
  Nat.cast_pow 10 k

theorem cast_twoTo (k : ℕ) : (twoTo k : ℚ) = 2 ^ k :=
  Nat.cast_pow 2 k

/-- A power is the quotient of two powers with natural exponents. -/
theorem pow_toNat {x : ℚ} (hx : x ≠ 0) (e : ℤ) : x ^ e.toNat = x ^ e * x ^ (-e).toNat := by
  rcases le_total 0 e with he | he
  · have hzero : (-e).toNat = 0 := by omega
    rw [hzero, pow_zero, mul_one, ← zpow_natCast, Int.toNat_of_nonneg he]
  · have hzero : e.toNat = 0 := by omega
    rw [hzero, pow_zero, ← zpow_natCast, Int.toNat_of_nonneg (by omega), ← zpow_add₀ hx,
      add_neg_cancel, zpow_zero]

/-- The unit of the grid in quarters of the last place. -/
theorem unit_mul :
    ((Bracket.of b t).unit : ℚ) * 2 ^ (b.exponent - 2) = 10 ^ t * gridScale b t := by
  have hten : (tenTo t.toNat : ℚ) = 10 ^ t * tenTo (-t).toNat := by
    rw [cast_tenTo, cast_tenTo, pow_toNat (by norm_num)]
  have htwo : (twoTo (2 - b.exponent).toNat : ℚ) * 2 ^ (b.exponent - 2) =
      twoTo (b.exponent - 2).toNat := by
    rw [cast_twoTo, cast_twoTo, pow_toNat two_ne_zero (b.exponent - 2), neg_sub, mul_comm]
  show ((tenTo t.toNat * twoTo (2 - b.exponent).toNat : ℕ) : ℚ) * _ = _
  rw [gridScale, Nat.cast_mul, Nat.cast_mul, mul_assoc, htwo, hten]
  ring

/-- What the whole numbers of a bracket stand for. -/
def gridValue (a : ℕ) : ℚ :=
  a * 2 ^ (b.exponent - 2) / gridScale b t

theorem gridValue_strictMono : StrictMono (gridValue b t) := by
  intro a c hac
  have hscale : (0 : ℚ) < gridScale b t := by exact_mod_cast gridScale_pos b t
  have hcast : (a : ℚ) < c := by exact_mod_cast hac
  exact div_lt_div_of_pos_right (mul_lt_mul_of_pos_right hcast (by positivity)) hscale

/-- Multiples of the unit are decimals. -/
theorem gridValue_unit (c : ℕ) : gridValue b t (c * (Bracket.of b t).unit) = c * 10 ^ t := by
  have hscale : (gridScale b t : ℚ) ≠ 0 := by exact_mod_cast (gridScale_pos b t).ne'
  rw [gridValue, Nat.cast_mul, mul_assoc, unit_mul, ← mul_assoc, mul_div_cancel_right₀ _ hscale]

/-- Multiples of the common number are quarters of the last place. -/
theorem gridValue_scale (a : ℕ) :
    gridValue b t (a * gridScale b t) = a * 2 ^ (b.exponent - 2) := by
  have hscale : (gridScale b t : ℚ) ≠ 0 := by exact_mod_cast (gridScale_pos b t).ne'
  rw [gridValue, Nat.cast_mul, mul_right_comm, mul_div_cancel_right₀ _ hscale]

end

/-- A grid point lies in the interval if it lies between its ends, or on one of them if the
significand is even. -/
theorem holds_iff {b : Binary} {t : ℤ} {c : ℕ} :
    (Bracket.of b t).holds c = true ↔
      ((4 * b.significand - b.below) * gridScale b t < c * (Bracket.of b t).unit ∨
        (4 * b.significand - b.below) * gridScale b t = c * (Bracket.of b t).unit ∧
          b.significand % 2 = 0) ∧
      (c * (Bracket.of b t).unit < (4 * b.significand + 2) * gridScale b t ∨
        c * (Bracket.of b t).unit = (4 * b.significand + 2) * gridScale b t ∧
          b.significand % 2 = 0) := by
  have hlow : (Bracket.of b t).low = (4 * b.significand - b.below) * gridScale b t := rfl
  have hhigh : (Bracket.of b t).high = (4 * b.significand + 2) * gridScale b t := rfl
  have hclosed : (Bracket.of b t).closed = (b.significand % 2 == 0) := rfl
  rw [Bracket.holds, hlow, hhigh, hclosed]
  by_cases heven : b.significand % 2 = 0 <;>
    simp [heven, Nat.le_iff_lt_or_eq]

/-- **A decimal in the interval of a double is nearest to it.** -/
theorem isNearestRung_of_holds {n c : ℕ} {t : ℤ} (hn : n ≤ topRung)
    (h : (Bracket.of (Binary.ofRung n) t).holds c = true) : IsNearestRung (c * 10 ^ t) n := by
  obtain ⟨hlow, hhigh⟩ := holds_iff.1 h
  have hmono := gridValue_strictMono (Binary.ofRung n) t
  rw [significand_ofRung] at hlow hhigh
  rw [← hmono.lt_iff_lt, ← hmono.injective.eq_iff, gridValue_scale, gridValue_unit] at hlow hhigh
  refine isNearestRung_of_midpoints hn (fun p hp ↦ ?_) fun _ ↦ ?_
  · subst hp
    rw [rung_pred_add]
    rcases hlow with hlt | ⟨heq, heven⟩
    · exact .inl (mul_lt_mul_of_pos_left hlt two_pos)
    · exact .inr ⟨by rw [heq], heven⟩
  · rw [BelowMidpoint, rung_add_succ]
    rcases hhigh with hlt | ⟨heq, heven⟩
    · exact .inl (mul_lt_mul_of_pos_left hlt two_pos)
    · exact .inr ⟨by rw [heq], heven⟩

/-! ### The search -/

theorem nearer_eq (r : Bracket) (tie : Tie) (c : ℕ) :
    r.nearer tie c = c ∨ r.nearer tie c = c + 1 := by
  unfold Bracket.nearer
  cases tie <;> simp only <;> split_ifs <;> simp

/-- What is chosen lies in the interval. -/
theorem holds_of_choose? {r : Bracket} {tie : Tie} {c : ℕ} (h : r.choose? tie = some c) :
    r.holds c = true := by
  unfold Bracket.choose? at h
  simp only at h
  split at h
  · next hlow hhigh =>
    obtain rfl := Option.some.inj h
    rcases nearer_eq r tie (r.value / r.unit) with heq | heq <;> rw [heq] <;> assumption
  · next hlow _ =>
    obtain rfl := Option.some.inj h
    exact hlow
  · next _ hhigh =>
    obtain rfl := Option.some.inj h
    exact hhigh
  · cases h

/-- A grid whose unit is less than half of the last place has a decimal in the interval: the first
point of it above the double. -/
theorem exists_choose? {b : Binary} {t : ℤ} (tie : Tie)
    (h : (10 : ℚ) ^ t < 2 * 2 ^ (b.exponent - 2)) :
    ∃ c, (Bracket.of b t).choose? tie = some c := by
  have hunit : (Bracket.of b t).unit < 2 * gridScale b t := by
    have hpoint := gridValue_unit b t 1
    have hhalf := gridValue_scale b t 2
    rw [Nat.cast_one, one_mul, one_mul] at hpoint
    rw [Nat.cast_two] at hhalf
    rw [← (gridValue_strictMono b t).lt_iff_lt, hpoint, hhalf]
    exact h
  have hpos : 0 < (Bracket.of b t).unit :=
    Nat.mul_pos (Nat.pow_pos (by decide)) (Nat.pow_pos (by decide))
  have hvalue : (Bracket.of b t).value = 4 * b.significand * gridScale b t := rfl
  have habove := Nat.lt_div_mul_add (a := (Bracket.of b t).value) hpos
  have hbelow := Nat.div_mul_le_self (Bracket.of b t).value (Bracket.of b t).unit
  have hlow : (4 * b.significand - b.below) * gridScale b t ≤
      4 * b.significand * gridScale b t := Nat.mul_le_mul_right _ (Nat.sub_le _ _)
  have hhigh : (4 * b.significand + 2) * gridScale b t =
      4 * b.significand * gridScale b t + 2 * gridScale b t := Nat.add_mul _ _ _
  have hpoint : ((Bracket.of b t).value / (Bracket.of b t).unit + 1) * (Bracket.of b t).unit =
      (Bracket.of b t).value / (Bracket.of b t).unit * (Bracket.of b t).unit +
        (Bracket.of b t).unit := Nat.succ_mul _ _
  have hnext : (Bracket.of b t).holds ((Bracket.of b t).value / (Bracket.of b t).unit + 1) =
      true := by
    rw [holds_iff, hpoint, hhigh]
    exact ⟨.inl (by omega), .inl (by omega)⟩
  unfold Bracket.choose?
  simp only [hnext]
  cases (Bracket.of b t).holds ((Bracket.of b t).value / (Bracket.of b t).unit) with
  | false => exact ⟨_, rfl⟩
  | true => exact ⟨_, rfl⟩

/-- The search finds a decimal in the interval if there is a grid with one on its way. -/
theorem searchGrids_holds {b : Binary} {tie : Tie} {fuel : ℕ} {t : ℤ}
    (h : ∃ j < fuel, ∃ c, (Bracket.of b (t - j)).choose? tie = some c) :
    (Bracket.of b (searchGrids b tie fuel t).exponent).holds
      (searchGrids b tie fuel t).coefficient = true := by
  induction fuel generalizing t with
  | zero =>
    obtain ⟨j, hj, -⟩ := h
    omega
  | succ fuel ih =>
    rw [searchGrids]
    rcases hchoose : (Bracket.of b t).choose? tie with - | c
    · refine ih ?_
      obtain ⟨j, hj, c, hc⟩ := h
      cases j with
      | zero =>
        rw [Nat.cast_zero, sub_zero, hchoose] at hc
        cases hc
      | succ j =>
        refine ⟨j, by omega, c, ?_⟩
        have hgrid : t - (j + 1 : ℕ) = t - 1 - j := by push_cast; ring
        rw [← hgrid]
        exact hc
    · exact holds_of_choose? hchoose

/-- Powers of ten compare with powers of two by `10 ^ 3 < 2 ^ 10` and `2 ^ 93 < 10 ^ 28`. -/
theorem ten_zpow_lt {u v : ℤ} (hpos : 0 ≤ u → 10 * u < 3 * v) (hneg : u < 0 → 93 * u < 28 * v) :
    (10 : ℚ) ^ u < 2 ^ v := by
  rcases lt_or_ge u 0 with hu | hu
  · obtain ⟨n, rfl⟩ : ∃ n : ℕ, u = -n := ⟨(-u).toNat, by omega⟩
    have hpower : ((10 : ℚ) ^ (-n : ℤ)) ^ 28 < (2 ^ v) ^ 28 := by
      calc ((10 : ℚ) ^ (-n : ℤ)) ^ 28 = ((10 ^ 28) ^ n)⁻¹ := by
            rw [zpow_neg, zpow_natCast, inv_pow, ← pow_mul, ← pow_mul, mul_comm]
        _ ≤ ((2 ^ 93) ^ n)⁻¹ :=
            inv_anti₀ (by positivity) (pow_le_pow_left₀ (by norm_num) (by norm_num) _)
        _ = 2 ^ (93 * -n : ℤ) := by
            rw [← pow_mul, ← zpow_natCast, ← zpow_neg]
            push_cast
            ring_nf
        _ < 2 ^ (28 * v) := zpow_lt_zpow_right₀ (by norm_num) (hneg hu)
        _ = (2 ^ v) ^ 28 := by rw [mul_comm, zpow_mul]; rfl
    exact lt_of_pow_lt_pow_left₀ 28 (by positivity) hpower
  · obtain ⟨n, rfl⟩ : ∃ n : ℕ, u = n := ⟨u.toNat, by omega⟩
    have hpower : ((10 : ℚ) ^ (n : ℤ)) ^ 3 < (2 ^ v) ^ 3 := by
      calc ((10 : ℚ) ^ (n : ℤ)) ^ 3 = (10 ^ 3) ^ n := by
            rw [zpow_natCast, ← pow_mul, ← pow_mul, mul_comm]
        _ ≤ (2 ^ 10) ^ n := pow_le_pow_left₀ (by norm_num) (by norm_num) _
        _ = 2 ^ (10 * n : ℤ) := by
            rw [← pow_mul, ← zpow_natCast]
            push_cast
            rfl
        _ < 2 ^ (3 * v) := zpow_lt_zpow_right₀ (by norm_num) (hpos hu)
        _ = (2 ^ v) ^ 3 := by rw [mul_comm, zpow_mul]; rfl
    exact lt_of_pow_lt_pow_left₀ 3 (by positivity) hpower

/-- Seventeen digits suffice: nineteen grids below the coarsest one that is tried, the unit is less
than half of the last place. -/
theorem exists_grid {b : Binary} (hlow : -1074 ≤ b.exponent) (hhigh : b.exponent ≤ 971)
    (hs : b.significand < 2 ^ 53) (tie : Tie) :
    ∃ j : ℕ, j < 20 ∧ ∃ c, (Bracket.of b (coarsestGrid b - j)).choose? tie = some c := by
  have hlog : b.significand.log2 ≤ 52 := by
    rcases Nat.eq_zero_or_pos b.significand with hzero | hpos
    · rw [hzero]
      decide
    · exact Nat.le_of_lt_succ ((Nat.log2_lt hpos.ne').2 hs)
  refine ⟨19, by omega, exists_choose? tie ?_⟩
  have hhalf : (2 : ℚ) * 2 ^ (b.exponent - 2) = 2 ^ (b.exponent - 1) := by
    rw [← zpow_one_add₀ two_ne_zero]
    congr 1
    ring
  rw [hhalf, coarsestGrid]
  exact ten_zpow_lt (fun _ ↦ by omega) fun _ ↦ by omega

theorem value_normalize (fuel : ℕ) (d : Digits) : (d.normalize fuel).value = d.value := by
  induction fuel generalizing d with
  | zero => rfl
  | succ fuel ih =>
    rw [Digits.normalize]
    split_ifs with h
    · have hcoefficient : (d.coefficient : ℚ) = (d.coefficient / 10 : ℕ) * 10 := by
        exact_mod_cast (Nat.div_mul_cancel (Nat.dvd_of_mod_eq_zero h.2)).symm
      rw [ih, Digits.value, Digits.value, zpow_add_one₀ (by norm_num), hcoefficient]
      simp only
      ring
    · rfl

/-- **The shortest decimal of a finite double is nearest to it**, up to the sign. -/
theorem isNearestRung_shortest (tie : Tie) {x : Float} (hx : x.toBits.toNat % 2 ^ 63 < topRung) :
    IsNearestRung (shortest tie x).value (x.toBits.toNat % 2 ^ 63) := by
  unfold shortest
  simp only [ofFloat_eq_ofRung]
  generalize x.toBits.toNat % 2 ^ 63 = n at *
  split_ifs with hzero
  · obtain ⟨k, r, rfl, hk, hr⟩ := exists_level n
    rw [ofRung_eq hk hr] at hzero
    simp only at hzero
    obtain ⟨rfl, rfl⟩ : k = 0 ∧ r = 0 := by omega
    have hself := isNearestRung_rung (Nat.zero_le topRung)
    rw [rung_zero] at hself
    rw [Digits.value, Nat.cast_zero, zero_mul]
    exact hself
  · rw [value_normalize]
    obtain ⟨k, r, hn, hk, hr⟩ := exists_level n
    have hlevel : Binary.ofRung n = ⟨r, k - 1074⟩ := by rw [hn, ofRung_eq hk hr]
    have hgrid : ∃ j : ℕ, j < 20 ∧ ∃ c, (Bracket.of (Binary.ofRung n)
        (coarsestGrid (Binary.ofRung n) - j)).choose? tie = some c := by
      rw [topRung] at hx
      rw [hlevel]
      exact exists_grid (by simp only; omega) (by simp only; omega) hr tie
    exact isNearestRung_of_holds hx.le (searchGrids_holds hgrid)

end BarReplay.Decimal
