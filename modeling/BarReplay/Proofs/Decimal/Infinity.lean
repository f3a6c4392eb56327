import BarReplay.Proofs.Decimal.Signed

/-!
# Zero and infinity

Of two doubles with one amount only the zeros can differ (`eq_of_amount_eq`), and a number that is
not finite is one of two infinities (`unpack_of_infinite`). What lies between finite doubles is
finite (`isFinite_of_between`).

With that the laws of signs hold without a word on overflow: adding what is not below zero makes no
less (`le_add_of_zero_le`), a product of what is not below zero is not below zero (`zero_le_mul`)
and grows with its factors (`mul_le_mul_of_zero_le`), and dividing a number by a finite one other
than zero gives a number (`isNaN_div`).
-/

open Float.Model Float.Model.UnpackedFloat

namespace BarReplay.Decimal

/-! ### Zero -/

theorem amount_zero : amount 0 = 0 :=
  amount_of_unpack_zero (s := .positive) rfl

theorem amount_eq_zero_iff {x : Float} (hx : x.isNaN = false) : amount x = 0 ↔ (x == 0) = true := by
  rw [beq_iff_amount hx rfl, amount_zero]

theorem ne_zero_of_isPositive {x : Float} (h : isPositive x = true) : (x == 0) = false := by
  obtain ⟨-, hpos⟩ := amount_of_isPositive h
  rw [← Bool.not_eq_true, ← amount_eq_zero_iff (isUnsigned_of_isPositive h).number]
  exact hpos.ne'

theorem zero_le_iff_amount {x : Float} (hx : x.isNaN = false) : 0 ≤ x ↔ 0 ≤ amount x := by
  rw [le_iff_amount rfl hx, amount_zero]

theorem zero_lt_iff_amount {x : Float} (hx : x.isNaN = false) : 0 < x ↔ 0 < amount x := by
  rw [lt_iff_amount rfl hx, amount_zero]

theorem Rounds.zero_le {q : ℚ} {x : Float} (h : Rounds q x) (hq : 0 ≤ q) : 0 ≤ x :=
  (rounds_amount rfl).le h (amount_zero.le.trans hq)

/-- Only the two zeros are different doubles of one amount. -/
theorem eq_of_amount_eq {x y : Float} (hx : x.isNaN = false) (hy : y.isNaN = false)
    (h : amount x = amount y) (hne : amount x ≠ 0) : x = y := by
  have hunsigned {x y : Float} (hx : IsUnsigned x) (hy : IsUnsigned y) (h : amount x = amount y) :
      x = y := by
    rw [hx.amount_eq, hy.amount_eq, hx.magnitude_eq, hy.magnitude_eq] at h
    exact float_ext (rung_strictMono.injective h)
  rcases isUnsigned_or_opposite hx with hx' | hx' <;>
    rcases isUnsigned_or_opposite hy with hy' | hy'
  · exact hunsigned hx' hy' h
  · -- one amount with two signs is zero
    have hxpos := hx'.amount_nonneg
    have hypos := hy'.amount_nonneg
    rw [amount_opposite hy] at hypos
    exact absurd (by linarith) hne
  · have hxpos := hx'.amount_nonneg
    have hypos := hy'.amount_nonneg
    rw [amount_opposite hx] at hxpos
    exact absurd (by linarith) hne
  · have hback := hunsigned hx' hy' (by rw [amount_opposite hx, amount_opposite hy, h])
    rw [← opposite_opposite x, hback, opposite_opposite]

/-- The order is antisymmetric apart from the two zeros. -/
theorem eq_of_le_of_le {x y : Float} (h : x ≤ y) (h' : y ≤ x) (hne : (x == 0) = false) : x = y := by
  obtain ⟨hx, hy⟩ := isNaN_of_le h
  refine eq_of_amount_eq hx hy
    (le_antisymm ((le_iff_amount hx hy).1 h) ((le_iff_amount hy hx).1 h')) ?_
  rw [ne_eq, amount_eq_zero_iff hx, hne]
  exact Bool.false_ne_true

/-! ### Infinity -/

theorem unpack_of_infinite {x : Float} (hx : x.isNaN = false) (h : x.isFinite = false) :
    ∃ s, x.toModel.unpack = .infinity s := by
  have hx : x.toModel.unpack.isNaN = false := hx
  have h : x.toModel.unpack.isFinite = false := h
  cases hu : x.toModel.unpack with
  | infinity s => exact ⟨s, rfl⟩
  | notANumber => rw [hu] at hx; cases hx
  | zero | finite => rw [hu] at h; cases h

/-- Only one of the infinities is not below zero. -/
theorem unpack_of_zero_le {x : Float} (hx : 0 ≤ x) (h : x.isFinite = false) :
    x.toModel.unpack = .infinity .positive := by
  obtain ⟨s, hs⟩ := unpack_of_infinite (isNaN_of_le hx).2 h
  rw [zero_le_iff, hs] at hx
  cases s with
  | positive => exact hs
  | negative => cases hx

/-- What lies between finite doubles is finite. -/
theorem isFinite_of_between {x y z : Float} (hx : x.isFinite = true) (hz : z.isFinite = true)
    (hxy : x ≤ y) (hyz : y ≤ z) : y.isFinite = true := by
  cases hy : y.isFinite with
  | true => rfl
  | false =>
    -- an infinity is above or below all finite doubles
    obtain ⟨s, hs⟩ := unpack_of_infinite (isNaN_of_le hyz).1 hy
    rw [← decide_eq_true_iff (p := x ≤ y), decide_le_eq, hs] at hxy
    rw [← decide_eq_true_iff (p := y ≤ z), decide_le_eq, hs] at hyz
    cases s with
    | positive =>
      rcases unpack_of_isFinite hz with ⟨t, hzu⟩ | ⟨t, m, e, hm, hzu⟩ <;>
        · rw [hzu] at hyz
          cases hyz
    | negative =>
      rcases unpack_of_isFinite hx with ⟨t, hxu⟩ | ⟨t, m, e, hm, hxu⟩ <;>
        · rw [hxu] at hxy
          cases hxy

/-- No number is above infinity. -/
theorem le_infinity {x y : Float} (hx : x.isNaN = false)
    (hy : y.toModel.unpack = .infinity .positive) : x ≤ y := by
  have hx : x.toModel.unpack.isNaN = false := hx
  rw [← decide_eq_true_iff (p := x ≤ y), decide_le_eq, hy]
  cases hu : x.toModel.unpack with
  | notANumber => rw [hu] at hx; cases hx
  | infinity s => cases s <;> rfl
  | zero | finite => rfl

/-! ### Results -/

/-- **Adding what is not below zero does not make less**, not even of infinity. -/
theorem le_add_of_zero_le {x y : Float} (hx : x.isFinite = true ∨ 0 ≤ x) (hy : 0 ≤ y) :
    x ≤ x + y := by
  have hynumber : y.isNaN = false := (isNaN_of_le hy).2
  cases hxfinite : x.isFinite with
  | true =>
    have hxnumber := isNaN_of_isFinite hxfinite
    cases hyfinite : y.isFinite with
    | true =>
      refine (rounds_amount hxnumber).le (rounds_add hxfinite hyfinite) ?_
      exact le_add_of_nonneg_right ((zero_le_iff_amount hynumber).1 hy)
    | false =>
      -- the sum with an infinity is this infinity
      have htop := unpack_of_zero_le hy hyfinite
      have hself : x + y = y := ofModel_pack_of_eq (by
        rcases unpack_of_isFinite hxfinite with ⟨s, hx⟩ | ⟨s, m, e, hm, hx⟩ <;>
          rw [hx, htop] <;> rfl)
      rw [hself]
      exact le_infinity hxnumber htop
  | false =>
    have hx : 0 ≤ x := hx.resolve_left (by rw [hxfinite]; exact Bool.false_ne_true)
    have htop := unpack_of_zero_le hx hxfinite
    have hself : x + y = x := ofModel_pack_of_eq (by
      rw [htop]
      cases hyfinite : y.isFinite with
      | true =>
        rcases unpack_of_isFinite hyfinite with ⟨s, hy⟩ | ⟨s, m, e, hm, hy⟩ <;> rw [hy] <;> rfl
      | false =>
        rw [unpack_of_zero_le hy hyfinite]
        rfl)
    rw [hself]
    exact le_infinity (isNaN_of_le hx).2 htop

/-- A finite double takes nothing from infinity. -/
theorem infinity_sub {x y : Float} (hx : x.toModel.unpack = .infinity .positive)
    (hy : y.isFinite = true) : x - y = x :=
  ofModel_pack_of_eq (by
    rw [hx]
    rcases unpack_of_isFinite hy with ⟨s, hy⟩ | ⟨s, m, e, hm, hy⟩ <;> rw [hy] <;> rfl)

/-- A product of what is not below zero is not below zero. -/
theorem zero_le_mul {x y : Float} (hx : x.isFinite = true) (hy : y.isFinite = true)
    (hxpos : 0 ≤ x) (hypos : 0 ≤ y) : 0 ≤ x * y := by
  rw [zero_le_iff_amount (isNaN_of_isFinite hx)] at hxpos
  rw [zero_le_iff_amount (isNaN_of_isFinite hy)] at hypos
  exact (rounds_mul hx hy).zero_le (mul_nonneg hxpos hypos)

/-- **A larger factor makes a product no smaller**, if the other one is not below zero. -/
theorem mul_le_mul_of_zero_le {x y z : Float} (hx : x.isFinite = true) (hy : y.isFinite = true)
    (hz : z.isFinite = true) (hpos : 0 ≤ x) (h : y ≤ z) : x * y ≤ x * z := by
  obtain ⟨hynumber, hznumber⟩ := isNaN_of_le h
  refine (rounds_mul hx hy).le (rounds_mul hx hz) (mul_le_mul_of_nonneg_left ?_ ?_)
  · exact (le_iff_amount hynumber hznumber).1 h
  · exact (zero_le_iff_amount (isNaN_of_isFinite hx)).1 hpos

/-- A quotient by a finite double that is not zero is a number if the dividend is. -/
theorem isNaN_div {x y : Float} (hx : x.isNaN = false) (hy : y.isFinite = true)
    (hne : (y == 0) = false) : (x / y).isNaN = false := by
  have hamount : amount y ≠ 0 := by
    rw [ne_eq, amount_eq_zero_iff (isNaN_of_isFinite hy), hne]
    exact Bool.false_ne_true
  cases hfinite : x.isFinite with
  | true => exact (rounds_div hfinite hy hamount).isNaN
  | false =>
    obtain ⟨s, hs⟩ := unpack_of_infinite hx hfinite
    rcases unpack_of_isFinite hy with ⟨t, hyu⟩ | ⟨t, m, e, hm, hyu⟩
    · exact absurd (amount_of_unpack_zero hyu) hamount
    · refine (isNaN_pack (UnpackedFloat.div Format.binary64 x.toModel.unpack
        y.toModel.unpack)).trans ?_
      rw [hs, hyu]
      rfl

end BarReplay.Decimal
