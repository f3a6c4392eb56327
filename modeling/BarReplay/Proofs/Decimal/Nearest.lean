import BarReplay.Decimal.Shortest
import Mathlib

/-!
# The double nearest to a number

The doubles from zero to infinity are the rungs of a ladder: their bits count them, from zero up to
`topRung`, and the value of a rung grows with its number. Infinity is the last rung and counts as
`2 ^ 1024`, where the next double would be. A double is nearest to a number if no other rung is
nearer, and if it has an even significand in case another rung is as near (`IsNearest`). Neighbours
on the ladder differ in the parity of their significands, so there is one nearest double at most.

That a rung is nearest can be seen from its two neighbours (`isNearestRung_of_midpoints`).
-/

open Float.Model Float.Model.UnpackedFloat

namespace BarReplay.Decimal

/-- The exact value of a magnitude. -/
def Binary.value (b : Binary) : ℚ :=
  b.significand * 2 ^ b.exponent

/-- The exact value of a double up to its sign; infinity counts as `2 ^ 1024`. -/
def magnitude (x : Float) : ℚ :=
  (Binary.ofFloat x).value

/-- The double is a number, infinity included, and has no sign. -/
structure IsUnsigned (x : Float) : Prop where
  sign : isNegative x = false
  number : x.isNaN = false

/-- The double is the one nearest to `q`, of two equally near ones the one with an even significand.
Infinity counts as `2 ^ 1024`. -/
structure IsNearest (q : ℚ) (x : Float) : Prop where
  unsigned : IsUnsigned x
  nearest : ∀ y, IsUnsigned y → |q - magnitude x| ≤ |q - magnitude y|
  even : ∀ y, IsUnsigned y → |q - magnitude x| = |q - magnitude y| → y ≠ x →
    (Binary.ofFloat x).significand % 2 = 0

/-! ### The ladder -/

/-- The magnitude of the double with the given number on the ladder. -/
def Binary.ofRung (n : ℕ) : Binary :=
  if n / 2 ^ 52 = 0 then ⟨n % 2 ^ 52, -1074⟩ else ⟨2 ^ 52 + n % 2 ^ 52, (n / 2 ^ 52 : ℕ) - 1075⟩

/-- The value of the double with the given number on the ladder. -/
def rung (n : ℕ) : ℚ :=
  (Binary.ofRung n).value

/-- The number of infinity on the ladder. -/
def topRung : ℕ :=
  2047 * 2 ^ 52

/-- Between two powers of two the rungs are the multiples of one power of two, both ends
included. -/
theorem rung_eq {k r : ℕ} (hk : k = 0 ∨ 2 ^ 52 ≤ r) (hr : r ≤ 2 ^ 53) :
    rung (k * 2 ^ 52 + r) = r * 2 ^ (k - 1074 : ℤ) := by
  have hsplit : r < 2 ^ 52 ∨ (2 ^ 52 ≤ r ∧ r < 2 ^ 53) ∨ r = 2 ^ 53 := by omega
  rw [rung, Binary.ofRung]
  rcases hsplit with hlow | ⟨hlow, hhigh⟩ | rfl
  · obtain rfl : k = 0 := by omega
    have hdiv : (0 * 2 ^ 52 + r) / 2 ^ 52 = 0 := by omega
    have hmod : (0 * 2 ^ 52 + r) % 2 ^ 52 = r := by omega
    rw [if_pos hdiv, hmod, Binary.value]
    norm_num
  · have hdiv : (k * 2 ^ 52 + r) / 2 ^ 52 = k + 1 := by omega
    have hmod : 2 ^ 52 + (k * 2 ^ 52 + r) % 2 ^ 52 = r := by omega
    rw [if_neg (by omega), hmod, hdiv, Binary.value]
    congr 2
    push_cast
    ring
  · have hdiv : (k * 2 ^ 52 + 2 ^ 53) / 2 ^ 52 = k + 2 := by omega
    have hmod : (k * 2 ^ 52 + 2 ^ 53) % 2 ^ 52 = 0 := by omega
    have hexponent : ((k + 2 : ℕ) : ℤ) - 1075 = (k - 1074 : ℤ) + 1 := by push_cast; ring
    rw [if_neg (by omega), hmod, hdiv, Binary.value, hexponent, zpow_add_one₀ two_ne_zero]
    push_cast
    ring

/-- Every rung lies between two powers of two. -/
theorem exists_level (n : ℕ) :
    ∃ k r, n = k * 2 ^ 52 + r ∧ (k = 0 ∨ 2 ^ 52 ≤ r) ∧ r < 2 ^ 53 := by
  rcases Nat.lt_or_ge n (2 ^ 52) with hn | hn
  · exact ⟨0, n, by omega, .inl rfl, by omega⟩
  · exact ⟨n / 2 ^ 52 - 1, n % 2 ^ 52 + 2 ^ 52, by omega, .inr (by omega), by omega⟩

theorem rung_lt_succ (n : ℕ) : rung n < rung (n + 1) := by
  obtain ⟨k, r, rfl, hk, hr⟩ := exists_level n
  rw [Nat.add_assoc, rung_eq hk hr.le, rung_eq (by omega) hr]
  have hunit : (0 : ℚ) < 2 ^ (k - 1074 : ℤ) := by positivity
  push_cast
  nlinarith

theorem rung_strictMono : StrictMono rung :=
  strictMono_nat_of_lt_succ rung_lt_succ

theorem rung_zero : rung 0 = 0 := by
  have h := rung_eq (k := 0) (r := 0) (.inl rfl) (by omega)
  simpa using h

theorem rung_top : rung topRung = 2 ^ 1024 := by
  have h : rung topRung = (2 ^ 52 : ℕ) * 2 ^ ((2046 : ℕ) - 1074 : ℤ) :=
    rung_eq (k := 2046) (r := 2 ^ 52) (.inr le_rfl) (by omega)
  have hexponent : ((2046 : ℕ) - 1074 : ℤ) = (972 : ℕ) := by norm_num
  rw [h, hexponent, zpow_natCast, Nat.cast_pow, Nat.cast_ofNat, ← pow_add]

/-- The parity of a significand is that of the number of its rung. -/
theorem significand_ofRung (n : ℕ) : (Binary.ofRung n).significand % 2 = n % 2 := by
  rw [Binary.ofRung]
  split_ifs <;> simp only <;> omega

/-! ### Doubles on the ladder -/

theorem toNat_unpackExponent (b : BitVec 64) :
    (@unpackExponent Format.binary64 b).toNat = b.toNat / 2 ^ 52 % 2 ^ 11 := by
  rw [unpackExponent, BitVec.toNat_cast, BitVec.extractLsb_toNat, Nat.shiftRight_eq_div_pow]
  rfl

theorem toNat_unpackMantissa (b : BitVec 64) :
    (@unpackMantissa Format.binary64 b).toNat = b.toNat % 2 ^ 52 := by
  rw [unpackMantissa, BitVec.toNat_cast, BitVec.extractLsb_toNat, Nat.shiftRight_zero]
  rfl

theorem toNat_unpackSign (b : BitVec 64) :
    (@unpackSign Format.binary64 b).toNat = b.toNat / 2 ^ 63 := by
  rw [unpackSign, BitVec.toNat_cast, BitVec.extractLsb_toNat, Nat.shiftRight_eq_div_pow]
  show b.toNat / 2 ^ 63 % 2 ^ 1 = _
  omega

theorem unpackExponent_eq_neg_one_iff (b : BitVec 64) :
    @unpackExponent Format.binary64 b = -1#11 ↔ b.toNat / 2 ^ 52 % 2 ^ 11 = 2047 := by
  rw [← BitVec.toNat_inj, toNat_unpackExponent]
  rfl

theorem unpackMantissa_eq_zero_iff (b : BitVec 64) :
    @unpackMantissa Format.binary64 b = 0#52 ↔ b.toNat  % 2 ^ 52 = 0 := by
  rw [← BitVec.toNat_inj, toNat_unpackMantissa]
  rfl

theorem isNaN_iff {x : Float} :
    x.isNaN = true ↔
      x.toBits.toNat / 2 ^ 52 % 2 ^ 11 = 2047 ∧ x.toBits.toNat % 2 ^ 52 ≠ 0 := by
  have hexponent := unpackExponent_eq_neg_one_iff x.toBits.toBitVec
  have hmantissa := unpackMantissa_eq_zero_iff x.toBits.toBitVec
  show (UnpackedFloat.unpack Format.binary64 x.toBits.toBitVec).isNaN = true ↔ _
  rw [UnpackedFloat.unpack]
  split_ifs with hmax hzero
  · exact iff_of_false Bool.false_ne_true fun h ↦ h.2 (hmantissa.1 hzero)
  · exact iff_of_true rfl ⟨hexponent.1 hmax, fun h ↦ hzero (hmantissa.2 h)⟩
  all_goals exact iff_of_false Bool.false_ne_true fun h ↦ hmax (hexponent.2 h.1)

/-- A double has no sign and is a number exactly if its bits count a rung. -/
theorem isUnsigned_iff {x : Float} : IsUnsigned x ↔ x.toBits.toNat ≤ topRung := by
  have hbits : x.toBits.toNat < 2 ^ 64 := x.toBits.toNat_lt
  have hsign : isNegative x = false ↔ x.toBits.toNat < 2 ^ 63 := by
    show (x.toBits.toNat / 2 ^ 63 == 1) = false ↔ _
    rw [beq_eq_false_iff_ne]
    omega
  have hnumber : x.isNaN = false ↔ _ := Bool.not_eq_true _ ▸ not_congr isNaN_iff
  constructor
  · intro ⟨h1, h2⟩
    rw [hsign] at h1
    rw [hnumber] at h2
    rw [topRung]
    omega
  · intro h
    rw [topRung] at h
    exact ⟨hsign.2 (by omega), hnumber.2 (by omega)⟩

/-- Every rung is a double. -/
theorem exists_float {n : ℕ} (hn : n ≤ topRung) : ∃ x : Float, x.toBits.toNat = n := by
  rw [topRung] at hn
  have hvalid : Format.binary64.Valid (BitVec.ofNat 64 n) := by
    refine ⟨fun hexponent hmantissa ↦ absurd ?_ hmantissa⟩
    rw [unpackExponent_eq_neg_one_iff, BitVec.toNat_ofNat] at hexponent
    rw [unpackMantissa_eq_zero_iff, BitVec.toNat_ofNat]
    omega
  refine ⟨⟨⟨⟨BitVec.ofNat 64 n⟩, hvalid⟩⟩, ?_⟩
  exact Nat.mod_eq_of_lt (by omega)

/-- The magnitude of a double is that of the rung that its bits count when the sign is left out. -/
theorem ofFloat_eq_ofRung (x : Float) :
    Binary.ofFloat x = Binary.ofRung (x.toBits.toNat % 2 ^ 63) := by
  have hdiv : x.toBits.toNat % 2 ^ 63 / 2 ^ 52 = x.toBits.toNat / 2 ^ 52 % 2 ^ 11 := by omega
  have hmod : x.toBits.toNat % 2 ^ 63 % 2 ^ 52 = x.toBits.toNat % 2 ^ 52 := by omega
  rw [Binary.ofRung, hdiv, hmod]
  rfl

theorem float_ext {x y : Float} (h : x.toBits.toNat = y.toBits.toNat) : x = y :=
  Float.toBits_inj.1 (UInt64.toNat_inj.1 h)

theorem IsUnsigned.ofFloat_eq {x : Float} (hx : IsUnsigned x) :
    Binary.ofFloat x = Binary.ofRung x.toBits.toNat := by
  have hle : x.toBits.toNat ≤ topRung := isUnsigned_iff.1 hx
  rw [topRung] at hle
  rw [ofFloat_eq_ofRung, Nat.mod_eq_of_lt (by omega)]

theorem IsUnsigned.magnitude_eq {x : Float} (hx : IsUnsigned x) :
    magnitude x = rung x.toBits.toNat := by
  rw [magnitude, hx.ofFloat_eq, rung]

/-! ### The nearest rung -/

/-- The rung is the one nearest to `q`, of two equally near ones the even one. -/
structure IsNearestRung (q : ℚ) (n : ℕ) : Prop where
  le_top : n ≤ topRung
  nearest : ∀ m ≤ topRung, |q - rung n| ≤ |q - rung m|
  even : ∀ m ≤ topRung, |q - rung n| = |q - rung m| → m ≠ n → n % 2 = 0

/-- A double is the nearest one if it is the nearest rung. -/
theorem isNearest_iff {q : ℚ} {x : Float} : IsNearest q x ↔ IsNearestRung q x.toBits.toNat := by
  constructor
  · intro h
    have hparity : (Binary.ofFloat x).significand % 2 = x.toBits.toNat % 2 := by
      rw [h.unsigned.ofFloat_eq, significand_ofRung]
    refine ⟨isUnsigned_iff.1 h.unsigned, fun m hm ↦ ?_, fun m hm heq hne ↦ ?_⟩
    · obtain ⟨y, rfl⟩ := exists_float hm
      have hy : IsUnsigned y := isUnsigned_iff.2 hm
      rw [← h.unsigned.magnitude_eq, ← hy.magnitude_eq]
      exact h.nearest y hy
    · obtain ⟨y, rfl⟩ := exists_float hm
      have hy : IsUnsigned y := isUnsigned_iff.2 hm
      rw [← h.unsigned.magnitude_eq, ← hy.magnitude_eq] at heq
      rw [← hparity]
      exact h.even y hy heq fun hyx ↦ hne (by rw [hyx])
  · intro h
    have hx : IsUnsigned x := isUnsigned_iff.2 h.le_top
    refine ⟨hx, fun y hy ↦ ?_, fun y hy heq hne ↦ ?_⟩
    · rw [hx.magnitude_eq, hy.magnitude_eq]
      exact h.nearest _ (isUnsigned_iff.1 hy)
    · rw [hx.magnitude_eq, hy.magnitude_eq] at heq
      rw [hx.ofFloat_eq, significand_ofRung]
      exact h.even _ (isUnsigned_iff.1 hy) heq fun hbits ↦ hne (float_ext hbits)

/-- No two rungs are nearest: between two even rungs there is an odd one, which is nearer to their
midpoint. -/
theorem IsNearestRung.eq {q : ℚ} {m n : ℕ} (hm : IsNearestRung q m) (hn : IsNearestRung q n) :
    m = n := by
  wlog hlt : m < n generalizing m n with hwlog
  · rcases Nat.lt_or_eq_of_le (Nat.le_of_not_lt hlt) with hgt | heq
    · exact (hwlog hn hm hgt).symm
    · exact heq.symm
  have heq : |q - rung m| = |q - rung n| :=
    le_antisymm (hm.nearest n hn.le_top) (hn.nearest m hm.le_top)
  have hmeven : m % 2 = 0 := hm.even n hn.le_top heq hlt.ne'
  have hneven : n % 2 = 0 := hn.even m hm.le_top heq.symm hlt.ne
  have hbelow : rung m < rung (m + 1) := rung_lt_succ m
  have habove : rung (m + 1) < rung n := rung_strictMono (by omega)
  have hnear : |q - rung m| ≤ |q - rung (m + 1)| :=
    hm.nearest (m + 1) (Nat.le_trans hlt hn.le_top)
  have hmiddle : q - rung m = -(q - rung n) := by
    rcases abs_eq_abs.1 heq with h | h
    · linarith
    · exact h
  rw [abs_of_pos (by linarith : 0 < q - rung m)] at hnear
  rcases abs_cases (q - rung (m + 1)) with ⟨habs, -⟩ | ⟨habs, -⟩ <;> linarith

theorem IsNearest.eq {q : ℚ} {x y : Float} (hx : IsNearest q x) (hy : IsNearest q y) : x = y :=
  float_ext ((isNearest_iff.1 hx).eq (isNearest_iff.1 hy))

/-- A number beyond the midpoint of `b` and `c` is nearer to `c` than to anything up to `b`. -/
theorem abs_sub_lt_of_midpoint {q a b c : ℚ} (hab : a ≤ b) (hbc : b < c) (h : b + c < 2 * q) :
    |q - c| < |q - a| := by
  have hnear : |q - c| < q - b := abs_lt.2 ⟨by linarith, by linarith⟩
  have hfar : q - b ≤ |q - a| := le_trans (by linarith) (le_abs_self _)
  exact hnear.trans_le hfar

theorem abs_sub_le_of_midpoint {q a b c : ℚ} (hab : a ≤ b) (hbc : b < c) (h : b + c ≤ 2 * q) :
    |q - c| ≤ |q - a| := by
  have hnear : |q - c| ≤ q - b := abs_le.2 ⟨by linarith, by linarith⟩
  have hfar : q - b ≤ |q - a| := le_trans (by linarith) (le_abs_self _)
  exact hnear.trans hfar

/-- The number lies above the midpoint of the rung and the one below it, or on it if the rung is
even. -/
def AboveMidpoint (q : ℚ) (n : ℕ) : Prop :=
  ∀ m, m + 1 = n → rung m + rung n < 2 * q ∨ rung m + rung n = 2 * q ∧ n % 2 = 0

/-- The number lies below the midpoint of the rung and the one above it, or on it if the rung is
even. -/
def BelowMidpoint (q : ℚ) (n : ℕ) : Prop :=
  2 * q < rung n + rung (n + 1) ∨ 2 * q = rung n + rung (n + 1) ∧ n % 2 = 0

/-- A rung above the midpoint to the rung below it is nearer than all rungs below it. -/
theorem AboveMidpoint.nearer {q : ℚ} {m n : ℕ} (h : AboveMidpoint q n) (hlt : m < n) :
    |q - rung n| < |q - rung m| ∨ |q - rung n| = |q - rung m| ∧ n % 2 = 0 := by
  obtain ⟨p, rfl⟩ : ∃ p, n = p + 1 := ⟨n - 1, by omega⟩
  have hmp : rung m ≤ rung p := rung_strictMono.monotone (by omega)
  rcases h p rfl with hlt | ⟨heq, heven⟩
  · exact .inl (abs_sub_lt_of_midpoint hmp (rung_lt_succ p) hlt)
  · rcases (abs_sub_le_of_midpoint hmp (rung_lt_succ p) heq.le).lt_or_eq with hnear | hsame
    · exact .inl hnear
    · exact .inr ⟨hsame, heven⟩

/-- A rung below the midpoint to the rung above it is nearer than all rungs above it. -/
theorem BelowMidpoint.nearer {q : ℚ} {m n : ℕ} (h : BelowMidpoint q n) (hlt : n < m) :
    |q - rung n| < |q - rung m| ∨ |q - rung n| = |q - rung m| ∧ n % 2 = 0 := by
  have hpm : -rung m ≤ -rung (n + 1) := neg_le_neg (rung_strictMono.monotone (by omega))
  have hstep : -rung (n + 1) < -rung n := neg_lt_neg (rung_lt_succ n)
  have hflip : ∀ k, |-q - -rung k| = |q - rung k| := fun k ↦ by rw [neg_sub_neg, abs_sub_comm]
  rw [← hflip n, ← hflip m]
  rcases h with hlt | ⟨heq, heven⟩
  · exact .inl (abs_sub_lt_of_midpoint hpm hstep (by linarith))
  · have hmid : -rung (n + 1) + -rung n ≤ 2 * -q := by linarith
    rcases (abs_sub_le_of_midpoint hpm hstep hmid).lt_or_eq with hnear | hsame
    · exact .inl hnear
    · exact .inr ⟨hsame, heven⟩

/-- **A rung is nearest to what lies between the midpoints to its two neighbours**, midpoints
included if it is even. Nothing has to lie below a midpoint to be nearest to the last rung. -/
theorem isNearestRung_of_midpoints {q : ℚ} {n : ℕ} (hn : n ≤ topRung) (habove : AboveMidpoint q n)
    (hbelow : n < topRung → BelowMidpoint q n) : IsNearestRung q n := by
  have hnearer : ∀ m ≤ topRung, m ≠ n →
      |q - rung n| < |q - rung m| ∨ |q - rung n| = |q - rung m| ∧ n % 2 = 0 := by
    intro m hm hne
    rcases Nat.lt_or_gt_of_ne hne with hlt | hgt
    · exact habove.nearer hlt
    · exact (hbelow (by omega)).nearer hgt
  refine ⟨hn, fun m hm ↦ ?_, fun m hm heq hne ↦ ?_⟩
  · rcases eq_or_ne m n with rfl | hne
    · exact le_rfl
    · rcases hnearer m hm hne with h | h
      · exact h.le
      · exact h.1.le
  · rcases hnearer m hm hne with h | h
    · exact absurd heq h.ne
    · exact h.2

/-- What lies between two neighbours on the ladder is nearest to the lower one below their midpoint,
and on it if the lower one is even. -/
theorem isNearestRung_lower {q : ℚ} {n : ℕ} (hn : n ≤ topRung) (hlow : rung n ≤ q)
    (h : BelowMidpoint q n) : IsNearestRung q n := by
  refine isNearestRung_of_midpoints hn (fun m hm ↦ .inl ?_) fun _ ↦ h
  have hstep : rung m < rung n := hm ▸ rung_lt_succ m
  linarith

/-- A rung is nearest to itself. -/
theorem isNearestRung_rung {n : ℕ} (hn : n ≤ topRung) : IsNearestRung (rung n) n := by
  refine isNearestRung_lower hn le_rfl (.inl ?_)
  have hstep : rung n < rung (n + 1) := rung_lt_succ n
  linarith

/-- What lies between two neighbours on the ladder is nearest to the upper one above their midpoint,
and on it if the upper one is even. -/
theorem isNearestRung_upper {q : ℚ} {n : ℕ} (hn : n + 1 ≤ topRung) (hhigh : q < rung (n + 1))
    (h : AboveMidpoint q (n + 1)) : IsNearestRung q (n + 1) := by
  refine isNearestRung_of_midpoints hn h fun _ ↦ .inl ?_
  have hstep : rung (n + 1) < rung (n + 1 + 1) := rung_lt_succ _
  linarith

/-- What is not below the last rung is nearest to it. -/
theorem isNearestRung_top {q : ℚ} (h : rung topRung ≤ q) : IsNearestRung q topRung := by
  refine isNearestRung_of_midpoints le_rfl (fun m hm ↦ .inl ?_) fun hlt ↦ absurd hlt (lt_irrefl _)
  have hstep : rung m < rung topRung := hm ▸ rung_lt_succ m
  linarith

/-- What lies between two neighbours is nearest to one of them, or to the last rung if they are
above it. -/
theorem isNearestRung_of_neighbours {q : ℚ} {n m : ℕ} (hlow : rung n ≤ q)
    (hhigh : q < rung (n + 1))
    (h : m = n ∧ BelowMidpoint q n ∨ m = n + 1 ∧ AboveMidpoint q (n + 1)) :
    IsNearestRung q (min m topRung) := by
  rcases Nat.lt_or_ge n topRung with hn | hn
  · rcases h with ⟨rfl, hbelow⟩ | ⟨rfl, habove⟩
    · rw [min_eq_left hn.le]
      exact isNearestRung_lower hn.le hlow hbelow
    · rw [min_eq_left hn]
      exact isNearestRung_upper hn hhigh habove
  · rw [min_eq_right (by omega)]
    exact isNearestRung_top ((rung_strictMono.monotone hn).trans hlow)

end BarReplay.Decimal
