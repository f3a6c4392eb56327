import BarReplay.Proofs.Decimal.Sign

/-!
# Numbers too large for a double

The largest double is `2 ^ 1024 - 2 ^ 971`, and infinity stands one rung above it. What is nearest
to infinity starts at the midpoint of these two, `overflowBound`: the double nearest to a number is
finite exactly if the number is below this bound (`IsNearest.isFinite_iff`).
-/

namespace BarReplay.Decimal

/-- The midpoint of the largest double and infinity. -/
def overflowBound : ℚ :=
  2 ^ 1024 - 2 ^ 970

/-- The largest double. -/
theorem rung_pred_top : rung (topRung - 1) = 2 ^ 1024 - 2 ^ 971 := by
  have h := rung_eq (k := 2045) (r := 2 ^ 53 - 1) (.inr (by norm_num)) (by norm_num)
  have hexponent : ((2045 : ℕ) - 1074 : ℤ) = (971 : ℕ) := by norm_num
  rw [hexponent, zpow_natCast] at h
  calc rung (topRung - 1) = rung (2045 * 2 ^ 52 + (2 ^ 53 - 1)) := by
        rw [topRung]
        norm_num
    _ = ((2 ^ 53 - 1 : ℕ) : ℚ) * 2 ^ 971 := h
    _ = (2 ^ 53 - 1) * 2 ^ 971 := by norm_num
    _ = 2 ^ 1024 - 2 ^ 971 := by rw [sub_mul, ← pow_add, one_mul]

theorem rung_pred_top_add : rung (topRung - 1) + rung topRung = 2 * overflowBound := by
  have hdouble : (2 : ℚ) ^ 971 = 2 * 2 ^ 970 := pow_succ' 2 970
  rw [rung_pred_top, rung_top, overflowBound, hdouble]
  generalize (2 : ℚ) ^ 1024 = top
  generalize (2 : ℚ) ^ 970 = half
  ring

/-- What is not below the bound is nearest to infinity: the last rung is even, so the bound itself
is, too. -/
theorem isNearestRung_of_overflow {q : ℚ} (h : overflowBound ≤ q) : IsNearestRung q topRung := by
  refine isNearestRung_of_midpoints le_rfl (fun m hm ↦ ?_) fun hlt ↦ absurd hlt (lt_irrefl _)
  obtain rfl : m = topRung - 1 := by omega
  rw [rung_pred_top_add]
  rcases h.lt_or_eq with hlt | rfl
  · exact .inl (by linarith)
  · exact .inr ⟨rfl, by decide⟩

/-- **The double nearest to a number is finite exactly if the number is below the bound.** -/
theorem IsNearest.isFinite_iff {q : ℚ} {x : Float} (h : IsNearest q x) :
    x.isFinite = true ↔ q < overflowBound := by
  have hrung : IsNearestRung q x.toBits.toNat := isNearest_iff.1 h
  have hle : x.toBits.toNat ≤ topRung := hrung.le_top
  have hunsigned : x.toBits.toNat % 2 ^ 63 = x.toBits.toNat := by
    rw [topRung] at hle
    omega
  rw [Decimal.isFinite_iff, hunsigned]
  constructor
  · intro hfinite
    by_contra hlarge
    exact hfinite.ne (hrung.eq (isNearestRung_of_overflow (not_lt.1 hlarge)))
  · intro hsmall
    refine lt_of_le_of_ne hle fun heq ↦ ?_
    -- below the midpoint the largest double is nearer than infinity
    have hnear := hrung.nearest (topRung - 1) (Nat.sub_le _ _)
    have hstep : rung (topRung - 1) < rung topRung := rung_strictMono (by decide)
    have hmiddle := rung_pred_top_add
    rw [heq, abs_sub_comm, abs_of_pos (by linarith)] at hnear
    rcases abs_cases (q - rung (topRung - 1)) with ⟨habs, -⟩ | ⟨habs, -⟩ <;> linarith

end BarReplay.Decimal
