import BarReplay.Metrics
import BarReplay.Proofs.Decimal.Bounds

/-!
# Sums of doubles

A sum is taken from left to right and rounded at every step, so it is followed from its end: the sum
of a list is that of all but the last number, and the last number (`total_concat`). A sum of numbers
on one side of zero is no nearer to zero than any of them (`total_outweighs`). A sum of numbers that
are within a power of two is within as many times this power (`within_total`), and the sum of one
number, taken again and again, is the product as long as no product on the way has too many bits
(`amount_total_replicate`).
-/

open BarReplay.Decimal

namespace BarReplay.Metrics

@[simp] theorem total_nil : total ([] : List Float) = 0 := rfl

@[simp] theorem total_concat (xs : List Float) (x : Float) :
    total (xs ++ [x]) = total xs + x := by
  simp [total]

/-- Only finite numbers have a finite sum. -/
theorem isFinite_of_total {xs : List Float} (h : (total xs).isFinite = true) :
    ∀ x ∈ xs, x.isFinite = true := by
  induction xs using List.reverseRecOn with
  | nil => simp
  | append_singleton xs last ih =>
    rw [total_concat] at h
    obtain ⟨hrest, hlast⟩ := isFinite_of_add h
    simpa [or_imp, forall_and] using And.intro (ih hrest) hlast

/-- **A sum of numbers on one side of zero is on this side, and no nearer to zero than any of
them.** The side is given by a sign. -/
theorem total_outweighs {xs : List Float} {side : ℚ} (hside : side = 1 ∨ side = -1)
    (hxs : ∀ x ∈ xs, 0 ≤ side * amount x) (h : (total xs).isFinite = true) :
    0 ≤ side * amount (total xs) ∧ ∀ x ∈ xs, side * amount x ≤ side * amount (total xs) := by
  induction xs using List.reverseRecOn with
  | nil => simp [amount_zero]
  | append_singleton xs last ih =>
    rw [total_concat] at h ⊢
    obtain ⟨hrest, hlast⟩ := isFinite_of_add h
    obtain ⟨hpos, hall⟩ := ih (fun x hx ↦ hxs x (by simp [hx])) hrest
    have hlastpos := hxs last (by simp)
    have hround := rounds_add hrest hlast
    have hself {x : Float} (hx : x.isFinite = true) := rounds_amount (isNaN_of_isFinite hx)
    -- neither of the two terms outweighs their rounded sum
    have hmore : side * amount (total xs) ≤ side * amount (total xs + last) ∧
        side * amount last ≤ side * amount (total xs + last) := by
      rcases hside with rfl | rfl
      · have h₁ := (hself hrest).mono hround (by linarith)
        have h₂ := (hself hlast).mono hround (by linarith)
        constructor <;> linarith
      · have h₁ := hround.mono (hself hrest) (by linarith)
        have h₂ := hround.mono (hself hlast) (by linarith)
        constructor <;> linarith
    refine ⟨hpos.trans hmore.1, fun x hx ↦ ?_⟩
    rcases List.mem_append.1 hx with hx | hx
    · exact (hall x hx).trans hmore.1
    · exact List.mem_singleton.1 hx ▸ hmore.2

/-- **A sum is within as many times the bound as it has terms.** The bound is a power of two, so all
its multiples on the way are doubles, and rounding adds nothing. -/
theorem within_total {k : ℕ} (hk : k ≤ 971) {xs : List Float} (hlength : xs.length < 2 ^ 53)
    (h : ∀ x ∈ xs, Within (2 ^ k) x) : Within (xs.length * 2 ^ k) (total xs) := by
  induction xs using List.reverseRecOn with
  | nil => exact ⟨rfl, by simp [amount_zero]⟩
  | append_singleton xs last ih =>
    rw [List.length_append, List.length_singleton] at hlength ⊢
    have hrest := ih (by omega) fun x hx ↦ h x (by simp [hx])
    rw [total_concat]
    refine hrest.add (h last (by simp)) (represented_mul_pow hlength hk) (le_of_eq ?_)
    push_cast
    ring

/-! ### One number again and again -/

/-- Zeros add up to zero. -/
theorem total_zeros (n : ℕ) : total (List.replicate n (0 : Float)) = 0 := by
  induction n with
  | zero => rfl
  | succ n ih =>
    rw [List.replicate_succ', total_concat, ih]
    rfl

/-- **A finite sum of one number is the product** if no product on the way has more bits than
doubles have. -/
theorem amount_total_replicate {n : ℕ} {x : Float} (h : ∀ k ≤ n, HasBits (k * amount x))
    (hfinite : (total (List.replicate n x)).isFinite = true) :
    amount (total (List.replicate n x)) = n * amount x := by
  induction n with
  | zero => simp [amount_zero]
  | succ n ih =>
    rw [List.replicate_succ', total_concat] at hfinite ⊢
    obtain ⟨hrest, hx⟩ := isFinite_of_add hfinite
    have hround := rounds_add hrest hx
    have hproduct : amount (total (List.replicate n x)) + amount x = (n + 1 : ℕ) * amount x := by
      rw [ih (fun k hk ↦ h k (hk.trans (Nat.le_succ n))) hrest]
      push_cast
      ring
    rw [hproduct] at hround
    exact hround.eq_of_hasBits hfinite (h (n + 1) le_rfl)

section Repeated

variable {n : ℕ} {x : Float}

theorem within_total_replicate {k : ℕ} (hk : k ≤ 971) (hn : n < 2 ^ 53) (hx : Within (2 ^ k) x) :
    Within (n * 2 ^ k) (total (List.replicate n x)) := by
  have hlength : (List.replicate n x).length < 2 ^ 53 := by rwa [List.length_replicate]
  have h := within_total hk hlength fun y hy ↦ List.eq_of_mem_replicate hy ▸ hx
  rwa [List.length_replicate] at h

variable (hn : 0 < n) (h : (total (List.replicate n x)).isFinite = true)

include hn h

theorem le_total_replicate {side : ℚ} (hside : side = 1 ∨ side = -1) (hx : 0 ≤ side * amount x) :
    side * amount x ≤ side * amount (total (List.replicate n x)) :=
  (total_outweighs hside (fun y hy ↦ by rwa [List.eq_of_mem_replicate hy]) h).2 x
    (List.mem_replicate.2 ⟨hn.ne', rfl⟩)

/-- The sum of one number is no nearer to zero than this number. -/
theorem abs_le_total_replicate : |amount x| ≤ |amount (total (List.replicate n x))| := by
  rcases le_total 0 (amount x) with hx | hx
  · have hle := le_total_replicate hn h (.inl rfl) (by simpa using hx)
    rw [one_mul, one_mul] at hle
    rw [abs_of_nonneg hx]
    exact hle.trans (le_abs_self _)
  · have hle := le_total_replicate hn h (.inr rfl) (by simpa using hx)
    rw [neg_one_mul, neg_one_mul] at hle
    rw [abs_of_nonpos hx]
    exact hle.trans (neg_le_abs _)

end Repeated

end BarReplay.Metrics
