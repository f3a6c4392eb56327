import BarReplay.Decimal.Layout
import BarReplay.Proofs.Decimal.Interval
import BarReplay.Proofs.Decimal.Sign
import BarReplay.Proofs.Rule.Grammar

/-!
# Positional text

A decimal written positionally is the text of a numeral without an exponent and with the same value
(`exists_numeralText`). The decimal that is written for a finite double is nearest to it, so what a
message shows of a double stands for that double and for no other one.
-/

namespace BarReplay.Decimal

/-! ### The value of digits -/

theorem valueOf_digitsOf (n : ℕ) : valueOf (digitsOf n) = n :=
  Nat.ofDigitChars_ten_toDigits

/-- Zeros after a number scale it. -/
theorem valueOf_append_zeros (ds : List Char) (k : ℕ) :
    valueOf (ds ++ zeros k) = valueOf ds * 10 ^ k := by
  show Nat.ofDigitChars 10 (ds ++ zeros k) 0 = _
  rw [Nat.ofDigitChars_append, zeros, Nat.ofDigitChars_replicate_zero, Nat.mul_comm]
  rfl

/-- Zeros before a number do not matter. -/
theorem valueOf_zeros_append (k : ℕ) (ds : List Char) : valueOf (zeros k ++ ds) = valueOf ds := by
  show Nat.ofDigitChars 10 (zeros k ++ ds) 0 = _
  rw [Nat.ofDigitChars_append, zeros, Nat.ofDigitChars_replicate_zero, Nat.mul_zero]
  rfl

theorem allDigits_digitsOf (n : ℕ) : AllDigits (digitsOf n) :=
  fun _ hd ↦ Nat.isDigit_of_mem_toDigits (by decide) (by decide) hd

theorem allDigits_zeros (k : ℕ) : AllDigits (zeros k) := by
  intro d hd
  rw [List.eq_of_mem_replicate hd]
  rfl

theorem AllDigits.append {as bs : List Char} (ha : AllDigits as) (hb : AllDigits bs) :
    AllDigits (as ++ bs) := by
  intro d hd
  exact (List.mem_append.1 hd).elim (ha d) (hb d)

/-! ### Positional text -/

theorem numeralText_whole {whole : List Char} (hdigits : AllDigits whole) (hsome : whole ≠ []) :
    NumeralText ⟨whole, [], 0⟩ whole := by
  have h : NumeralText ⟨whole, [], 0⟩ (whole ++ [] ++ []) :=
    .mk hdigits .absent (.inl hsome) .absent
  rwa [List.append_nil, List.append_nil] at h

theorem numeralText_point {whole fraction : List Char} (hwhole : AllDigits whole)
    (hfraction : AllDigits fraction) (hsome : whole ≠ []) :
    NumeralText ⟨whole, fraction, 0⟩ (whole ++ '.' :: fraction) := by
  have h : NumeralText ⟨whole, fraction, 0⟩ (whole ++ '.' :: fraction ++ []) :=
    .mk hwhole (.point hfraction) (.inl hsome) .absent
  rwa [List.append_nil] at h

section Point

variable {ds : List Char} (hdigits : AllDigits ds)

include hdigits

/-- Digits and zeros, without a point. -/
theorem exists_numeralText_zeros (hsome : ds ≠ []) (k : ℕ) :
    ∃ n : Numeral, n.value = valueOf ds * 10 ^ (k : ℤ) ∧ NumeralText n (ds ++ zeros k) := by
  refine ⟨⟨ds ++ zeros k, [], 0⟩, ?_, ?_⟩
  · simp only [Numeral.value, List.append_nil, valueOf_append_zeros]
    push_cast
    simp
  · exact numeralText_whole (hdigits.append (allDigits_zeros k))
      (List.append_ne_nil_of_left_ne_nil hsome _)

/-- Digits with a point after some of them. -/
theorem exists_numeralText_take (hsome : ds ≠ []) {k : ℕ} (hpos : 0 < k) (hk : k ≤ ds.length) :
    ∃ n : Numeral, n.value = valueOf ds * 10 ^ (k - ds.length : ℤ) ∧
      NumeralText n (ds.take k ++ '.' :: ds.drop k) := by
  refine ⟨⟨ds.take k, ds.drop k, 0⟩, ?_, ?_⟩
  · simp only [Numeral.value, List.take_append_drop, List.length_drop]
    congr 2
    omega
  · have htake : ds.take k ≠ [] := by
      rw [Ne, List.take_eq_nil_iff]
      rintro (h | h)
      · omega
      · exact hsome h
    exact numeralText_point (fun c hc ↦ hdigits c (List.mem_of_mem_take hc))
      (fun c hc ↦ hdigits c (List.mem_of_mem_drop hc)) htake

/-- Digits after a point and zeros. -/
theorem exists_numeralText_point (k : ℕ) :
    ∃ n : Numeral, n.value = valueOf ds * 10 ^ (-(k + ds.length) : ℤ) ∧
      NumeralText n ('0' :: '.' :: zeros k ++ ds) := by
  refine ⟨⟨['0'], zeros k ++ ds, 0⟩, ?_, ?_⟩
  · have hvalue : valueOf ('0' :: (zeros k ++ ds)) = valueOf ds := valueOf_zeros_append (k + 1) ds
    have hlength : (zeros k ++ ds).length = k + ds.length := by simp [zeros]
    simp only [Numeral.value, List.cons_append, List.nil_append, hvalue, hlength]
    congr 2
    omega
  · exact numeralText_point (allDigits_zeros 1) ((allDigits_zeros k).append hdigits)
      (List.cons_ne_nil _ _)

end Point

/-- A decimal is written as a numeral with its value. -/
theorem exists_numeralText (d : Digits) :
    ∃ n : Numeral, n.value = d.value ∧ NumeralText n (positionalText false d) := by
  obtain ⟨coefficient, exponent⟩ := d
  have hdigits := allDigits_digitsOf coefficient
  have hpos : 0 < (digitsOf coefficient).length := Nat.length_toDigits_pos
  have hsome : digitsOf coefficient ≠ [] := List.ne_nil_of_length_pos hpos
  simp only [positionalText, Digits.value, Bool.false_eq_true, if_false, List.append_nil]
  have hvalue := valueOf_digitsOf coefficient
  generalize digitsOf coefficient = ds at *
  subst hvalue
  -- the point stands after all digits, between two of them, or before the first
  split_ifs with hwhole hpoint
  · obtain ⟨k, rfl⟩ := Int.eq_ofNat_of_zero_le hwhole
    exact exists_numeralText_zeros hdigits hsome k
  · obtain ⟨k, hk⟩ := Int.eq_ofNat_of_zero_le hpoint.le
    obtain rfl : exponent = k - ds.length := by omega
    rw [hk, Int.toNat_natCast]
    exact exists_numeralText_take hdigits hsome (by omega) (by omega)
  · obtain ⟨k, hk⟩ := Int.eq_ofNat_of_zero_le (a := -(ds.length + exponent)) (by omega)
    obtain rfl : exponent = -(k + ds.length) := by omega
    rw [hk, Int.toNat_natCast]
    exact exists_numeralText_point hdigits k

/-- **What a message shows of a finite double stands for it**: a numeral to which it is nearest, or
for a double with a sign, a minus sign and a numeral to which its negation is nearest. -/
theorem exists_numeralText_messageChars {x : Float} (hx : x.isFinite = true) :
    ∃ (n : Numeral) (y : Float) (text : List Char), NumeralText n text ∧ IsNearest n.value y ∧
      (messageChars x = text ∧ x = y ∨ messageChars x = '-' :: text ∧ x = -y) := by
  obtain ⟨hnan, hinf⟩ := isNaN_isInf_of_isFinite hx
  obtain ⟨n, hvalue, htext⟩ := exists_numeralText (shortest .up x)
  have hnearest := isNearestRung_shortest .up (isFinite_iff.1 hx)
  rw [← hvalue] at hnearest
  have hchars : messageChars x =
      (if isNegative x then ['-'] else []) ++ positionalText false (shortest .up x) := by
    simp only [messageChars, hnan, hinf, Bool.false_eq_true, if_false]
    rfl
  -- the digits are chosen by the magnitude alone, so they are those of the negation, too
  by_cases hsign : isNegative x = true
  · obtain ⟨y, hy, hbits⟩ := exists_neg_eq hx hsign
    rw [← hbits, ← isNearest_iff] at hnearest
    exact ⟨n, y, _, htext, hnearest, .inr ⟨by rw [hchars, if_pos hsign]; rfl, hy.symm⟩⟩
  · have hunsigned : IsUnsigned x := ⟨by simpa using hsign, hnan⟩
    have hle : x.toBits.toNat ≤ topRung := isUnsigned_iff.1 hunsigned
    have hbits : x.toBits.toNat % 2 ^ 63 = x.toBits.toNat := by
      rw [topRung] at hle
      exact Nat.mod_eq_of_lt (by omega)
    rw [hbits, ← isNearest_iff] at hnearest
    exact ⟨n, x, _, htext, hnearest, .inl ⟨by rw [hchars, if_neg hsign]; rfl, rfl⟩⟩

end BarReplay.Decimal
