import BarReplay.Proofs.Decimal.Reading
import BarReplay.Proofs.Rule.Tokens

/-!
# Numbers and their scanner

What is scanned as a number is one in the grammar, and its value is the nearest double. The grammar
also lets a number be cut short, but only before a point: anywhere else the number goes on with a
word character. So a number that no point follows is scanned as a whole.
-/

namespace BarReplay

/-! ### Numerals -/

namespace Decimal

/-- A text that does not start with a digit. -/
def NoDigit (cs : List Char) : Prop :=
  cs.head?.any Char.isDigit = false

theorem scanDigits_append {ds rest : List Char} (h : AllDigits ds) (hrest : NoDigit rest) :
    scanDigits (ds ++ rest) = (ds, rest) := by
  rw [scanDigits, takeWhile_run h hrest, dropWhile_run h hrest]

theorem scanDigits_sound {cs ds rest : List Char} (h : scanDigits cs = (ds, rest)) :
    cs = ds ++ rest ∧ AllDigits ds := by
  obtain ⟨rfl, rfl⟩ := Prod.mk.inj h
  exact ⟨List.takeWhile_append_dropWhile.symm, fun d hd ↦ List.mem_takeWhile_imp hd⟩

theorem scanFraction_sound {cs ds rest : List Char} (h : scanFraction cs = (ds, rest)) :
    ∃ point, cs = point ++ rest ∧ FractionText ds point := by
  unfold scanFraction at h
  split at h
  · obtain ⟨rfl, hds⟩ := scanDigits_sound h
    exact ⟨_, rfl, .point hds⟩
  · obtain ⟨rfl, rfl⟩ := Prod.mk.inj h
    exact ⟨[], rfl, .absent⟩

theorem scanExponent?_sound {c : Char} {cs rest : List Char} {n : ℤ} (hc : c = 'e' ∨ c = 'E')
    (h : scanExponent? cs = some (n, rest)) :
    ∃ text, c :: cs = text ++ rest ∧ ExponentText n text := by
  unfold scanExponent? at h
  split at h
  next negative ds hsign =>
    split at h
    · cases h
    next hsome hscan =>
      obtain ⟨hds, hdigits⟩ := scanDigits_sound hscan
      simp only [Option.some.injEq, Prod.mk.injEq] at h
      obtain ⟨rfl, rfl⟩ := h
      split at hsign <;> cases hsign <;> subst hds
      · exact ⟨_, rfl, .minus hc hdigits hsome⟩
      · exact ⟨_, rfl, .plus hc hdigits hsome⟩
      · exact ⟨_, rfl, .unsigned hc hdigits hsome⟩

/-- An exponent is scanned as a whole if no digit goes on after it. -/
theorem scanExponent?_append {n : ℤ} {text rest : List Char} (h : ExponentText n text)
    (hsome : text ≠ []) (hrest : NoDigit rest) :
    ∃ c cs, text = c :: cs ∧ (c = 'e' ∨ c = 'E') ∧ scanExponent? (cs ++ rest) = some (n, rest) := by
  cases h
  case absent => exact absurd rfl hsome
  case unsigned c ds letter digits some =>
    obtain ⟨d, ds, rfl⟩ := List.exists_cons_of_ne_nil some
    have hd : d.isDigit = true := digits d List.mem_cons_self
    have hminus : d ≠ '-' := by rintro rfl; exact absurd hd (by decide)
    have hplus : d ≠ '+' := by rintro rfl; exact absurd hd (by decide)
    refine ⟨c, d :: ds, rfl, letter, ?_⟩
    have hscan := scanDigits_append digits hrest
    simp only [List.cons_append] at hscan ⊢
    simp [scanExponent?, hminus, hplus, hscan]
  case plus c ds letter digits some =>
    obtain ⟨d, ds, rfl⟩ := List.exists_cons_of_ne_nil some
    refine ⟨c, '+' :: d :: ds, rfl, letter, ?_⟩
    simp only [scanExponent?, List.cons_append]
    rw [← List.cons_append, scanDigits_append digits hrest]
    rfl
  case minus c ds letter digits some =>
    obtain ⟨d, ds, rfl⟩ := List.exists_cons_of_ne_nil some
    refine ⟨c, '-' :: d :: ds, rfl, letter, ?_⟩
    simp only [scanExponent?, List.cons_append]
    rw [← List.cons_append, scanDigits_append digits hrest]
    rfl

/-- A fraction is scanned as a whole if no digit goes on after it, and no point follows when it is
absent. -/
theorem scanFraction_append {ds point rest : List Char} (h : FractionText ds point)
    (hrest : NoDigit rest) (hpoint : point = [] → rest.head? ≠ some '.') :
    scanFraction (point ++ rest) = (ds, rest) := by
  cases h
  case absent =>
    have hne := hpoint rfl
    cases rest with
    | nil => rfl
    | cons c cs =>
      have hc : c ≠ '.' := fun heq ↦ hne (by rw [heq]; rfl)
      simp [scanFraction, hc]
  case point digits => exact scanDigits_append digits hrest

/-- What is scanned as a numeral is the text of one. -/
theorem Numeral.scan?_sound {cs rest : List Char} {n : Numeral}
    (h : Numeral.scan? cs = some (n, rest)) : ∃ text, cs = text ++ rest ∧ NumeralText n text := by
  unfold Numeral.scan? at h
  obtain ⟨whole, afterWhole, hwhole⟩ : ∃ w r, scanDigits cs = (w, r) := ⟨_, _, rfl⟩
  obtain ⟨fraction, afterFraction, hfraction⟩ : ∃ f r, scanFraction afterWhole = (f, r) :=
    ⟨_, _, rfl⟩
  obtain ⟨rfl, wholeDigits⟩ := scanDigits_sound hwhole
  obtain ⟨point, rfl, fractionText⟩ := scanFraction_sound hfraction
  simp only [hwhole, hfraction] at h
  split at h
  · cases h
  next hsome =>
    have hdigits : whole ≠ [] ∨ fraction ≠ [] := by
      simpa [List.isEmpty_iff, imp_iff_not_or] using hsome
    have hbare : NumeralText ⟨whole, fraction, 0⟩ (whole ++ point ++ []) :=
      .mk wholeDigits fractionText hdigits .absent
    rw [List.append_nil] at hbare
    split at h
    next c tail =>
      split at h
      next hletter =>
        have hc : c = 'e' ∨ c = 'E' := by simpa using hletter
        split at h
        next exponent rest' hexponent =>
          obtain ⟨scale, hscale, exponentText⟩ := scanExponent?_sound hc hexponent
          cases h
          refine ⟨whole ++ point ++ scale, ?_, .mk wholeDigits fractionText hdigits exponentText⟩
          rw [hscale, List.append_assoc, List.append_assoc]
        · cases h
          exact ⟨whole ++ point, (List.append_assoc ..).symm, hbare⟩
      · cases h
        exact ⟨whole ++ point, (List.append_assoc ..).symm, hbare⟩
    · cases h
      exact ⟨whole ++ point, (List.append_assoc ..).symm, hbare⟩

/-- A digit is a word character, so where no word goes on no digit does. -/
theorem noDigit_of_startsWord {rest : List Char} (h : Text.startsWord rest = false) :
    NoDigit rest := by
  cases rest with
  | nil => rfl
  | cons c cs =>
    have hword : Text.isWordChar c = false := h
    by_contra hdigit
    have hc : c.isDigit = true := by simpa [NoDigit] using hdigit
    have hrange : 48 ≤ c.toNat ∧ c.toNat ≤ 57 := Char.isDigit_iff_toNat.1 hc
    have hascii : c.toNat < 0x80 := by omega
    simp [Text.isWordChar, Text.isNumeral_of_ascii hascii, hc] at hword

/-- An exponent and what follows it start neither with a digit nor with a point. -/
theorem ExponentText.starts {n : ℤ} {text rest : List Char} (h : ExponentText n text)
    (hrest : NoDigit rest) (hpoint : rest.head? ≠ some '.') :
    NoDigit (text ++ rest) ∧ (text ++ rest).head? ≠ some '.' := by
  by_cases hsome : text = []
  · rw [hsome]
    exact ⟨hrest, hpoint⟩
  · obtain ⟨c, cs, rfl, rfl | rfl, -⟩ := scanExponent?_append h hsome hrest
    · exact ⟨rfl, by simp⟩
    · exact ⟨rfl, by simp⟩

/-- The text of a numeral is scanned as a whole if no word goes on after it and no point follows. -/
theorem Numeral.scan?_append {n : Numeral} {text rest : List Char} (h : NumeralText n text)
    (hends : Text.startsWord rest = false) (hpoint : rest.head? ≠ some '.') :
    Numeral.scan? (text ++ rest) = some (n, rest) := by
  obtain ⟨whole, fraction, exponent⟩ := n
  obtain @⟨point, scale, wholeDigits, fractionText, digits, exponentText⟩ := h
  simp only at wholeDigits fractionText digits exponentText
  have hrest : NoDigit rest := noDigit_of_startsWord hends
  obtain ⟨hdigit, hhead⟩ := exponentText.starts hrest hpoint
  have hafter : NoDigit (point ++ (scale ++ rest)) := by
    cases fractionText
    case absent => exact hdigit
    case point => rfl
  have hwhole := scanDigits_append wholeDigits hafter
  have hfraction := scanFraction_append fractionText hdigit fun _ ↦ hhead
  have hempty : ¬ (whole.isEmpty && fraction.isEmpty) = true := by
    simpa [List.isEmpty_iff, imp_iff_not_or] using digits
  simp only [Numeral.scan?, List.append_assoc, hwhole, hfraction, if_neg hempty]
  -- without an exponent, what follows must not start like one
  by_cases hsome : scale = []
  · subst hsome
    cases exponentText
    cases rest with
    | nil => rfl
    | cons c cs =>
      have hword : Text.isWordChar c = false := hends
      have hletter : ¬ (c == 'e' || c == 'E') = true := by
        intro hc
        have hc' : c = 'e' ∨ c = 'E' := by simpa using hc
        rcases hc' with rfl | rfl <;> exact absurd hword (by decide)
      simp only [List.nil_append, if_neg hletter]
  · obtain ⟨c, cs, rfl, hc, hscan⟩ := scanExponent?_append exponentText hsome hrest
    have hletter : (c == 'e' || c == 'E') = true := by simpa using hc
    simp only [List.cons_append, if_pos hletter, hscan]

end Decimal

/-- The text of a numeral starts with a digit or a point. -/
theorem Decimal.NumeralText.starts {n : Decimal.Numeral} {text : List Char}
    (h : Decimal.NumeralText n text) :
    ∃ c cs, text = c :: cs ∧ (c.isDigit = true ∨ c = '.') := by
  obtain ⟨whole, fraction, exponent⟩ := n
  obtain ⟨wholeDigits, fractionText, digits, -⟩ := h
  simp only at wholeDigits fractionText digits
  cases whole with
  | cons d ds => exact ⟨d, _, rfl, .inl (wholeDigits d List.mem_cons_self)⟩
  | nil =>
    cases fractionText
    case absent => simp at digits
    case point => exact ⟨'.', _, rfl, .inr rfl⟩

/-- A numeral is no word, in either letter case. -/
theorem Decimal.NumeralText.asciiLower_ne {n : Decimal.Numeral} {text ds : List Char} {d : Char}
    (h : Decimal.NumeralText n text) (hd : d.isLower = true) : Text.asciiLower text ≠ d :: ds := by
  obtain ⟨c, more, rfl, hc⟩ := h.starts
  have hrange : c.toNat ≤ 57 := by
    rcases hc with hdigit | rfl
    · exact (Char.isDigit_iff_toNat.1 hdigit).2
    · decide
  intro heq
  obtain ⟨hlow, -⟩ := List.cons.inj heq
  rw [← hlow, Char.isLower_toLower_eq_isAlpha] at hd
  have hletter := Rule.toNat_of_isAlpha hd
  omega

/-- A text that starts like none of the names of special values is read as a numeral. -/
theorem Decimal.readUnsigned?_of_no_name {chars : List Char}
    (h : ∀ (d : Char) (ds : List Char), d.isLower = true → Text.asciiLower chars ≠ d :: ds) :
    Decimal.readUnsigned? chars = (Decimal.Numeral.scan? chars).bind fun scanned ↦
      if scanned.2 = [] then some scanned.1.toFloat else none := by
  have hinf : Text.asciiLower chars ≠ "inf".toList := h _ _ rfl
  have hinfinity : Text.asciiLower chars ≠ "infinity".toList := h _ _ rfl
  have hnan : Text.asciiLower chars ≠ "nan".toList := h _ _ rfl
  simp only [Decimal.readUnsigned?, String.ofList_eq]
  rw [if_neg (not_or.2 ⟨hinf, hinfinity⟩), if_neg hnan]
  rcases Decimal.Numeral.scan? chars with - | ⟨n, - | ⟨c, rest⟩⟩ <;> rfl

/-- The text of a numeral is read as a number without a sign. -/
theorem Decimal.readUnsigned?_eq {n : Decimal.Numeral} {chars : List Char}
    (h : Decimal.NumeralText n chars) : Decimal.readUnsigned? chars = some n.toFloat := by
  have hscan : Decimal.Numeral.scan? chars = some (n, []) := by
    simpa using @Decimal.Numeral.scan?_append n chars [] h rfl (by simp)
  rw [Decimal.readUnsigned?_of_no_name fun d ds ↦ h.asciiLower_ne, hscan]
  rfl

namespace Rule

/-! ### Numbers -/

open Decimal (Numeral NumeralText)

/-- A number is a numeral after a sign or none, and no word goes on after it. -/
theorem yields_number_iff {cs rest : List Char} {x : Float} :
    Yields (number cs) x rest ↔ ∃ n, Numeral.scan? (minus cs).2 = some (n, rest) ∧
      Text.startsWord rest = false ∧ x = if (minus cs).1 then -n.toFloat else n.toFloat := by
  unfold number
  constructor
  · rintro ⟨hlength, h⟩
    split at h
    · cases h
    next n rest' hscan =>
      split at h
      · cases h
      next hends =>
        cases h
        exact ⟨n, hscan, by simpa using hends, rfl⟩
  · rintro ⟨n, hscan, hends, rfl⟩
    have hlength : rest.length < cs.length :=
      Nat.lt_of_lt_of_le (Numeral.scan?_length hscan) (minus_length_le cs)
    refine ⟨hlength, ?_⟩
    split
    next hnone =>
      rw [hnone] at hscan
      cases hscan
    next n' rest' hscan' =>
      rw [hscan'] at hscan
      cases hscan
      rw [if_neg (by simp [hends])]

/-- What is scanned as a number is one. -/
theorem Number.of_yields {cs rest : List Char} {x : Float} (h : Yields (number cs) x rest) :
    Number x cs rest := by
  obtain ⟨n, hscan, hends, rfl⟩ := yields_number_iff.1 h
  obtain ⟨text, htext, hnumeral⟩ := Numeral.scan?_sound hscan
  have hnearest := n.isNearest_toFloat
  unfold minus at htext ⊢
  split at htext
  · subst htext
    exact .negative hnumeral hends hnearest
  · subst htext
    exact .unsigned hnumeral hends hnearest

/-- A number that no point follows is scanned as a whole. -/
theorem Number.yields {text rest : List Char} {x : Float} (h : Number x text rest)
    (hpoint : rest.head? ≠ some '.') : Yields (number text) x rest := by
  rw [yields_number_iff]
  cases h with
  | unsigned spelled ends nearest =>
    have hscan := Numeral.scan?_append spelled ends hpoint
    obtain ⟨c, cs, rfl, hc⟩ := spelled.starts
    have hne : c ≠ '-' := by rintro rfl; exact absurd hc (by decide)
    have hminus : minus (c :: cs ++ rest) = (false, c :: cs ++ rest) := by simp [minus, hne]
    rw [hminus]
    exact ⟨_, hscan, ends, nearest.eq (Numeral.isNearest_toFloat _)⟩
  | negative spelled ends nearest =>
    have hscan := Numeral.scan?_append spelled ends hpoint
    exact ⟨_, hscan, ends, congrArg (- ·) (nearest.eq (Numeral.isNearest_toFloat _))⟩

/-- A number starts with a digit, a minus sign or a point. -/
theorem Number.starts {text rest : List Char} {x : Float} (h : Number x text rest) :
    ∃ c cs, text = c :: cs ∧ startsNumber c = true := by
  cases h with
  | unsigned spelled =>
    obtain ⟨c, cs, rfl, hc⟩ := spelled.starts
    refine ⟨c, cs ++ rest, rfl, ?_⟩
    rcases hc with hc | rfl
    · simp [startsNumber, hc]
    · rfl
  | negative => exact ⟨'-', _, rfl, rfl⟩

end Rule

end BarReplay
