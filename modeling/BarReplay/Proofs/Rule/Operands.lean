import BarReplay.Proofs.Rule.Numbers

/-!
# Comparisons and their scanner

A comparison is scanned by its two operands and the sign between them. An operand is told by its
first character: a digit, a minus sign or a point starts a number, a letter or an underscore a
field.
-/

namespace BarReplay

namespace Rule

/-! ### Fields -/

/-- A word in either letter case names the field whose name it spells. -/
theorem named?_eq_some_iff {word : List Char} {f : Field} :
    Field.named? word = some f ↔ Text.asciiLower word = f.name.toList := by
  constructor
  · intro h
    have hname := List.find?_some h
    exact (beq_iff_eq.1 hname).symm
  · intro h
    rw [Field.named?, h]
    cases f <;> rfl

theorem startsLower_name (f : Field) : StartsLower f.name.toList := by
  cases f <;> exact ⟨_, _, rfl, rfl⟩

/-- A word that starts with `c` names a field if it is scanned as one. -/
theorem yields_fieldWord_iff {c : Char} {cs rest : List Char} {f : Field}
    (hc : Text.isWordChar c = true) :
    Yields (fieldWord c cs) f rest ↔ Word f.name.toList (c :: cs) rest := by
  have hhead : Text.headWord (c :: cs) = c :: Text.headWord cs := List.takeWhile_cons_of_pos hc
  have hafter : Text.afterWord (c :: cs) = Text.afterWord cs := List.dropWhile_cons_of_pos hc
  rw [word_iff, hhead, hafter, ← named?_eq_some_iff, fieldWord]
  constructor
  · rintro ⟨hlength, h⟩
    split at h
    next field hnamed =>
      cases h
      exact ⟨hnamed, rfl⟩
    · cases h
  · rintro ⟨hnamed, rfl⟩
    split
    next field hnamed' =>
      rw [hnamed] at hnamed'
      cases hnamed'
      exact ⟨_, rfl⟩
    next hnone =>
      rw [hnamed] at hnone
      cases hnone

/-! ### Operands -/

theorem isWordChar_of_startsField {c : Char} (h : startsField c = true) :
    Text.isWordChar c = true := by
  simp only [startsField, Bool.or_eq_true] at h
  simp only [Text.isWordChar, Bool.or_eq_true]
  exact h.imp_left .inl

/-- A character that starts a number is a digit, a minus sign or a point. -/
theorem toNat_of_startsNumber {c : Char} (h : startsNumber c = true) :
    45 ≤ c.toNat ∧ c.toNat ≤ 57 := by
  simp only [startsNumber, Bool.or_eq_true, beq_iff_eq] at h
  rcases h with (hdigit | rfl) | rfl
  · have hrange : 48 ≤ c.toNat ∧ c.toNat ≤ 57 := Char.isDigit_iff_toNat.1 hdigit
    omega
  · decide
  · decide

theorem solid_number {x : Float} : Solid (Number x) := by
  intro text rest h
  obtain ⟨c, cs, rfl, hc⟩ := h.starts
  have hrange := toNat_of_startsNumber hc
  exact skipBlank_cons (isBlank_of_printable (by omega)) cs

/-- An operand is a number or a field, as its first character tells. -/
theorem yields_operand_iff {cs rest : List Char} {o : Operand Float} :
    Yields (operand cs) o rest ↔ ∃ c text, Text.skipBlank cs = c :: text ∧
      ((startsNumber c = true ∧ ∃ x, o = .constant x ∧ Yields (number (c :: text)) x rest) ∨
       (startsNumber c = false ∧ startsField c = true ∧
        ∃ f, o = .field f ∧ Yields (fieldWord c text) f rest)) := by
  unfold operand
  split
  next hskip => simp [hskip]
  next c text hskip =>
    simp only [hskip, List.cons.injEq, exists_and_left, exists_eq_left', and_assoc]
    split
    next hnumber => simp [hnumber, yields_bind_iff, Rest.through]
    next hnumber =>
      split
      next hfield => simp [hnumber, hfield, yields_bind_iff, Rest.through]
      next hfield => simp [hnumber, hfield]

/-- What is scanned as an operand is one. -/
theorem Side.of_yields {cs rest : List Char} {o : Operand Float} (h : Yields (operand cs) o rest) :
    Side o cs rest := by
  obtain ⟨c, text, hskip, ⟨-, x, rfl, hx⟩ | ⟨-, hc, f, rfl, hf⟩⟩ := yields_operand_iff.1 h
  · have hnumber : Number x (Text.skipBlank cs) rest := hskip ▸ Number.of_yields hx
    exact .constant ((spaced_iff solid_number).2 hnumber)
  · rw [yields_fieldWord_iff (isWordChar_of_startsField hc), ← hskip] at hf
    exact .field ((spaced_iff (solid_word (startsLower_name f))).2 hf)

/-- An operand that no point follows is scanned as a whole. -/
theorem Side.yields {cs rest : List Char} {o : Operand Float} (h : Side o cs rest)
    (hpoint : rest.head? ≠ some '.') : Yields (operand cs) o rest := by
  rw [yields_operand_iff]
  cases h with
  | field word =>
    rename_i f
    rw [spaced_iff (solid_word (startsLower_name f))] at word
    obtain ⟨c, text, hskip, hc⟩ := word.starts (startsLower_name f)
    have hletter : Text.isLetter c = true := isLetter_of_isAlpha hc
    have hfield : startsField c = true := by simp [startsField, hletter]
    have hnumber : startsNumber c = false := by
      by_contra hnumber
      have hrange := toNat_of_isAlpha hc
      have hrange' := toNat_of_startsNumber (by simpa using hnumber)
      omega
    rw [hskip, ← yields_fieldWord_iff (isWordChar_of_startsField hfield)] at word
    exact ⟨c, text, hskip, .inr ⟨hnumber, hfield, f, rfl, word⟩⟩
  | constant number =>
    rename_i x
    rw [spaced_iff solid_number] at number
    obtain ⟨c, text, hskip, hc⟩ := number.starts
    have hyields := number.yields hpoint
    rw [hskip] at hyields
    exact ⟨c, text, hskip, .inl ⟨hc, x, rfl, hyields⟩⟩

/-! ### Comparisons -/

/-- A comparison sign is scanned off the text without its blanks. -/
theorem yields_comparisonSign_iff {cs rest : List Char} {sign : Comparison} :
    Yields (comparisonSign cs) sign rest ↔ sign? (Text.skipBlank cs) = some (sign, rest) := by
  simp only [comparisonSign]
  split
  next sign' rest' hsign =>
    rw [yields_ok_iff]
    simp only [hsign, Option.some.injEq, Prod.mk.injEq]
    exact and_congr eq_comm eq_comm
  next hnone => simp [hnone]

/-- A comparison is two operands and the sign between them, one of them a field. -/
theorem yields_comparison_iff {cs rest : List Char} {e : Expr Float} :
    Yields (comparison cs) e rest ↔ ∃ left cs' sign cs'' right, Yields (operand cs) left cs' ∧
      Yields (comparisonSign cs') sign cs'' ∧ Yields (operand cs'') right rest ∧
      ¬ (IsConstant left ∧ IsConstant right) ∧ e = .compare left sign right := by
  simp only [comparison, yields_bind_iff]
  constructor
  · rintro ⟨left, cs', hleft, sign, cs'', hsign, right, rest', hright, h⟩
    refine ⟨left, cs', sign, cs'', right, hleft, hsign, ?_⟩
    split at h
    · exact absurd h not_yields_error
    next hreads =>
      obtain ⟨rfl, rfl⟩ := yields_ok_iff.1 h
      refine ⟨hright, ?_, rfl⟩
      rintro ⟨⟨x, hx⟩, y, hy⟩
      exact hreads x y hx hy
  · rintro ⟨left, cs', sign, cs'', right, hleft, hsign, hright, hreads, rfl⟩
    refine ⟨left, cs', hleft, sign, cs'', hsign, right, rest, hright, ?_⟩
    split
    next x y => exact absurd ⟨⟨x, rfl⟩, y, rfl⟩ hreads
    · exact yields_ok_iff.2 ⟨rfl, rfl⟩

/-- What is scanned as a comparison is one. -/
theorem Derives.of_comparison {cs rest : List Char} {e : Expr Float}
    (h : Yields (comparison cs) e rest) : Derives .factor cs e rest := by
  obtain ⟨left, cs', sign, cs'', right, hleft, hsign, hright, hreads, rfl⟩ :=
    yields_comparison_iff.1 h
  have hbetween := eq_of_sign? (yields_comparisonSign_iff.1 hsign)
  exact .compare (.of_yields hleft) ((spaced_symbol_iff (startsPrintable_sign sign)).2 hbetween)
    (.of_yields hright) hreads

/-- A text with an operand at its head starts with a letter or with a number. -/
theorem Side.starts {cs rest : List Char} {o : Operand Float} (h : Side o cs rest) :
    ∃ c text, Text.skipBlank cs = c :: text ∧ (c.isAlpha = true ∨ startsNumber c = true) := by
  cases h with
  | field word =>
    obtain ⟨c, text, hskip, hc⟩ := starts_of_word (startsLower_name _) word
    exact ⟨c, text, hskip, .inl hc⟩
  | constant number =>
    rw [spaced_iff solid_number] at number
    obtain ⟨c, text, hskip, hc⟩ := number.starts
    exact ⟨c, text, hskip, .inr hc⟩

/-- A text with an operand at its head starts with no other character. -/
theorem Side.head?_ne {cs rest : List Char} {o : Operand Float} {c : Char} (h : Side o cs rest)
    (halpha : c.isAlpha = false) (hnumber : startsNumber c = false) :
    (Text.skipBlank cs).head? ≠ some c := by
  obtain ⟨d, text, hskip, hd⟩ := h.starts
  rw [hskip]
  rintro ⟨⟩
  rw [halpha, hnumber] at hd
  simp at hd

/-- There is no keyword where an operand stands, unless it is the name of a field. -/
theorem Side.keyword? {word cs rest : List Char} {o : Operand Float} (h : Side o cs rest)
    (hword : IsSmall word) (hname : word ∉ Field.all.map fun f ↦ f.name.toList) :
    Rule.keyword? word cs = none := by
  cases h with
  | @field f _ _ other =>
    have hne : word ≠ f.name.toList := fun heq ↦
      hname (List.mem_map.2 ⟨f, Field.mem_all f, heq.symm⟩)
    exact keyword?_eq_none_of_word hword (startsLower_name f) hne other
  | constant number =>
    rw [spaced_iff solid_number] at number
    obtain ⟨c, text, hskip, hc⟩ := number.starts
    apply keyword?_eq_none_of_head hword
    rw [hskip]
    rintro d ⟨⟩
    by_contra halpha
    have hrange := toNat_of_startsNumber hc
    have hrange' := toNat_of_isAlpha (c := c) (by simpa using halpha)
    omega

/-- No point stands before a comparison sign. -/
theorem head?_ne_of_sign {cs rest : List Char} {sign : Comparison}
    (h : Spaced (Symbol sign.sign.toList) cs rest) : cs.head? ≠ some '.' := by
  rw [spaced_symbol_iff (startsPrintable_sign sign)] at h
  apply head?_ne_of_skipBlank (by decide)
  rw [h]
  cases sign <;> rintro ⟨⟩

/-- A comparison that no point follows is scanned as a whole. -/
theorem yields_comparison {cs cs' cs'' rest : List Char} {left right : Operand Float}
    {sign : Comparison} (first : Side left cs cs')
    (between : Spaced (Symbol sign.sign.toList) cs' cs'') (second : Side right cs'' rest)
    (reads : ¬ (IsConstant left ∧ IsConstant right)) (hpoint : rest.head? ≠ some '.') :
    Yields (comparison cs) (.compare left sign right) rest := by
  have hleft := first.yields (head?_ne_of_sign between)
  have hsign : Yields (comparisonSign cs') sign cs'' := by
    rw [yields_comparisonSign_iff, (spaced_symbol_iff (startsPrintable_sign sign)).1 between]
    exact sign?_append (head?_ne_of_skipBlank (by decide) (second.head?_ne (by decide) (by decide)))
  exact yields_comparison_iff.2
    ⟨left, cs', sign, cs'', right, hleft, hsign, second.yields hpoint, reads, rfl⟩

end Rule

end BarReplay
