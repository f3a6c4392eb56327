import BarReplay.Proofs.Rule.Tokens

/-!
# Small letters

Lowering the Latin letters of a text keeps the kind of every character: blanks, digits, letters and
word characters stay what they are, and no other character becomes or ceases to be a given sign
(`toLower_eq_iff`). So what is cut off a text by the kind of its characters is cut off the lowered
text at the same place, in characters and in bytes.
-/

namespace BarReplay

/-! ### Characters -/

namespace Text

/-- Lowering keeps a character, or makes a letter of a letter. -/
theorem toLower_eq_or (c : Char) : c.toLower = c ∨ c.isAlpha = true ∧ c.toLower.isAlpha = true := by
  by_cases h : c.isUpper = true
  · have halpha : c.isAlpha = true := by simp [Char.isAlpha, h]
    exact .inr ⟨halpha, by rw [Char.isAlpha_toLower_eq_isAlpha, halpha]⟩
  · exact .inl (Char.toLower_eq_of_not_isUpper h)

/-- What is the same for all letters is the same for a character in either case. -/
theorem congr_toLower {β : Type} {f : Char → β} {b : β}
    (h : ∀ c : Char, c.isAlpha = true → f c = b) (c : Char) : f c.toLower = f c := by
  rcases toLower_eq_or c with heq | ⟨hc, hlower⟩
  · rw [heq]
  · rw [h _ hc, h _ hlower]

theorem isBlank_toLower (c : Char) : isBlank c.toLower = isBlank c := by
  refine congr_toLower (b := false) (fun c hc ↦ ?_) c
  have hrange := Rule.toNat_of_isAlpha hc
  exact Rule.isBlank_of_printable (by omega)

theorem isLetter_toLower (c : Char) : isLetter c.toLower = isLetter c :=
  congr_toLower (fun _ hc ↦ Rule.isLetter_of_isAlpha hc) c

theorem isWordChar_toLower (c : Char) : isWordChar c.toLower = isWordChar c :=
  congr_toLower (fun _ hc ↦ Rule.isWordChar_of_isLetter (Rule.isLetter_of_isAlpha hc)) c

theorem isDigit_toLower (c : Char) : c.toLower.isDigit = c.isDigit := by
  refine congr_toLower (b := false) (fun c hc ↦ ?_) c
  have hrange := Rule.toNat_of_isAlpha hc
  rw [← Bool.not_eq_true]
  intro hdigit
  have hrange' : 48 ≤ c.toNat ∧ c.toNat ≤ 57 := Char.isDigit_iff_toNat.1 hdigit
  omega

theorem utf8Size_of_ascii {c : Char} (h : c.toNat ≤ 127) : c.utf8Size = 1 := by
  rw [Char.utf8Size_eq_one_iff, UInt32.le_iff_toNat_le]
  exact h

theorem utf8Size_toLower (c : Char) : c.toLower.utf8Size = c.utf8Size := by
  refine congr_toLower (b := 1) (fun c hc ↦ ?_) c
  have hrange := Rule.toNat_of_isAlpha hc
  exact utf8Size_of_ascii (by omega)

/-- A character that is no letter is kept, and no other character becomes it. -/
theorem toLower_eq_iff {c d : Char} (hd : d.isAlpha = false) : c.toLower = d ↔ c = d := by
  rcases toLower_eq_or c with heq | ⟨hc, hlower⟩
  · rw [heq]
  · refine iff_of_false ?_ ?_ <;> rintro rfl
    · exact Bool.false_ne_true (hd.symm.trans hlower)
    · exact Bool.false_ne_true (hd.symm.trans hc)

theorem beq_toLower {c d : Char} (hd : d.isAlpha = false) : (c.toLower == d) = (c == d) := by
  rw [Bool.eq_iff_iff, beq_iff_eq, beq_iff_eq, toLower_eq_iff hd]

/-! ### Texts -/

@[simp]
theorem asciiLower_cons (c : Char) (cs : List Char) :
    asciiLower (c :: cs) = c.toLower :: asciiLower cs :=
  rfl

theorem asciiLower_asciiLower (cs : List Char) : asciiLower (asciiLower cs) = asciiLower cs := by
  simp [asciiLower]

variable {p : Char → Bool}

theorem takeWhile_asciiLower (h : ∀ c : Char, p c.toLower = p c) (cs : List Char) :
    (asciiLower cs).takeWhile p = asciiLower (cs.takeWhile p) := by
  rw [asciiLower, List.takeWhile_map]
  exact congrArg (fun q ↦ asciiLower (cs.takeWhile q)) (funext h)

theorem dropWhile_asciiLower (h : ∀ c : Char, p c.toLower = p c) (cs : List Char) :
    (asciiLower cs).dropWhile p = asciiLower (cs.dropWhile p) := by
  rw [asciiLower, List.dropWhile_map]
  exact congrArg (fun q ↦ asciiLower (cs.dropWhile q)) (funext h)

theorem skipBlank_asciiLower (cs : List Char) :
    skipBlank (asciiLower cs) = asciiLower (skipBlank cs) :=
  dropWhile_asciiLower isBlank_toLower cs

theorem headWord_asciiLower (cs : List Char) :
    headWord (asciiLower cs) = asciiLower (headWord cs) :=
  takeWhile_asciiLower isWordChar_toLower cs

theorem afterWord_asciiLower (cs : List Char) :
    afterWord (asciiLower cs) = asciiLower (afterWord cs) :=
  dropWhile_asciiLower isWordChar_toLower cs

theorem startsWord_asciiLower (cs : List Char) :
    startsWord (asciiLower cs) = startsWord cs := by
  cases cs with
  | nil => rfl
  | cons c cs => exact isWordChar_toLower c

theorem byteLength_asciiLower (cs : List Char) : byteLength (asciiLower cs) = byteLength cs := by
  induction cs with
  | nil => rfl
  | cons c cs ih => rw [asciiLower_cons, byteLength_cons, byteLength_cons, utf8Size_toLower, ih]

theorem positionOf_asciiLower (cs rest : List Char) :
    positionOf (asciiLower cs) (asciiLower rest) = positionOf cs rest := by
  rw [positionOf, positionOf, byteLength_asciiLower, byteLength_asciiLower]

end Text

end BarReplay
