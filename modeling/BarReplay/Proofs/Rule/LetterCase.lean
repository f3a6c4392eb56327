import BarReplay.Proofs.Rule.Positions
import BarReplay.Proofs.Text.SmallLetters

/-!
# Letter case in rules

A rule reads the same whatever the case of its Latin letters. Lowering all of them keeps the kind of
every character: blanks, digits, word characters, brackets and signs stay what they are, and so do
the lengths of texts in characters and in bytes. So each part of the reader takes from the lowered
text the lowered part that it takes from the text, and stops where it stops there. What a refusal
quotes from the text is lowered with it (`ParseFault.lowered`), and that is all the difference.

Two texts that differ only in case are lowered to the same text, so they are read alike
(`Expr.parse_case_blind`).
-/

namespace BarReplay

/-! ### Refusals -/

/-- The fault with all that it quotes in small letters. -/
def ParseFault.lowered : ParseFault → ParseFault
  | emptyRule => emptyRule
  | unclosed found => unclosed (found.map Char.toLower)
  | constantComparison => constantComparison
  | missingSign found => missingSign (found.map Text.asciiLower)
  | unknownField word => unknownField (Text.asciiLower word)
  | missingOperand found => missingOperand (found.map Text.asciiLower)
  | missingDigits => missingDigits
  | invalidNumber text => invalidNumber (Text.asciiLower text)
  | trailing found => trailing (found.map Text.asciiLower)

/-- The refusal of the text in small letters. -/
def Stop.lowered (stop : Stop) : Stop :=
  ⟨stop.fault.lowered, Text.asciiLower stop.rest⟩

namespace Rule

section Lowered

variable {β γ : Type}

/-- What is taken and left of the text in small letters, or why it is refused. -/
def lowered : Except Stop (β × List Char) → Except Stop (β × List Char)
  | .ok (b, rest) => .ok (b, Text.asciiLower rest)
  | .error stop => .error stop.lowered

@[simp]
theorem lowered_ok (b : β) (rest : List Char) :
    lowered (.ok (b, rest)) = .ok (b, Text.asciiLower rest) :=
  rfl

/-- Two parts in a row. -/
theorem lowered_bind {x : Except Stop (β × List Char)}
    {f g : β × List Char → Except Stop (γ × List Char)}
    (h : ∀ b rest, x = .ok (b, rest) → g (b, Text.asciiLower rest) = lowered (f (b, rest))) :
    lowered x >>= g = lowered (x >>= f) := by
  rcases x with stop | ⟨b, rest⟩
  · rfl
  · exact h b rest rfl

theorem lowered_map (f : β → γ) (x : Except Stop (β × List Char)) :
    (lowered x).map (fun taken ↦ (f taken.1, taken.2)) =
      lowered (x.map fun taken ↦ (f taken.1, taken.2)) := by
  rcases x with stop | ⟨b, rest⟩ <;> rfl

end Lowered

/-! ### Leaves -/

theorem glimpse_asciiLower (cs : List Char) :
    glimpse (Text.asciiLower cs) = (glimpse cs).map Text.asciiLower := by
  have hword := Text.headWord_asciiLower cs
  cases cs with
  | nil => rfl
  | cons c cs =>
    rw [Text.asciiLower_cons] at hword ⊢
    simp only [glimpse, hword]
    cases Text.headWord (c :: cs) <;> rfl

theorem keyword?_asciiLower (word cs : List Char) :
    keyword? word (Text.asciiLower cs) = (keyword? word cs).map Text.asciiLower := by
  rw [keyword?, keyword?, Text.skipBlank_asciiLower]
  generalize Text.skipBlank cs = text
  have htake : (Text.asciiLower text).take word.length = Text.asciiLower (text.take word.length) :=
    List.map_take.symm
  have hdrop : (Text.asciiLower text).drop word.length = Text.asciiLower (text.drop word.length) :=
    List.map_drop.symm
  simp only [htake, hdrop, Text.asciiLower_asciiLower, Text.startsWord_asciiLower]
  split_ifs <;> rfl

theorem head?_asciiLower_eq_iff {cs : List Char} {d : Char} (hd : d.isAlpha = false) :
    (Text.asciiLower cs).head? = some d ↔ cs.head? = some d := by
  cases cs with
  | nil => rfl
  | cons c cs =>
    show some c.toLower = some d ↔ some c = some d
    rw [Option.some_inj, Option.some_inj, Text.toLower_eq_iff hd]

/-- Whether a comparison sign stands at the head of a text is said by its first two characters. -/
theorem sign?_cons (c : Char) (cs : List Char) : sign? (c :: cs) =
    if cs.head? = some '=' then
      if c = '<' then some (.le, cs.tail)
      else if c = '>' then some (.ge, cs.tail)
      else if c = '=' then some (.eq, cs.tail)
      else if c = '!' then some (.ne, cs.tail)
      else none
    else if c = '<' then some (.lt, cs)
    else if c = '>' then some (.gt, cs)
    else none := by
  split_ifs with hequals hlt hgt heq hne hlt hgt
  · obtain ⟨rest, rfl⟩ := List.head?_eq_some_iff.1 hequals
    rw [hlt]
    rfl
  · obtain ⟨rest, rfl⟩ := List.head?_eq_some_iff.1 hequals
    rw [hgt]
    rfl
  · obtain ⟨rest, rfl⟩ := List.head?_eq_some_iff.1 hequals
    rw [heq]
    rfl
  · obtain ⟨rest, rfl⟩ := List.head?_eq_some_iff.1 hequals
    rw [hne]
    rfl
  · simp [sign?, hlt, hgt, heq, hne]
  · rw [hlt]
    exact @sign?_append .lt _ hequals
  · rw [hgt]
    exact @sign?_append .gt _ hequals
  · cases cs with
    | nil => simp [sign?, hlt, hgt]
    | cons d cs =>
      have hd : d ≠ '=' := by simpa using hequals
      simp [sign?, hlt, hgt, hd]

theorem sign?_asciiLower (cs : List Char) :
    sign? (Text.asciiLower cs) = (sign? cs).map fun found ↦ (found.1, Text.asciiLower found.2) := by
  cases cs with
  | nil => rfl
  | cons c cs =>
    have htail : (Text.asciiLower cs).tail = Text.asciiLower cs.tail := List.map_tail.symm
    rw [Text.asciiLower_cons, sign?_cons, sign?_cons]
    simp only [head?_asciiLower_eq_iff (d := '=') rfl, Text.toLower_eq_iff (d := '<') rfl,
      Text.toLower_eq_iff (d := '>') rfl, Text.toLower_eq_iff (d := '=') rfl,
      Text.toLower_eq_iff (d := '!') rfl, htail]
    split_ifs <;> rfl

end Rule

/-! ### Numbers -/

namespace Decimal

open Text (asciiLower)

theorem asciiLower_of_allDigits {ds : List Char} (h : AllDigits ds) : asciiLower ds = ds := by
  conv_rhs => rw [← List.map_id ds]
  refine List.map_congr_left fun d hd ↦ ?_
  have hdigit : d.isAlpha = false := by
    by_contra halpha
    have hrange := Rule.toNat_of_isAlpha (by simpa using halpha)
    have hrange' : 48 ≤ d.toNat ∧ d.toNat ≤ 57 := Char.isDigit_iff_toNat.1 (h d hd)
    omega
  exact (Text.toLower_eq_iff hdigit).2 rfl

theorem scanDigits_asciiLower (cs : List Char) :
    scanDigits (asciiLower cs) = ((scanDigits cs).1, asciiLower (scanDigits cs).2) := by
  rw [scanDigits, scanDigits, Text.takeWhile_asciiLower Text.isDigit_toLower,
    Text.dropWhile_asciiLower Text.isDigit_toLower]
  have hdigits : AllDigits (cs.takeWhile Char.isDigit) := fun d hd ↦ List.mem_takeWhile_imp hd
  rw [asciiLower_of_allDigits hdigits]

/-- Whether a fraction stands at the head of a text is said by its first character. -/
theorem scanFraction_cons (c : Char) (cs : List Char) :
    scanFraction (c :: cs) = if c = '.' then scanDigits cs else ([], c :: cs) := by
  split_ifs with hpoint
  · rw [hpoint]
    rfl
  · simp [scanFraction, hpoint]

theorem scanFraction_asciiLower (cs : List Char) :
    scanFraction (asciiLower cs) = ((scanFraction cs).1, asciiLower (scanFraction cs).2) := by
  cases cs with
  | nil => rfl
  | cons c cs =>
    rw [Text.asciiLower_cons, scanFraction_cons, scanFraction_cons]
    simp only [Text.toLower_eq_iff (d := '.') rfl]
    split_ifs
    · exact scanDigits_asciiLower cs
    · rfl

/-- The sign of an exponent is said by the first character after its letter. -/
theorem scanExponent?_cons (c : Char) (cs : List Char) : scanExponent? (c :: cs) =
    match scanDigits (if c = '-' ∨ c = '+' then cs else c :: cs) with
    | ([], _) => none
    | (ds, rest) => some (if c = '-' then -(valueOf ds : ℤ) else valueOf ds, rest) := by
  by_cases hminus : c = '-'
  · subst hminus
    rfl
  by_cases hplus : c = '+'
  · subst hplus
    rfl
  · rcases hdigits : scanDigits (c :: cs) with ⟨- | ⟨d, ds⟩, rest⟩ <;>
      simp [scanExponent?, hminus, hplus, hdigits]

theorem scanExponent?_asciiLower (cs : List Char) : scanExponent? (asciiLower cs) =
    (scanExponent? cs).map fun found ↦ (found.1, asciiLower found.2) := by
  cases cs with
  | nil => rfl
  | cons c cs =>
    have hdigits : (if c = '-' ∨ c = '+' then asciiLower cs else c.toLower :: asciiLower cs) =
        asciiLower (if c = '-' ∨ c = '+' then cs else c :: cs) := by
      split_ifs <;> rfl
    rw [Text.asciiLower_cons, scanExponent?_cons, scanExponent?_cons]
    simp only [Text.toLower_eq_iff (d := '-') rfl, Text.toLower_eq_iff (d := '+') rfl, hdigits,
      scanDigits_asciiLower]
    rcases scanDigits (if c = '-' ∨ c = '+' then cs else c :: cs) with ⟨- | ⟨d, ds⟩, rest⟩ <;> rfl

/-- The letter of an exponent is lowered to the letter of an exponent. -/
theorem exponentLetter_toLower (c : Char) :
    (c.toLower == 'e' || c.toLower == 'E') = (c == 'e' || c == 'E') := by
  by_cases hupper : c.isUpper = true
  · have hrange : 65 ≤ c.toNat ∧ c.toNat ≤ 90 := by
      simpa [Char.isUpper, UInt32.le_iff_toNat_le] using hupper
    have hlower : c.toLower.toNat = c.toNat + 32 := by
      rw [Char.toLower_eq_of_isUpper hupper, Char.toNat_ofNat, if_pos (.inl (by omega))]
    rw [Bool.eq_iff_iff]
    simp only [Bool.or_eq_true, beq_iff_eq, ← Char.toNat_inj, hlower]
    show c.toNat + 32 = 101 ∨ c.toNat + 32 = 69 ↔ c.toNat = 101 ∨ c.toNat = 69
    omega
  · rw [Char.toLower_eq_of_not_isUpper hupper]

theorem Numeral.scan?_asciiLower (cs : List Char) : Numeral.scan? (asciiLower cs) =
    (Numeral.scan? cs).map fun found ↦ (found.1, asciiLower found.2) := by
  simp only [Numeral.scan?, scanDigits_asciiLower, scanFraction_asciiLower]
  split_ifs with hempty
  · rfl
  rcases (scanFraction (scanDigits cs).2).2 with - | ⟨c, rest⟩
  · rfl
  · simp only [Text.asciiLower_cons, exponentLetter_toLower, scanExponent?_asciiLower]
    split_ifs
    · rcases scanExponent? rest with - | ⟨n, r⟩ <;> rfl
    · rfl

end Decimal

namespace Rule

open Text (asciiLower)

theorem minus_asciiLower (cs : List Char) :
    minus (asciiLower cs) = ((minus cs).1, asciiLower (minus cs).2) := by
  have hminus (c : Char) (cs : List Char) :
      minus (c :: cs) = if c = '-' then (true, cs) else (false, c :: cs) := by
    split_ifs with hc
    · rw [hc]
      rfl
    · simp [minus, hc]
  cases cs with
  | nil => rfl
  | cons c cs =>
    rw [Text.asciiLower_cons, hminus, hminus]
    simp only [Text.toLower_eq_iff (d := '-') rfl]
    split_ifs <;> rfl

theorem number_asciiLower (cs : List Char) :
    bare (number (asciiLower cs)) = lowered (bare (number cs)) := by
  simp only [bare_number, minus_asciiLower, Decimal.Numeral.scan?_asciiLower]
  rcases Decimal.Numeral.scan? (minus cs).2 with - | ⟨n, rest⟩
  · rfl
  have htext : (asciiLower cs).take ((asciiLower cs).length - (asciiLower rest).length) ++
      Text.headWord (asciiLower rest) =
        asciiLower (cs.take (cs.length - rest.length) ++ Text.headWord rest) := by
    rw [Text.asciiLower_length, Text.asciiLower_length, Text.headWord_asciiLower]
    simp only [asciiLower, List.map_append, List.map_take]
  simp only [Option.map_some, Text.startsWord_asciiLower, htext]
  split_ifs <;> rfl

/-- A word names the field that it names in small letters. -/
theorem named?_asciiLower (word : List Char) :
    Field.named? (asciiLower word) = Field.named? word := by
  rw [Field.named?, Field.named?, Text.asciiLower_asciiLower]

theorem fieldWord_asciiLower (c : Char) (cs : List Char) :
    bare (fieldWord c.toLower (asciiLower cs)) = lowered (bare (fieldWord c cs)) := by
  have hnamed := named?_asciiLower (c :: Text.headWord cs)
  rw [Text.asciiLower_cons] at hnamed
  simp only [bare_fieldWord, Text.headWord_asciiLower, Text.afterWord_asciiLower, hnamed]
  rcases Field.named? (c :: Text.headWord cs) with - | field <;> rfl

theorem startsNumber_toLower (c : Char) : startsNumber c.toLower = startsNumber c := by
  rw [startsNumber, startsNumber, Text.isDigit_toLower, Text.beq_toLower (d := '-') rfl,
    Text.beq_toLower (d := '.') rfl]

theorem startsField_toLower (c : Char) : startsField c.toLower = startsField c := by
  rw [startsField, startsField, Text.isLetter_toLower, Text.beq_toLower (d := '_') rfl]

theorem operand_asciiLower (cs : List Char) :
    bare (operand (asciiLower cs)) = lowered (bare (operand cs)) := by
  rw [bare_operand, bare_operand, Text.skipBlank_asciiLower]
  rcases Text.skipBlank cs with - | ⟨c, rest⟩
  · rfl
  have hnumber := number_asciiLower (c :: rest)
  have hglimpse := glimpse_asciiLower (c :: rest)
  rw [Text.asciiLower_cons] at hnumber hglimpse
  simp only [Text.asciiLower_cons, startsNumber_toLower, startsField_toLower, hnumber,
    fieldWord_asciiLower, lowered_map, hglimpse]
  split_ifs <;> rfl

theorem comparisonSign_asciiLower (cs : List Char) :
    bare (comparisonSign (asciiLower cs)) = lowered (bare (comparisonSign cs)) := by
  simp only [bare_comparisonSign, Text.skipBlank_asciiLower, sign?_asciiLower, glimpse_asciiLower]
  rcases sign? (Text.skipBlank cs) with - | ⟨sign, rest⟩ <;> rfl

theorem comparison_asciiLower (cs : List Char) :
    bare (comparison (asciiLower cs)) = lowered (bare (comparison cs)) := by
  rw [bare_comparison, bare_comparison, operand_asciiLower, Text.skipBlank_asciiLower]
  refine lowered_bind fun left rest _ ↦ ?_
  dsimp only
  rw [comparisonSign_asciiLower]
  refine lowered_bind fun sign rest _ ↦ ?_
  dsimp only
  rw [operand_asciiLower]
  refine lowered_bind fun right rest _ ↦ ?_
  cases left <;> cases right <;> rfl

theorem closing_asciiLower (cs : List Char) :
    closing (asciiLower cs) = lowered (closing cs) := by
  rw [closing, closing, Text.skipBlank_asciiLower]
  rcases Text.skipBlank cs with - | ⟨c, rest⟩
  · rfl
  by_cases hc : c = ')'
  · subst hc
    rfl
  · have hc' : c.toLower ≠ ')' := mt (Text.toLower_eq_iff rfl).1 hc
    simp only [Text.asciiLower_cons]
    split
    next heq => exact absurd (List.cons.inj heq).1 hc'
    next =>
      split
      next heq => exact absurd (List.cons.inj heq).1 hc
      next => rfl

/-! ### Phrases -/

/-- A factor that starts with `not`. -/
theorem bare_factor_not {cs rest : List Char} (hnot : keyword? ['n', 'o', 't'] cs = some rest) :
    bare (factor cs) = (bare (factor rest)).map fun taken ↦ (.not taken.1, taken.2) := by
  rw [bare_factor, hnot]

/-- A factor that starts with a bracket. -/
theorem bare_factor_brackets {cs rest : List Char} (hnot : keyword? ['n', 'o', 't'] cs = none)
    (hopen : Text.skipBlank cs = '(' :: rest) : bare (factor cs) = (do
      let (inner, rest) ← bare (disjunction rest)
      let (_, rest) ← closing rest
      .ok (inner, rest)) := by
  rw [bare_factor, hnot, hopen]
  rfl

/-- A factor that starts with neither `not` nor a bracket. -/
theorem bare_factor_plain {cs : List Char} (hnot : keyword? ['n', 'o', 't'] cs = none)
    (hopen : (Text.skipBlank cs).head? ≠ some '(') : bare (factor cs) =
      match keyword? ['t', 'r', 'u', 'e'] cs with
      | some rest => .ok (.literal true, rest)
      | none =>
        match keyword? ['f', 'a', 'l', 's', 'e'] cs with
        | some rest => .ok (.literal false, rest)
        | none => bare (comparison cs) := by
  rw [bare_factor, hnot]
  dsimp only
  split
  next heq => exact absurd (congrArg List.head? heq) hopen
  next => rfl

mutual

theorem disjunction_asciiLower (cs : List Char) :
    bare (disjunction (asciiLower cs)) = lowered (bare (disjunction cs)) := by
  rw [bare_disjunction, bare_disjunction, conjunction_asciiLower]
  refine lowered_bind fun left rest hleft ↦ ?_
  have hlength : rest.length < cs.length := (bare_eq_ok_iff.1 hleft).holds
  exact disjuncts_asciiLower left rest
termination_by (cs.length, 3)

theorem disjuncts_asciiLower (left : Expr Float) (cs : List Char) :
    bare (disjuncts left (asciiLower cs)) = lowered (bare (disjuncts left cs)) := by
  rw [bare_disjuncts, bare_disjuncts, keyword?_asciiLower]
  rcases hkey : keyword? ['o', 'r'] cs with - | cs'
  · rfl
  have hlength := keyword?_length_lt (by decide) hkey
  simp only [Option.map_some, conjunction_asciiLower cs']
  refine lowered_bind fun right rest hright ↦ ?_
  have hlength' : rest.length < cs'.length := (bare_eq_ok_iff.1 hright).holds
  exact disjuncts_asciiLower (.or left right) rest
termination_by (cs.length, 0)

theorem conjunction_asciiLower (cs : List Char) :
    bare (conjunction (asciiLower cs)) = lowered (bare (conjunction cs)) := by
  rw [bare_conjunction, bare_conjunction, factor_asciiLower]
  refine lowered_bind fun left rest hleft ↦ ?_
  have hlength : rest.length < cs.length := (bare_eq_ok_iff.1 hleft).holds
  exact conjuncts_asciiLower left rest
termination_by (cs.length, 2)

theorem conjuncts_asciiLower (left : Expr Float) (cs : List Char) :
    bare (conjuncts left (asciiLower cs)) = lowered (bare (conjuncts left cs)) := by
  rw [bare_conjuncts, bare_conjuncts, keyword?_asciiLower]
  rcases hkey : keyword? ['a', 'n', 'd'] cs with - | cs'
  · rfl
  have hlength := keyword?_length_lt (by decide) hkey
  simp only [Option.map_some, factor_asciiLower cs']
  refine lowered_bind fun right rest hright ↦ ?_
  have hlength' : rest.length < cs'.length := (bare_eq_ok_iff.1 hright).holds
  exact conjuncts_asciiLower (.and left right) rest
termination_by (cs.length, 0)

theorem factor_asciiLower (cs : List Char) :
    bare (factor (asciiLower cs)) = lowered (bare (factor cs)) := by
  have hnot' := keyword?_asciiLower ['n', 'o', 't'] cs
  rcases hnot : keyword? ['n', 'o', 't'] cs with - | cs'
  swap
  · have hlength := keyword?_length_lt (by decide) hnot
    rw [hnot] at hnot'
    rw [bare_factor_not hnot, bare_factor_not hnot', factor_asciiLower cs', lowered_map]
  rw [hnot] at hnot'
  by_cases hopen : (Text.skipBlank cs).head? = some '('
  · obtain ⟨cs', hopen⟩ := List.head?_eq_some_iff.1 hopen
    have hlength : cs'.length < cs.length := by
      have hle := Text.skipBlank_length_le cs
      rw [hopen] at hle
      exact hle
    have hopen' : Text.skipBlank (asciiLower cs) = '(' :: asciiLower cs' := by
      rw [Text.skipBlank_asciiLower, hopen]
      rfl
    rw [bare_factor_brackets hnot hopen, bare_factor_brackets hnot' hopen',
      disjunction_asciiLower cs']
    refine lowered_bind fun inner rest _ ↦ ?_
    dsimp only
    rw [closing_asciiLower]
    exact lowered_bind fun _ _ _ ↦ rfl
  · have hopen' : (Text.skipBlank (asciiLower cs)).head? ≠ some '(' := by
      rw [Text.skipBlank_asciiLower, ne_eq, head?_asciiLower_eq_iff rfl]
      exact hopen
    rw [bare_factor_plain hnot hopen, bare_factor_plain hnot' hopen', keyword?_asciiLower,
      keyword?_asciiLower, comparison_asciiLower]
    rcases keyword? ['t', 'r', 'u', 'e'] cs with - | rest
    · rcases keyword? ['f', 'a', 'l', 's', 'e'] cs with - | rest <;> rfl
    · rfl
termination_by (cs.length, 1)

end

/-- **Reading a text in small letters** is reading the text. -/
theorem parseChars_asciiLower (cs : List Char) :
    parseChars (asciiLower cs) = (parseChars cs).mapError Stop.lowered := by
  rw [parseChars_eq, parseChars_eq, Text.skipBlank_asciiLower]
  rcases Text.skipBlank cs with - | ⟨c, text⟩
  · rfl
  have hdisjunction := disjunction_asciiLower (c :: text)
  rw [Text.asciiLower_cons] at hdisjunction ⊢
  dsimp only
  rw [hdisjunction]
  rcases bare (disjunction (c :: text)) with stop | ⟨e, rest⟩
  · rfl
  have hskip := Text.skipBlank_asciiLower rest
  rcases hrest : Text.skipBlank rest with - | ⟨d, left⟩
  · rw [hrest] at hskip
    simp only [lowered_ok, bind, Except.bind, hskip, hrest]
    rfl
  · have hglimpse := glimpse_asciiLower (d :: left)
    rw [hrest, Text.asciiLower_cons] at hskip
    rw [Text.asciiLower_cons] at hglimpse
    simp only [lowered_ok, bind, Except.bind, hskip, hrest, hglimpse]
    rfl

end Rule

/-- **Letter case never matters.** Two texts that differ only in the case of Latin letters are the
same rule, or both are refused at the same place and, but for the case of what is quoted, for the
same reason. -/
theorem Expr.parse_case_blind {s t : String}
    (h : Text.asciiLower s.toList = Text.asciiLower t.toList) :
    (∃ e, Expr.parse s = .ok e ∧ Expr.parse t = .ok e) ∨
      ∃ error error', Expr.parse s = .error error ∧ Expr.parse t = .error error' ∧
        error.position = error'.position ∧ error.fault.lowered = error'.fault.lowered := by
  have hsame : (Rule.parseChars s.toList).mapError Stop.lowered =
      (Rule.parseChars t.toList).mapError Stop.lowered := by
    rw [← Rule.parseChars_asciiLower, h, Rule.parseChars_asciiLower]
  rw [Expr.parse, Expr.parse]
  generalize Rule.parseChars s.toList = read at hsame ⊢
  generalize Rule.parseChars t.toList = read' at hsame ⊢
  rcases read with stop | e <;> rcases read' with stop' | e'
  · have hstop : stop.lowered = stop'.lowered := Except.error.inj hsame
    refine .inr ⟨_, _, rfl, rfl, ?_, congrArg Stop.fault hstop⟩
    show Text.positionOf s.toList stop.rest = Text.positionOf t.toList stop'.rest
    have hrest : Text.asciiLower stop.rest = Text.asciiLower stop'.rest := congrArg Stop.rest hstop
    rw [← Text.positionOf_asciiLower, h, hrest, Text.positionOf_asciiLower]
  · cases hsame
  · cases hsame
  · cases hsame
    exact .inl ⟨e, rfl, rfl⟩

/-- Capitals do not move the place where a rule goes wrong. -/
theorem Expr.sample_case_blind :
    Text.asciiLower "rsi <\u3000é".toList = Text.asciiLower "RsI <\u3000é".toList ∧
      ∃ error, Expr.parse "RsI <\u3000é" = .error error ∧ error.position = 8 := by
  have hcase : Text.asciiLower "rsi <\u3000é".toList = Text.asciiLower "RsI <\u3000é".toList := by
    decide
  refine ⟨hcase, ?_⟩
  obtain ⟨e, hread, -⟩ | ⟨error, error', hread, hread', hposition, -⟩ := Expr.parse_case_blind hcase
  · rw [Sample.parse_misnamed] at hread
    cases hread
  · rw [Sample.parse_misnamed] at hread
    cases hread
    exact ⟨error', hread', hposition.symm⟩

end BarReplay
