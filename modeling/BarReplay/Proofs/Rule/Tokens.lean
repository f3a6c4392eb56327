import BarReplay.Proofs.Rule.Grammar

/-!
# Tokens and their scanners

A scanner of keywords or of signs takes from the head of a text what the grammar calls a token,
after blanks, and leaves the same rest. A word ends where the grammar says it ends, because both
take it as long as it goes on (`word_iff`).
-/

namespace BarReplay

/-! ### Runs -/

section Runs

variable {α : Type} {p : α → Bool} {run rest : List α}

/-- A run is taken as a whole if it does not go on after it. -/
theorem takeWhile_run (hrun : ∀ c ∈ run, p c = true) (hrest : rest.head?.any p = false) :
    (run ++ rest).takeWhile p = run := by
  rw [List.takeWhile_append_of_pos hrun]
  cases rest with
  | nil => rw [List.takeWhile_nil, List.append_nil]
  | cons c cs =>
    have hc : p c = false := hrest
    rw [List.takeWhile_cons_of_neg (by simp [hc]), List.append_nil]

theorem dropWhile_run (hrun : ∀ c ∈ run, p c = true) (hrest : rest.head?.any p = false) :
    (run ++ rest).dropWhile p = rest := by
  rw [List.dropWhile_append_of_pos hrun]
  cases rest with
  | nil => rfl
  | cons c cs =>
    have hc : p c = false := hrest
    rw [List.dropWhile_cons_of_neg (by simp [hc])]

/-- After the run at its head, a text does not go on with it. -/
theorem any_head?_dropWhile (cs : List α) : (cs.dropWhile p).head?.any p = false := by
  cases h : (cs.dropWhile p).head? with
  | none => rfl
  | some c =>
    have hc := List.head?_dropWhile_not p cs
    rw [h] at hc
    simpa using hc

end Runs

namespace Rule

/-! ### What a scanner yields -/

section Yields

variable {β γ : Type} {p q : List Char → Prop}

/-- A scanner that succeeded took `b` and left the rest. -/
def Yields (x : Except Stop (β × { r : List Char // p r })) (b : β) (rest : List Char) : Prop :=
  ∃ h : p rest, x = .ok (b, ⟨rest, h⟩)

variable {x : Except Stop (β × { r : List Char // p r })} {b b' : β} {c : γ}
  {rest rest' : List Char}

/-- What a scanner promises of its rest holds of what it leaves. -/
theorem Yields.holds (h : Yields x b rest) : p rest :=
  h.choose

@[simp]
theorem not_yields_error {stop : Stop} :
    ¬ Yields (.error stop : Except Stop (β × { r : List Char // p r })) b rest := by
  rintro ⟨_, h⟩
  cases h

@[simp]
theorem yields_ok_iff {r : { r : List Char // p r }} :
    Yields (.ok (b, r)) b' rest ↔ b' = b ∧ rest = r.1 := by
  constructor
  · rintro ⟨_, h⟩
    cases h
    exact ⟨rfl, rfl⟩
  · rintro ⟨rfl, rfl⟩
    exact ⟨r.2, rfl⟩

/-- Two scanners in a row. -/
theorem yields_bind_iff
    {f : β × { r : List Char // p r } → Except Stop (γ × { r : List Char // q r })} :
    Yields (x >>= f) c rest' ↔
      ∃ b rest, ∃ h : Yields x b rest, Yields (f (b, ⟨rest, h.holds⟩)) c rest' := by
  constructor
  · intro h
    cases x with
    | error stop => exact absurd h not_yields_error
    | ok result => exact ⟨result.1, result.2.1, ⟨result.2.2, rfl⟩, h⟩
  · rintro ⟨b, rest, ⟨hrest, rfl⟩, h⟩
    exact h

end Yields

/-! ### Blanks -/

theorem skipBlank_append {blanks : List Char} (h : AllBlank blanks) (text : List Char) :
    Text.skipBlank (blanks ++ text) = Text.skipBlank text :=
  List.dropWhile_append_of_pos h

theorem skipBlank_eq_nil_iff {cs : List Char} : Text.skipBlank cs = [] ↔ AllBlank cs :=
  List.dropWhile_eq_nil_iff

/-- A printable character of ASCII is not blank. -/
theorem isBlank_of_printable {c : Char} (h : 0x21 ≤ c.toNat ∧ c.toNat ≤ 0x7E) :
    Text.isBlank c = false := by
  simp only [Text.isBlank, Text.blankRanges, Text.inRanges, List.any_cons, List.any_nil,
    Bool.or_false, Bool.or_eq_false_iff, Bool.and_eq_false_iff, decide_eq_false_iff_not]
  omega

theorem skipBlank_cons {c : Char} (h : Text.isBlank c = false) (cs : List Char) :
    Text.skipBlank (c :: cs) = c :: cs :=
  List.dropWhile_cons_of_neg (by simp [h])

@[simp]
theorem skipBlank_skipBlank (cs : List Char) :
    Text.skipBlank (Text.skipBlank cs) = Text.skipBlank cs :=
  List.dropWhile_idempotent Text.isBlank cs

/-- What a text without its blanks does not start with, the text does not start with, unless it is a
blank. -/
theorem head?_ne_of_skipBlank {c : Char} {cs : List Char} (hc : Text.isBlank c = false)
    (h : (Text.skipBlank cs).head? ≠ some c) : cs.head? ≠ some c := by
  intro hhead
  obtain ⟨ds, rfl⟩ := List.head?_eq_some_iff.1 hhead
  exact h (by rw [skipBlank_cons hc]; rfl)

/-- The tokens of this kind do not start with a blank. -/
def Solid (Token : List Char → List Char → Prop) : Prop :=
  ∀ {text rest : List Char}, Token text rest → Text.skipBlank text = text

/-- A token after blanks is the token at the head of the text without its blanks. -/
theorem spaced_iff {Token : List Char → List Char → Prop} {cs rest : List Char}
    (h : Solid Token) : Spaced Token cs rest ↔ Token (Text.skipBlank cs) rest := by
  constructor
  · rintro ⟨blank, token⟩
    rw [skipBlank_append blank, h token]
    exact token
  · intro token
    have hblank : AllBlank (cs.takeWhile Text.isBlank) := fun c hc ↦ List.mem_takeWhile_imp hc
    rw [← List.takeWhile_append_dropWhile (p := Text.isBlank) (l := cs)]
    exact .mk hblank token

/-! ### Words -/

/-- The word at the head of a text is its longest run of word characters. -/
theorem word_iff {word text rest : List Char} :
    Word word text rest ↔
      Text.asciiLower (Text.headWord text) = word ∧ Text.afterWord text = rest := by
  constructor
  · rintro ⟨inside, ends, spelled⟩
    rw [Text.headWord, Text.afterWord, takeWhile_run inside ends, dropWhile_run inside ends]
    exact ⟨spelled, rfl⟩
  · rintro ⟨spelled, rfl⟩
    have h : Word word (Text.headWord text ++ Text.afterWord text) (Text.afterWord text) :=
      .mk (fun c hc ↦ List.mem_takeWhile_imp hc) (any_head?_dropWhile text) spelled
    rwa [Text.headWord_append_afterWord] at h

/-- Two words at the head of one text are the same. -/
theorem Word.eq {word word' text rest rest' : List Char} (h : Word word text rest)
    (h' : Word word' text rest') : word = word' ∧ rest = rest' := by
  rw [word_iff] at h h'
  exact ⟨h.1.symm.trans h'.1, h.2.symm.trans h'.2⟩

theorem toNat_of_isAlpha {c : Char} (h : c.isAlpha = true) : 65 ≤ c.toNat ∧ c.toNat ≤ 122 := by
  simp only [Char.isAlpha, Char.isUpper, Char.isLower, Bool.or_eq_true, decide_eq_true_eq,
    Bool.and_eq_true, ge_iff_le, UInt32.le_iff_toNat_le, Char.reduceVal, UInt32.reduceToNat,
    Char.toNat_val] at h
  omega

theorem isLetter_of_isAlpha {c : Char} (h : c.isAlpha = true) : Text.isLetter c = true := by
  have hrange := toNat_of_isAlpha h
  rw [Text.isLetter_of_ascii (by omega), h]

theorem isWordChar_of_isLetter {c : Char} (h : Text.isLetter c = true) :
    Text.isWordChar c = true := by
  simp [Text.isWordChar, h]

/-- The word starts with a small letter. -/
def StartsLower (word : List Char) : Prop :=
  ∃ d ds, word = d :: ds ∧ d.isLower = true

/-- A text with such a word at its head starts with a letter. -/
theorem Word.starts {word text rest : List Char} (hword : StartsLower word)
    (h : Word word text rest) : ∃ c cs, text = c :: cs ∧ c.isAlpha = true := by
  obtain ⟨d, ds, hfirst, hd⟩ := hword
  obtain @⟨letters, -, -, -, spelled⟩ := h
  rw [hfirst] at spelled
  cases letters with
  | nil => cases spelled
  | cons c letters =>
    obtain ⟨hc, -⟩ := List.cons.inj spelled
    rw [← hc, Char.isLower_toLower_eq_isAlpha] at hd
    exact ⟨c, _, rfl, hd⟩

theorem solid_word {word : List Char} (hword : StartsLower word) : Solid (Word word) := by
  intro text rest h
  obtain ⟨c, cs, rfl, hc⟩ := h.starts hword
  have hrange := toNat_of_isAlpha hc
  exact skipBlank_cons (isBlank_of_printable (by omega)) cs

/-- After its blanks, a text with such a word at its head starts with a letter. -/
theorem starts_of_word {word cs rest : List Char} (hword : StartsLower word)
    (h : Spaced (Word word) cs rest) :
    ∃ c text, Text.skipBlank cs = c :: text ∧ c.isAlpha = true := by
  rw [spaced_iff (solid_word hword)] at h
  exact h.starts hword

/-- The word is of small letters only. -/
def IsSmall (word : List Char) : Prop :=
  word ≠ [] ∧ word.all Char.isLower = true

instance : DecidablePred IsSmall :=
  fun word ↦ inferInstanceAs (Decidable (word ≠ [] ∧ word.all Char.isLower = true))

theorem IsSmall.isLower {word : List Char} {d : Char} (h : IsSmall word) (hd : d ∈ word) :
    d.isLower = true :=
  List.all_eq_true.1 h.2 d hd

theorem IsSmall.starts {word : List Char} (h : IsSmall word) : StartsLower word := by
  obtain ⟨d, ds, rfl⟩ := List.exists_cons_of_ne_nil h.1
  exact ⟨d, ds, rfl, h.isLower List.mem_cons_self⟩

/-- The scanner of keywords takes a keyword of small letters. -/
theorem keyword?_eq_some_iff {word cs rest : List Char} (hword : IsSmall word) :
    keyword? word cs = some rest ↔ Spaced (Word word) cs rest := by
  rw [spaced_iff (solid_word hword.starts), keyword?]
  simp only [Option.ite_none_right_eq_some, Option.some.injEq]
  generalize Text.skipBlank cs = text
  constructor
  · rintro ⟨⟨spelled, ends⟩, rfl⟩
    -- what folds to small letters are letters, so the text spells a word
    have inside : ∀ c ∈ text.take word.length, Text.isWordChar c = true := by
      intro c hc
      have hlow : c.toLower ∈ word := spelled ▸ List.mem_map_of_mem hc
      have halpha : c.isAlpha = true := c.isLower_toLower_eq_isAlpha ▸ hword.isLower hlow
      exact isWordChar_of_isLetter (isLetter_of_isAlpha halpha)
    have h := Word.mk inside ends spelled
    rwa [List.take_append_drop] at h
  · rintro ⟨inside, ends, rfl⟩
    rw [Text.asciiLower_length, List.take_left', List.drop_left']
    · exact ⟨⟨rfl, ends⟩, rfl⟩
    · rfl
    · rfl

/-- A keyword takes at least one character. -/
theorem keyword?_length_lt {word cs rest : List Char} (hword : word ≠ [])
    (h : keyword? word cs = some rest) : rest.length < cs.length := by
  have hle := keyword?_length h
  have hpos := List.length_pos_of_ne_nil hword
  omega

/-- There is no keyword where another word stands. -/
theorem keyword?_eq_none_of_word {word other cs rest : List Char} (hword : IsSmall word)
    (hother : StartsLower other) (hne : word ≠ other) (h : Spaced (Word other) cs rest) :
    keyword? word cs = none := by
  rw [Option.eq_none_iff_forall_ne_some]
  intro rest' hsome
  rw [keyword?_eq_some_iff hword, spaced_iff (solid_word hword.starts)] at hsome
  rw [spaced_iff (solid_word hother)] at h
  exact hne (hsome.eq h).1

/-- There is no keyword where no letter stands. -/
theorem keyword?_eq_none_of_head {word cs : List Char} (hword : IsSmall word)
    (h : ∀ c, (Text.skipBlank cs).head? = some c → c.isAlpha = false) :
    keyword? word cs = none := by
  rw [Option.eq_none_iff_forall_ne_some]
  intro rest hsome
  rw [keyword?_eq_some_iff hword] at hsome
  obtain ⟨c, text, hskip, hc⟩ := starts_of_word hword.starts hsome
  have hnone := h c (by rw [hskip]; rfl)
  rw [hc] at hnone
  cases hnone

/-- Neither a word nor a point stands at the head of the text or after its blanks. -/
def Closes (cs : List Char) : Prop :=
  ∀ c, (Text.skipBlank cs).head? = some c → c.isAlpha = false ∧ c ≠ '.'

theorem Closes.keyword? {word cs : List Char} (hword : IsSmall word) (h : Closes cs) :
    Rule.keyword? word cs = none :=
  keyword?_eq_none_of_head hword fun c hc ↦ (h c hc).1

theorem Closes.head? {cs : List Char} (h : Closes cs) : cs.head? ≠ some '.' :=
  head?_ne_of_skipBlank (by decide) fun hhead ↦ (h '.' hhead).2 rfl

/-! ### Brackets and comparison signs -/

/-- The symbol starts with a printable character. -/
def StartsPrintable (symbol : List Char) : Prop :=
  ∃ d ds, symbol = d :: ds ∧ 0x21 ≤ d.toNat ∧ d.toNat ≤ 0x7E

theorem symbol_iff {symbol text rest : List Char} :
    Symbol symbol text rest ↔ text = symbol ++ rest := by
  constructor
  · rintro ⟨⟩
    rfl
  · rintro rfl
    exact .mk

theorem solid_symbol {symbol : List Char} (h : StartsPrintable symbol) : Solid (Symbol symbol) := by
  rintro text rest ⟨⟩
  obtain ⟨d, ds, rfl, hrange⟩ := h
  exact skipBlank_cons (isBlank_of_printable hrange) _

/-- A symbol after blanks. -/
theorem spaced_symbol_iff {symbol cs rest : List Char} (h : StartsPrintable symbol) :
    Spaced (Symbol symbol) cs rest ↔ Text.skipBlank cs = symbol ++ rest := by
  rw [spaced_iff (solid_symbol h), symbol_iff]

theorem startsPrintable_opening : StartsPrintable ['('] :=
  ⟨_, _, rfl, by decide⟩

theorem startsPrintable_closing : StartsPrintable [')'] :=
  ⟨_, _, rfl, by decide⟩

theorem startsPrintable_sign (sign : Comparison) : StartsPrintable sign.sign.toList := by
  cases sign <;> exact ⟨_, _, rfl, by decide⟩

/-- A comparison sign is taken as it is written. -/
theorem eq_of_sign? {text rest : List Char} {sign : Comparison}
    (h : sign? text = some (sign, rest)) : text = sign.sign.toList ++ rest := by
  unfold sign? at h
  split at h <;> cases h <;> rfl

/-- A comparison sign is taken as it is written unless it goes on with an equals sign. -/
theorem sign?_append {sign : Comparison} {rest : List Char} (h : rest.head? ≠ some '=') :
    sign? (sign.sign.toList ++ rest) = some (sign, rest) := by
  cases rest with
  | nil => cases sign <;> rfl
  | cons c cs =>
    have hc : c ≠ '=' := fun heq ↦ h (by rw [heq]; rfl)
    cases sign
    case lt =>
      show sign? ('<' :: c :: cs) = some (.lt, c :: cs)
      simp [sign?, hc]
    case gt =>
      show sign? ('>' :: c :: cs) = some (.gt, c :: cs)
      simp [sign?, hc]
    all_goals rfl

end Rule

end BarReplay
