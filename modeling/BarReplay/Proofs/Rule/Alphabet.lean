import BarReplay.Proofs.Rule.Extent
import BarReplay.Proofs.Rule.Operands
import BarReplay.Proofs.Text.SmallLetters

/-!
# The characters of a rule

Every token of a rule is written in the same few characters: Latin letters, digits, and the signs
that stand in numbers, names, comparisons and brackets (`isTokenChar`). Whatever else a rule holds
are the blanks before its tokens. So a phrase takes blanks and token characters only, and as it ends
with a token, the last character it takes is not blank (`Derives.consumes`).

The characters of tokens are all printable and have one byte, so the only wide characters of a rule
are blanks, and there is none that could be taken for a separator of rules or for a comment.
-/

namespace BarReplay

namespace Rule

/-! ### Token characters -/

/-- The signs in names and numbers, brackets and comparison signs. -/
def tokenSigns : List Char :=
  ['_', '.', '+', '-', '(', ')', '<', '>', '=', '!']

/-- A character that tokens are made of. -/
def isTokenChar (c : Char) : Bool :=
  c.isAlphanum || tokenSigns.contains c

/-- The characters of tokens are printable characters of ASCII. -/
theorem toNat_of_isTokenChar {c : Char} (h : isTokenChar c = true) :
    0x21 ≤ c.toNat ∧ c.toNat ≤ 0x7E := by
  have hsigns : ∀ d ∈ tokenSigns, 0x21 ≤ d.toNat ∧ d.toNat ≤ 0x7E := by
    simp [tokenSigns]
  simp only [isTokenChar, Char.isAlphanum, Bool.or_eq_true, List.contains_iff_mem] at h
  rcases h with (halpha | hdigit) | hsign
  · have hrange := toNat_of_isAlpha halpha
    omega
  · have hrange : 48 ≤ c.toNat ∧ c.toNat ≤ 57 := Char.isDigit_iff_toNat.1 hdigit
    omega
  · exact hsigns c hsign

theorem isBlank_of_isTokenChar {c : Char} (h : isTokenChar c = true) : Text.isBlank c = false :=
  isBlank_of_printable (toNat_of_isTokenChar h)

theorem utf8Size_of_isTokenChar {c : Char} (h : isTokenChar c = true) : c.utf8Size = 1 := by
  have hrange := toNat_of_isTokenChar h
  exact Text.utf8Size_of_ascii (by omega)

theorem isTokenChar_of_isDigit {c : Char} (h : c.isDigit = true) : isTokenChar c = true := by
  simp [isTokenChar, Char.isAlphanum, h]

/-- A character is one of tokens if it is in small letters. -/
theorem isTokenChar_of_toLower {c : Char} (h : isTokenChar c.toLower = true) :
    isTokenChar c = true := by
  rcases Text.toLower_eq_or c with heq | ⟨hc, -⟩
  · rwa [heq] at h
  · simp [isTokenChar, Char.isAlphanum, hc]

/-! ### What is taken from a text -/

/-- The text is made of blanks and token characters, and ends with a token. -/
def IsTokens (taken : List Char) : Prop :=
  ∃ head last, taken = head ++ [last] ∧
    (∀ c ∈ head, Text.isBlank c = true ∨ isTokenChar c = true) ∧ isTokenChar last = true

/-- What is taken from the text to leave the rest are tokens and the blanks before them. -/
def Consumes (cs rest : List Char) : Prop :=
  ∃ taken, cs = taken ++ rest ∧ IsTokens taken

theorem isTokens_of_forall {taken : List Char} (hsome : taken ≠ [])
    (h : ∀ c ∈ taken, isTokenChar c = true) : IsTokens taken := by
  refine ⟨taken.dropLast, taken.getLast hsome, (List.dropLast_append_getLast hsome).symm,
    fun c hc ↦ .inr (h c (List.mem_of_mem_dropLast hc)), h _ (List.getLast_mem hsome)⟩

theorem IsTokens.blank_or_token {taken : List Char} (h : IsTokens taken) {c : Char}
    (hc : c ∈ taken) : Text.isBlank c = true ∨ isTokenChar c = true := by
  obtain ⟨head, last, rfl, hhead, hlast⟩ := h
  rcases List.mem_append.1 hc with hc | hc
  · exact hhead c hc
  · rw [List.mem_singleton.1 hc]
    exact .inr hlast

/-- Whatever blanks and tokens stand before tokens. -/
theorem IsTokens.append {before taken : List Char}
    (hbefore : ∀ c ∈ before, Text.isBlank c = true ∨ isTokenChar c = true) (h : IsTokens taken) :
    IsTokens (before ++ taken) := by
  obtain ⟨head, last, rfl, hhead, hlast⟩ := h
  refine ⟨before ++ head, last, (List.append_assoc ..).symm, fun c hc ↦ ?_, hlast⟩
  exact (List.mem_append.1 hc).elim (hbefore c) (hhead c)

theorem Consumes.trans {cs cs' rest : List Char} (h : Consumes cs cs') (h' : Consumes cs' rest) :
    Consumes cs rest := by
  obtain ⟨taken, rfl, htaken⟩ := h
  obtain ⟨taken', rfl, htaken'⟩ := h'
  exact ⟨taken ++ taken', (List.append_assoc ..).symm,
    htaken'.append fun c hc ↦ htaken.blank_or_token hc⟩

/-! ### Tokens -/

theorem Spaced.consumes {Token : List Char → List Char → Prop} {cs rest : List Char}
    (h : Spaced Token cs rest) (htoken : ∀ {text}, Token text rest → Consumes text rest) :
    Consumes cs rest := by
  obtain @⟨blanks, text, _, blank, token⟩ := h
  obtain ⟨taken, rfl, htaken⟩ := htoken token
  exact ⟨blanks ++ taken, (List.append_assoc ..).symm, htaken.append fun c hc ↦ .inl (blank c hc)⟩

theorem Word.consumes {word text rest : List Char} (h : Word word text rest) (hsome : word ≠ [])
    (hword : word.all isTokenChar = true) : Consumes text rest := by
  obtain @⟨letters, -, -, -, spelled⟩ := h
  refine ⟨letters, rfl, isTokens_of_forall ?_ fun c hc ↦ isTokenChar_of_toLower ?_⟩
  · rintro rfl
    exact hsome spelled.symm
  · exact List.all_eq_true.1 hword _ (spelled ▸ List.mem_map_of_mem hc)

theorem Symbol.consumes {symbol text rest : List Char} (h : Symbol symbol text rest)
    (hsome : symbol ≠ []) (hsymbol : symbol.all isTokenChar = true) : Consumes text rest := by
  obtain ⟨⟩ := h
  exact ⟨symbol, rfl, isTokens_of_forall hsome fun c hc ↦ List.all_eq_true.1 hsymbol c hc⟩

theorem isTokenChar_of_numeralText {n : Decimal.Numeral} {text : List Char}
    (h : Decimal.NumeralText n text) : ∀ c ∈ text, isTokenChar c = true := by
  have hletter {c : Char} (hc : c = 'e' ∨ c = 'E') : isTokenChar c = true := by
    rcases hc with rfl | rfl <;> rfl
  have hdigits {ds : List Char} (h : Decimal.AllDigits ds) : ∀ c ∈ ds, isTokenChar c = true :=
    fun c hc ↦ isTokenChar_of_isDigit (h c hc)
  obtain ⟨ds, fs, e⟩ := n
  obtain @⟨point, exponent, whole, fraction, -, scale⟩ := h
  simp only at whole fraction scale
  refine List.forall_mem_append.2 ⟨List.forall_mem_append.2 ⟨hdigits whole, ?_⟩, ?_⟩
  · cases fraction with
    | absent => exact List.forall_mem_nil _
    | point digits => exact List.forall_mem_cons.2 ⟨rfl, hdigits digits⟩
  · cases scale with
    | absent => exact List.forall_mem_nil _
    | unsigned letter digits => exact List.forall_mem_cons.2 ⟨hletter letter, hdigits digits⟩
    | plus letter digits | minus letter digits =>
      exact List.forall_mem_cons.2
        ⟨hletter letter, List.forall_mem_cons.2 ⟨rfl, hdigits digits⟩⟩

theorem Number.consumes {x : Float} {text rest : List Char} (h : Number x text rest) :
    Consumes text rest := by
  cases h with
  | unsigned spelled =>
    obtain ⟨c, cs, htext, -⟩ := spelled.starts
    exact ⟨_, rfl, isTokens_of_forall (by simp [htext]) (isTokenChar_of_numeralText spelled)⟩
  | negative spelled =>
    exact ⟨_, rfl, isTokens_of_forall (List.cons_ne_nil _ _)
      (List.forall_mem_cons.2 ⟨rfl, isTokenChar_of_numeralText spelled⟩)⟩

theorem Keyword.consumes {word : String} {cs rest : List Char} (h : Keyword word cs rest)
    (hsome : word.toList ≠ []) (hword : word.toList.all isTokenChar = true) : Consumes cs rest :=
  Spaced.consumes h fun token ↦ token.consumes hsome hword

theorem consumes_of_spaced_symbol {symbol cs rest : List Char} (h : Spaced (Symbol symbol) cs rest)
    (hsome : symbol ≠ []) (hsymbol : symbol.all isTokenChar = true) : Consumes cs rest :=
  h.consumes fun token ↦ token.consumes hsome hsymbol

theorem Side.consumes {o : Operand Float} {cs rest : List Char} (h : Side o cs rest) :
    Consumes cs rest := by
  cases h with
  | field word =>
    rename_i f
    exact word.consumes fun token ↦ token.consumes (by cases f <;> decide) (by cases f <;> decide)
  | constant number => exact number.consumes Number.consumes

/-! ### Phrases -/

/-- **A phrase takes nothing but tokens and the blanks before them.** -/
theorem Derives.consumes {phrase : Phrase} {cs rest : List Char} {e : Expr Float}
    (h : Derives phrase cs e rest) : Consumes cs rest := by
  induction h with
  | or _ word _ hfirst hsecond =>
    exact hfirst.trans ((word.consumes (by decide) (by decide)).trans hsecond)
  | single _ honly => exact honly
  | and _ word _ hfirst hsecond =>
    exact hfirst.trans ((word.consumes (by decide) (by decide)).trans hsecond)
  | lone _ honly => exact honly
  | not word _ hinner => exact (word.consumes (by decide) (by decide)).trans hinner
  | brackets opening _ closing hinner =>
    exact (consumes_of_spaced_symbol opening (by decide) (by decide)).trans
      (hinner.trans (consumes_of_spaced_symbol closing (by decide) (by decide)))
  | true word => exact word.consumes (by decide) (by decide)
  | false word => exact word.consumes (by decide) (by decide)
  | @compare _ _ _ _ _ _ sign first between second _ =>
    have hbetween := consumes_of_spaced_symbol between (by cases sign <;> decide)
      (by cases sign <;> decide)
    exact first.consumes.trans (hbetween.trans second.consumes)

/-- **The characters of a rule** are blanks and token characters. -/
theorem IsRule.blank_or_token {cs : List Char} {e : Expr Float} (h : IsRule cs e) {c : Char}
    (hc : c ∈ cs) : Text.isBlank c = true ∨ isTokenChar c = true := by
  obtain ⟨blanks, hblank, hderives⟩ := h
  obtain ⟨taken, rfl, htaken⟩ := hderives.consumes
  rcases List.mem_append.1 hc with hc | hc
  · exact htaken.blank_or_token hc
  · exact .inl (hblank c hc)

end Rule

end BarReplay
