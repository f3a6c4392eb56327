import BarReplay.Proofs.Rule.Grammar

/-!
# The extent of a phrase

A token or a phrase takes a part of the text and leaves the rest. What it takes is the same whatever
the rest is, except that no word may go on after it where none did: a keyword, the name of a field
and a number end where their word ends. So a phrase can be cut out of one text and put into another
(`Derives.takes`).
-/

namespace BarReplay

namespace Rule

/-- If no word goes on in the one text, none goes on in the other. -/
def EndsLike (rest rest' : List Char) : Prop :=
  Text.startsWord rest = false → Text.startsWord rest' = false

/-- Something that takes part of a text and leaves the rest would take the same part before any rest
that ends words like this one. -/
def Takes (Piece : List Char → List Char → Prop) (cs rest : List Char) : Prop :=
  ∃ taken, cs = taken ++ rest ∧ ∀ rest', EndsLike rest rest' → Piece (taken ++ rest') rest'

/-- One piece after the other. -/
def Followed (First Second : List Char → List Char → Prop) (cs rest : List Char) : Prop :=
  ∃ cs', First cs cs' ∧ Second cs' rest

/-- What stands before a rest hides how the rest begins. -/
theorem EndsLike.append {rest rest' : List Char} (h : EndsLike rest rest') (taken : List Char) :
    EndsLike (taken ++ rest) (taken ++ rest') := by
  cases taken with
  | nil => exact h
  | cons c taken => exact id

theorem endsLike_of_startsWord {rest rest' : List Char} (h : Text.startsWord rest' = false) :
    EndsLike rest rest' :=
  fun _ ↦ h

section Takes

variable {First Second Piece Piece' : List Char → List Char → Prop} {cs cs' rest : List Char}

theorem Takes.exists_append (h : Takes Piece cs rest) : ∃ taken, cs = taken ++ rest := by
  obtain ⟨taken, hcs, -⟩ := h
  exact ⟨taken, hcs⟩

theorem Takes.mono (h : Takes Piece cs rest)
    (hpiece : ∀ {cs rest}, Piece cs rest → Piece' cs rest) : Takes Piece' cs rest := by
  obtain ⟨taken, hcs, htaken⟩ := h
  exact ⟨taken, hcs, fun rest' hrest ↦ hpiece (htaken rest' hrest)⟩

/-- Two pieces one after the other take what the first takes and then what the second takes. -/
theorem Takes.followed (hfirst : Takes First cs cs') (hsecond : Takes Second cs' rest) :
    Takes (Followed First Second) cs rest := by
  obtain ⟨taken, rfl, htaken⟩ := hfirst
  obtain ⟨taken', rfl, htaken'⟩ := hsecond
  refine ⟨taken ++ taken', (List.append_assoc ..).symm, fun rest' hrest ↦ ?_⟩
  rw [List.append_assoc]
  exact ⟨_, htaken _ (hrest.append taken'), htaken' rest' hrest⟩

end Takes

/-! ### Tokens -/

theorem Word.takes {word text rest : List Char} (h : Word word text rest) :
    Takes (Word word) text rest := by
  obtain ⟨inside, ends, spelled⟩ := h
  exact ⟨_, rfl, fun rest' hrest ↦ .mk inside (hrest ends) spelled⟩

theorem Symbol.takes {symbol text rest : List Char} (h : Symbol symbol text rest) :
    Takes (Symbol symbol) text rest := by
  obtain ⟨⟩ := h
  exact ⟨symbol, rfl, fun rest' _ ↦ .mk⟩

theorem Number.takes {x : Float} {text rest : List Char} (h : Number x text rest) :
    Takes (Number x) text rest := by
  cases h with
  | unsigned spelled ends nearest =>
    exact ⟨_, rfl, fun rest' hrest ↦ .unsigned spelled (hrest ends) nearest⟩
  | negative spelled ends nearest =>
    exact ⟨_, rfl, fun rest' hrest ↦ .negative spelled (hrest ends) nearest⟩

theorem Spaced.takes {Token : List Char → List Char → Prop} {cs rest : List Char}
    (h : Spaced Token cs rest) (htoken : ∀ {text}, Token text rest → Takes Token text rest) :
    Takes (Spaced Token) cs rest := by
  obtain @⟨blanks, text, _, blank, token⟩ := h
  obtain ⟨taken, rfl, htaken⟩ := htoken token
  refine ⟨blanks ++ taken, (List.append_assoc ..).symm, fun rest' hrest ↦ ?_⟩
  rw [List.append_assoc]
  exact .mk blank (htaken rest' hrest)

theorem Keyword.takes {word : String} {cs rest : List Char} (h : Keyword word cs rest) :
    Takes (Keyword word) cs rest :=
  Spaced.takes h Word.takes

theorem takes_of_spaced_symbol {symbol cs rest : List Char} (h : Spaced (Symbol symbol) cs rest) :
    Takes (Spaced (Symbol symbol)) cs rest :=
  h.takes Symbol.takes

theorem Side.takes {o : Operand Float} {cs rest : List Char} (h : Side o cs rest) :
    Takes (Side o) cs rest := by
  cases h with
  | field word =>
    obtain ⟨taken, rfl, htaken⟩ := word.takes Word.takes
    exact ⟨taken, rfl, fun rest' hrest ↦ .field (htaken rest' hrest)⟩
  | constant number =>
    obtain ⟨taken, rfl, htaken⟩ := number.takes Number.takes
    exact ⟨taken, rfl, fun rest' hrest ↦ .constant (htaken rest' hrest)⟩

/-! ### Phrases -/

/-- **A phrase can be cut out of its text** and put before another rest. -/
theorem Derives.takes {phrase : Phrase} {cs rest : List Char} {e : Expr Float}
    (h : Derives phrase cs e rest) : Takes (Derives phrase · e ·) cs rest := by
  induction h with
  | or _ word _ hfirst hsecond =>
    apply (hfirst.followed (word.takes.followed hsecond)).mono
    rintro cs rest ⟨cs', first, cs'', word, second⟩
    exact .or first word second
  | single _ honly => exact honly.mono .single
  | and _ word _ hfirst hsecond =>
    apply (hfirst.followed (word.takes.followed hsecond)).mono
    rintro cs rest ⟨cs', first, cs'', word, second⟩
    exact .and first word second
  | lone _ honly => exact honly.mono .lone
  | not word _ hinner =>
    apply (word.takes.followed hinner).mono
    rintro cs rest ⟨cs', word, inner⟩
    exact .not word inner
  | brackets opening _ closing hinner =>
    have hclosing := takes_of_spaced_symbol closing
    apply ((takes_of_spaced_symbol opening).followed (hinner.followed hclosing)).mono
    rintro cs rest ⟨cs', opening, cs'', inner, closing⟩
    exact .brackets opening inner closing
  | true word => exact word.takes.mono .true
  | false word => exact word.takes.mono .false
  | compare first between second reads =>
    have hbetween := takes_of_spaced_symbol between
    apply (first.takes.followed (hbetween.followed second.takes)).mono
    rintro cs rest ⟨cs', first, cs'', between, second⟩
    exact .compare first between second reads

end Rule

end BarReplay
