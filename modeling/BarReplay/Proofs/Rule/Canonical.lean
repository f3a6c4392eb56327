import BarReplay.Proofs.Decimal.Positional
import BarReplay.Proofs.Rule.Parsing
import BarReplay.Rule.Printer

/-!
# Canonical text reads back

The canonical text of a tree is a single factor of the grammar, whatever follows it except more of a
word (`Rule.readsBack`). So it reads back as the tree. Constants have to be finite, because the
others have no text that is a number, and a comparison has to read a field.
-/

namespace BarReplay

open Decimal (exists_numeralText_messageChars)

/-- A constant operand is finite. -/
def Operand.IsFinite : Operand Float → Prop
  | field _ => True
  | constant x => x.isFinite = true

/-- All constants are finite, and every comparison reads a field. -/
def Expr.IsReadable : Expr Float → Prop
  | literal _ => True
  | compare left _ right =>
    left.IsFinite ∧ right.IsFinite ∧ ¬ (Rule.IsConstant left ∧ Rule.IsConstant right)
  | and left right => left.IsReadable ∧ right.IsReadable
  | or left right => left.IsReadable ∧ right.IsReadable
  | not inner => inner.IsReadable

instance (o : Operand Float) : Decidable o.IsFinite :=
  match o with
  | .field _ => .isTrue trivial
  | .constant x => inferInstanceAs (Decidable (x.isFinite = true))

instance (o : Operand Float) : Decidable (Rule.IsConstant o) :=
  match o with
  | .field _ => .isFalse (by rintro ⟨x, hx⟩; cases hx)
  | .constant x => .isTrue ⟨x, rfl⟩

/-- Whether a tree is readable can be computed. -/
instance Expr.decidableIsReadable : DecidablePred Expr.IsReadable
  | literal _ => .isTrue trivial
  | compare left _ right => inferInstanceAs (Decidable (left.IsFinite ∧ right.IsFinite ∧
    ¬ (Rule.IsConstant left ∧ Rule.IsConstant right)))
  | and left right =>
    @instDecidableAnd _ _ (decidableIsReadable left) (decidableIsReadable right)
  | or left right =>
    @instDecidableAnd _ _ (decidableIsReadable left) (decidableIsReadable right)
  | not inner => decidableIsReadable inner

namespace Rule

/-! ### Tokens of canonical text -/

/-- A token at the head of a text. -/
theorem spaced_of_token {Token : List Char → List Char → Prop} {text rest : List Char}
    (token : Token text rest) : Spaced Token text rest :=
  .mk (List.forall_mem_nil _) token

/-- A token after a single blank. -/
theorem spaced_of_token_space {Token : List Char → List Char → Prop} {text rest : List Char}
    (token : Token text rest) : Spaced Token (' ' :: text) rest :=
  @Spaced.mk _ [' '] _ _ (List.forall_mem_singleton.2 rfl) token

theorem skipBlank_space (cs : List Char) : Text.skipBlank (' ' :: cs) = Text.skipBlank cs :=
  List.dropWhile_cons_of_pos (by decide)

/-- The word is spelled as it is written in canonical text. -/
def IsSpelled (word : List Char) : Prop :=
  word.all Text.isWordChar = true ∧ Text.asciiLower word = word

instance : DecidablePred IsSpelled :=
  fun word ↦ inferInstanceAs (Decidable (word.all Text.isWordChar = true ∧ _ = _))

theorem IsSpelled.word {word rest : List Char} (h : IsSpelled word)
    (hrest : Text.startsWord rest = false) : Word word (word ++ rest) rest :=
  .mk (List.all_eq_true.1 h.1) hrest h.2

/-- A word after any blanks and one more. -/
theorem spaced_word {word blanks more : List Char} (hword : IsSpelled word)
    (hblank : AllBlank blanks) (hmore : Text.startsWord more = false) :
    Spaced (Word word) (blanks ++ (' ' :: word ++ more)) more := by
  have hblanks : AllBlank (blanks ++ [' ']) := by
    intro c hc
    exact (List.mem_append.1 hc).elim (hblank c) fun hc ↦ by rw [List.mem_singleton.1 hc]; rfl
  have h := Spaced.mk hblanks (hword.word hmore)
  rwa [List.append_assoc] at h

theorem isSpelled_name (f : Field) : IsSpelled f.name.toList := by
  cases f <;> decide

/-- A finite operand is read off its canonical text. -/
theorem side_chars {o : Operand Float} {rest : List Char} (ho : o.IsFinite)
    (hrest : Text.startsWord rest = false) : Side o (o.chars ++ rest) rest := by
  cases o with
  | field f => exact .field (spaced_of_token ((isSpelled_name f).word hrest))
  | constant x =>
    obtain ⟨n, y, text, htext, hnearest, ⟨hchars, rfl⟩ | ⟨hchars, rfl⟩⟩ :=
      exists_numeralText_messageChars ho
    · rw [Operand.chars, hchars]
      exact .constant (spaced_of_token (.unsigned htext hrest hnearest))
    · rw [Operand.chars, hchars]
      exact .constant (spaced_of_token (.negative htext hrest hnearest))

/-! ### Trees -/

/-- The tree is read off its canonical text as a factor, whatever follows the text except more of a
word. -/
def ReadsBack (e : Expr Float) : Prop :=
  ∀ rest, Text.startsWord rest = false → Derives .factor (e.chars ++ rest) e rest

/-- Two such trees with a keyword between them, up to the bracket that closes the pair. -/
theorem ReadsBack.joined {left right : Expr Float} (hleft : ReadsBack left)
    (hright : ReadsBack right) {word : String} (hword : IsSpelled word.toList)
    (rest : List Char) :
    ∃ cs' cs'', Derives .factor
        (left.chars ++ ' ' :: (word.toList ++ ' ' :: (right.chars ++ ')' :: rest))) left cs' ∧
      Keyword word cs' cs'' ∧ Derives .factor cs'' right (')' :: rest) := by
  have first := hleft (' ' :: (word.toList ++ ' ' :: (right.chars ++ ')' :: rest))) rfl
  have between : Keyword word (' ' :: (word.toList ++ ' ' :: (right.chars ++ ')' :: rest)))
      (' ' :: (right.chars ++ ')' :: rest)) := spaced_of_token_space (hword.word rfl)
  have second := hright (')' :: rest) rfl
  exact ⟨_, _, first, between, second.congr (skipBlank_space _)⟩

/-- **The canonical text of a tree reads back as a factor of the grammar.** -/
theorem readsBack {e : Expr Float} (he : e.IsReadable) : ReadsBack e := by
  induction e with
  | literal value =>
    intro rest hrest
    cases value with
    | true =>
      have hword : IsSpelled "true".toList := by decide
      exact .true (spaced_of_token (hword.word hrest))
    | false =>
      have hword : IsSpelled "false".toList := by decide
      exact .false (spaced_of_token (hword.word hrest))
  | compare left sign right =>
    intro rest hrest
    obtain ⟨hleft, hright, hreads⟩ := he
    have first : Side left (left.chars ++ ' ' :: (sign.sign.toList ++ ' ' :: (right.chars ++ rest)))
        (' ' :: (sign.sign.toList ++ ' ' :: (right.chars ++ rest))) := side_chars hleft rfl
    have second : Side right (right.chars ++ rest) rest := side_chars hright hrest
    -- the blank before the second operand belongs to its token
    have h := Derives.compare first (spaced_of_token_space .mk)
      (second.congr (skipBlank_space _)) hreads
    simpa [Expr.chars] using h
  | and left right hleft hright =>
    intro rest hrest
    have hword : IsSpelled "and".toList := by decide
    obtain ⟨cs', cs'', first, word, second⟩ := (hleft he.1).joined (hright he.2) hword rest
    have h := Derives.brackets (spaced_of_token .mk) (.single (.and (.lone first) word second))
      (spaced_of_token .mk)
    simpa [Expr.chars] using h
  | or left right hleft hright =>
    intro rest hrest
    have hword : IsSpelled "or".toList := by decide
    obtain ⟨cs', cs'', first, word, second⟩ := (hleft he.1).joined (hright he.2) hword rest
    have h := Derives.brackets (spaced_of_token .mk)
      (.or (.single (.lone first)) word (.lone second)) (spaced_of_token .mk)
    simpa [Expr.chars] using h
  | not inner hinner =>
    intro rest hrest
    have hword : IsSpelled "not".toList := by decide
    have hnot : Keyword "not" ("not".toList ++ ' ' :: (inner.chars ++ rest))
        (' ' :: (inner.chars ++ rest)) := spaced_of_token (hword.word rfl)
    have h := Derives.not hnot ((hinner he rest hrest).congr (skipBlank_space _))
    simpa [Expr.chars] using h

/-- The canonical text of a tree is a rule with that tree. -/
theorem isRule_text {e : Expr Float} (he : e.IsReadable) : IsRule e.text.toList e := by
  have h := Rule.readsBack he [] rfl
  rw [List.append_nil] at h
  rw [Expr.text, String.toList_ofList]
  exact ⟨[], List.forall_mem_nil _, .single (.lone h)⟩

end Rule

/-- **Canonical text reads back.** A tree whose constants are finite and whose comparisons read
fields is what its canonical text is read as. -/
theorem Expr.parse_text {e : Expr Float} (he : e.IsReadable) : Expr.parse e.text = .ok e :=
  parse_eq_ok_iff.2 (Rule.isRule_text he)

/-- A negated disjunction of comparisons, with a constant below zero. -/
def sampleExpr : Expr Float :=
  .not (.or (.compare (.field .macd) .lt (.constant (-0.5)))
    (.compare (.field .close) .ge (.field .sma20)))

theorem sample_parse_text : sampleExpr.IsReadable ∧
    Expr.parse "not (macd < -0.5 or close >= sma_20)" = .ok sampleExpr := by
  have hreadable : sampleExpr.IsReadable := by decide
  have htext : sampleExpr.text = "not (macd < -0.5 or close >= sma_20)" := by decide +kernel
  exact ⟨hreadable, htext ▸ Expr.parse_text hreadable⟩

end BarReplay
