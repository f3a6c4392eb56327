import BarReplay.Proofs.Rule.Alphabet
import BarReplay.Proofs.Rule.Positions
import BarReplay.Proofs.Text.Pieces

/-!
# The caret under a refused rule

A refused rule is shown with a line under it on which a caret stands as many columns in as there are
bytes before the fault. A reader counts characters. What stands before a fault is the beginning of a
rule, so its characters are those of tokens, which have one byte each, and blanks, which may have
more: the caret stands too far to the right by just the bytes that these blanks have beyond one
(`Expr.caret_column`). It stands under the fault exactly if there is no wide blank before it.
-/

namespace BarReplay

/-! ### The line of the caret -/

/-- The line that is shown under a refused rule. -/
def ParseError.caretLine? (error : ParseError) (rule : String) : Option (List Char) :=
  (Text.lines (error.inContext rule).toList)[1]?

/-- The line of a caret under the column with the given number. -/
def caretLine (column : ℕ) : List Char :=
  List.replicate column ' ' ++ ['^']

theorem caretLine_injective {m n : ℕ} (h : caretLine m = caretLine n) : m = n := by
  have hlength := congrArg List.length h
  simpa [caretLine] using hlength

/-- The second of three lines or more. -/
theorem Text.getElem?_lines {first second rest : List Char} (hfirst : '\n' ∉ first)
    (hsecond : '\n' ∉ second) (hreturn : second.getLast? ≠ some '\r') :
    (lines (first ++ '\n' :: (second ++ '\n' :: rest)))[1]? = some second := by
  have hnone {line : List Char} (h : '\n' ∉ line) : ∀ c ∈ line, (c == '\n') = false := by
    intro c hc
    rw [beq_eq_false_iff_ne]
    rintro rfl
    exact h hc
  have hparts : pieces (· == '\n') (first ++ '\n' :: (second ++ '\n' :: rest)) =
      first :: second :: pieces (· == '\n') rest := by
    rw [pieces_append_cons (hnone hfirst) (beq_self_eq_true _),
      pieces_append_cons (hnone hsecond) (beq_self_eq_true _)]
  obtain ⟨piece, more, hmore⟩ := exists_pieces_eq_cons (p := (· == '\n')) rest
  simp only [lines, hparts, hmore]
  split_ifs <;> simp [hreturn]

/-- On a rule without line breaks, the caret stands as many columns in as its position says. -/
theorem ParseError.caretLine?_eq (error : ParseError) {rule : String} (h : '\n' ∉ rule.toList) :
    error.caretLine? rule = some (caretLine error.position) := by
  have hline : '\n' ∉ caretLine error.position := by
    simp [caretLine]
  have hshown : (error.inContext rule).toList =
      rule.toList ++ '\n' :: (caretLine error.position ++ '\n' :: error.message.toList) := by
    simp [inContext, caretLine]
  rw [caretLine?, hshown, Text.getElem?_lines h hline (by simp [caretLine])]

/-! ### Wide blanks -/

/-- The number of bytes that the blanks of a text have beyond one each. -/
def Text.blankExcess : List Char → ℕ
  | [] => 0
  | c :: cs => (if isBlank c then c.utf8Size - 1 else 0) + blankExcess cs

/-- A text of blanks and token characters has one byte for each character and the excess of its
blanks. -/
theorem byteLength_eq_add_blankExcess {cs : List Char}
    (h : ∀ c ∈ cs, Text.isBlank c = true ∨ Rule.isTokenChar c = true) :
    Text.byteLength cs = cs.length + Text.blankExcess cs := by
  induction cs with
  | nil => rfl
  | cons c cs ih =>
    have hsize : c.utf8Size = 1 + if Text.isBlank c then c.utf8Size - 1 else 0 := by
      have hpos := c.utf8Size_pos
      split_ifs with hblank
      · omega
      · exact Rule.utf8Size_of_isTokenChar ((h c List.mem_cons_self).resolve_left hblank)
    rw [Text.byteLength_cons, List.length_cons, Text.blankExcess,
      ih fun d hd ↦ h d (List.mem_cons_of_mem c hd)]
    omega

theorem Text.blankExcess_eq_zero_iff {cs : List Char} :
    blankExcess cs = 0 ↔ ∀ c ∈ cs, isBlank c = true → c.utf8Size = 1 := by
  induction cs with
  | nil => simp [blankExcess]
  | cons c cs ih =>
    have hpos := c.utf8Size_pos
    rw [blankExcess, Nat.add_eq_zero_iff, List.forall_mem_cons, ih]
    refine and_congr_left fun _ ↦ ?_
    split_ifs with hblank
    · simp only [hblank, forall_const]
      omega
    · simp [hblank]

/-! ### Where the caret stands -/

/-- **The caret stands under the fault if no wide blank stands before it.** On a rule without line
breaks that is refused, the caret is as many columns to the right of the fault as the blanks before
it have bytes beyond one each. -/
theorem Expr.caret_column {text : String} {error : ParseError} (hline : '\n' ∉ text.toList)
    (h : Expr.parse text = .error error) :
    ∃ before after : String, text = before ++ after ∧ before.utf8ByteSize = error.position ∧
      error.caretLine? text =
        some (caretLine (before.length + Text.blankExcess before.toList)) ∧
      (error.caretLine? text = some (caretLine before.length) ↔
        ∀ c ∈ before.toList, Text.isBlank c = true → c.utf8Size = 1) := by
  obtain ⟨done, rest, htext, hposition, hchars⟩ : ∃ done rest, text.toList = done ++ rest ∧
      error.position = Text.byteLength done ∧
      ∀ c ∈ done, Text.isBlank c = true ∨ Rule.isTokenChar c = true := by
    rw [Expr.parse] at h
    cases hparse : Rule.parseChars text.toList with
    | ok e =>
      rw [hparse] at h
      cases h
    | error stop =>
      rw [hparse] at h
      cases h
      obtain ⟨done, completion, e, htext, hrule⟩ := Rule.completable_of_parseChars hparse
      refine ⟨done, stop.rest, htext, ?_, fun c hc ↦ ?_⟩
      · rw [ParseError.ofStop, htext, Text.positionOf_append]
      · exact hrule.blank_or_token (List.mem_append_left completion hc)
  have hlength : error.position = done.length + Text.blankExcess done :=
    hposition.trans (byteLength_eq_add_blankExcess hchars)
  refine ⟨String.ofList done, String.ofList rest, ?_, ?_, ?_, ?_⟩
  · rw [← String.ofList_append, ← htext, String.ofList_toList]
  · rw [Text.utf8ByteSize_ofList, hposition]
  · rw [error.caretLine?_eq hline, hlength, String.toList_ofList, String.length_ofList]
  · rw [error.caretLine?_eq hline, hlength, String.toList_ofList, String.length_ofList,
      ← Text.blankExcess_eq_zero_iff, Option.some_inj]
    constructor
    · intro hcaret
      have hcolumn := caretLine_injective hcaret
      omega
    · intro hexcess
      rw [hexcess, Nat.add_zero]

/-- A wide blank stands before the fault, whose position is eight. -/
theorem Expr.sample_caret_column :
    '\n' ∉ "rsi <\u3000é".toList ∧ Expr.parse "rsi <\u3000é" = .error ⟨.unknownField ['é'], 8⟩ ∧
      ∃ before after : String, "rsi <\u3000é" = before ++ after ∧ before.utf8ByteSize = 8 ∧
        ParseError.caretLine? ⟨.unknownField ['é'], 8⟩ "rsi <\u3000é" =
          some (caretLine (before.length + Text.blankExcess before.toList)) := by
  have hline : '\n' ∉ "rsi <\u3000é".toList := by decide
  obtain ⟨before, after, htext, hsize, hcaret, -⟩ :=
    Expr.caret_column hline Sample.parse_misnamed
  exact ⟨hline, Sample.parse_misnamed, before, after, htext, hsize, hcaret⟩

/-- The caret does not always stand under the fault: it is not always in the column that has as many
characters before it as the fault. -/
theorem Expr.caret_misplaced : ¬ ∀ (text : String) (error : ParseError), '\n' ∉ text.toList →
    Expr.parse text = .error error → ∀ before after : String, text = before ++ after →
    before.utf8ByteSize = error.position →
    error.caretLine? text = some (caretLine before.length) := by
  intro h
  have hline : '\n' ∉ "rsi <\u3000é".toList := by decide
  have hcaret := h _ _ hline Sample.parse_misnamed "rsi <\u3000" "é" rfl rfl
  rw [ParseError.caretLine?_eq _ hline, Option.some_inj] at hcaret
  exact absurd (caretLine_injective hcaret) (by decide)

end BarReplay
