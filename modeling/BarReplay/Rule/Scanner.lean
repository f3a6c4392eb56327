import BarReplay.Decimal.Numeral
import BarReplay.Rule.Expr
import BarReplay.Rule.Printer
import BarReplay.Text.Words

/-!
# The leaves of a rule

Scanners for what a rule is made of: keywords, comparison signs, fields and numbers. Each skips the
blanks before what it takes and returns the rest of the text with the proof that the rest is
shorter, which is what the recursion over nested rules descends on. A keyword or a number is taken
only if no word goes on after it; a field is the longest word there is.
-/

namespace BarReplay

/-- A proper rest of a text. -/
abbrev Rest (cs : List Char) :=
  { r : List Char // r.length < cs.length }

/-- A rest of a rest. -/
def Rest.through {cs ds : List Char} (r : Rest ds) (h : ds.length ≤ cs.length) : Rest cs :=
  ⟨r.1, Nat.lt_of_lt_of_le r.2 h⟩

namespace Rule

/-- What stands at the head of the text, as a message shows it: a word, or else one character. -/
def glimpse (cs : List Char) : Option (List Char) :=
  match Text.headWord cs, cs with
  | [], [] => none
  | [], c :: _ => some [c]
  | word, _ => some word

/-- The text after the given keyword, in either letter case, if it stands at the head. -/
def keyword? (word : List Char) (cs : List Char) : Option (List Char) :=
  let cs := Text.skipBlank cs
  let rest := cs.drop word.length
  if Text.asciiLower (cs.take word.length) = word ∧ Text.startsWord rest = false then some rest
  else none

theorem keyword?_length {word cs rest : List Char} (h : keyword? word cs = some rest) :
    rest.length + word.length ≤ cs.length := by
  have hskip := Text.skipBlank_length_le cs
  unfold keyword? at h
  simp only [Option.ite_none_right_eq_some, Option.some.injEq] at h
  obtain ⟨⟨htake, -⟩, rfl⟩ := h
  have hlen := congrArg List.length htake
  simp at hlen ⊢
  omega

/-- The comparison sign at the head of a text, the longer sign first. -/
def sign? : List Char → Option (Comparison × List Char)
  | '<' :: '=' :: rest => some (.le, rest)
  | '>' :: '=' :: rest => some (.ge, rest)
  | '=' :: '=' :: rest => some (.eq, rest)
  | '!' :: '=' :: rest => some (.ne, rest)
  | '<' :: rest => some (.lt, rest)
  | '>' :: rest => some (.gt, rest)
  | _ => none

theorem sign?_length {cs rest : List Char} {sign : Comparison} (h : sign? cs = some (sign, rest)) :
    rest.length < cs.length := by
  unfold sign? at h
  split at h <;> simp at h <;> obtain ⟨-, rfl⟩ := h <;> simp only [List.length_cons] <;> omega

/-- A comparison sign. -/
def comparisonSign (cs : List Char) : Except Stop (Comparison × Rest cs) :=
  let text := Text.skipBlank cs
  match h : sign? text with
  | some (sign, rest) =>
    .ok (sign, ⟨rest, Nat.lt_of_lt_of_le (sign?_length h) (Text.skipBlank_length_le cs)⟩)
  | none => .error ⟨.missingSign (glimpse text), text⟩

/-- The sign of a number and the text after it. -/
def minus (cs : List Char) : Bool × List Char :=
  match cs with
  | '-' :: rest => (true, rest)
  | _ => (false, cs)

theorem minus_length_le (cs : List Char) : (minus cs).2.length ≤ cs.length := by
  unfold minus
  split <;> simp

/-- A number at the head of a text. -/
def number (cs : List Char) : Except Stop (Float × Rest cs) :=
  match h : Decimal.Numeral.scan? (minus cs).2 with
  | none => .error ⟨.missingDigits, cs⟩
  | some (n, rest) =>
    if Text.startsWord rest then
      .error ⟨.invalidNumber (cs.take (cs.length - rest.length) ++ Text.headWord rest), cs⟩
    else
      .ok (if (minus cs).1 then -n.toFloat else n.toFloat,
        ⟨rest, Nat.lt_of_lt_of_le (Decimal.Numeral.scan?_length h) (minus_length_le cs)⟩)

/-- A text that starts with this character starts with a number, if with an operand at all. -/
def startsNumber (c : Char) : Bool :=
  c.isDigit || c == '-' || c == '.'

/-- A text that starts with this character starts with a word that should name a field. -/
def startsField (c : Char) : Bool :=
  Text.isLetter c || c == '_'

/-- The field named by the word that starts with `c` and goes on in `cs`. -/
def fieldWord (c : Char) (cs : List Char) : Except Stop (Field × Rest (c :: cs)) :=
  let word := c :: Text.headWord cs
  match Field.named? word with
  | some field =>
    .ok (field, ⟨Text.afterWord cs, by
      have := (List.dropWhile_sublist (p := Text.isWordChar) (l := cs)).length_le
      simp [Text.afterWord]; omega⟩)
  | none => .error ⟨.unknownField word, c :: cs⟩

/-- A field or a number. -/
def operand (cs : List Char) : Except Stop (Operand Float × Rest cs) :=
  match h : Text.skipBlank cs with
  | [] => .error ⟨.missingOperand none, []⟩
  | c :: rest =>
    have hle : (c :: rest).length ≤ cs.length := h ▸ Text.skipBlank_length_le cs
    if startsNumber c then do
      let (value, r) ← number (c :: rest)
      .ok (.constant value, r.through hle)
    else if startsField c then do
      let (field, r) ← fieldWord c rest
      .ok (.field field, r.through hle)
    else .error ⟨.missingOperand (glimpse (c :: rest)), c :: rest⟩

/-- Two operands and the sign between them, at least one of them a field. -/
def comparison (cs : List Char) : Except Stop (Expr Float × Rest cs) := do
  let (left, r) ← operand cs
  let (sign, r') ← comparisonSign r.1
  let (right, r'') ← operand r'.1
  match left, right with
  | .constant _, .constant _ => .error ⟨.constantComparison, Text.skipBlank cs⟩
  | _, _ =>
    .ok (.compare left sign right,
      ⟨r''.1, by have := r.2; have := r'.2; have := r''.2; omega⟩)

end Rule

end BarReplay
