import BarReplay.Text.Characters

/-!
# Blanks, words and pieces

The three ways in which a text is taken apart: blanks are skipped, words are taken off its head, and
it is cut at separators.
-/

namespace BarReplay.Text

/-! ### Blanks

White space is the White_Space property of Unicode: the line and page controls, the space, the
no-break spaces and the typographic spaces. A zero-width space is not one of them. Everything that
is trimmed or skipped in this library is trimmed or skipped by this property.
-/

/-- The White_Space code points. -/
def blankRanges : List (Nat × Nat) :=
  [(0x9, 0xD), (0x20, 0x20), (0x85, 0x85), (0xA0, 0xA0), (0x1680, 0x1680), (0x2000, 0x200A),
    (0x2028, 0x2029), (0x202F, 0x202F), (0x205F, 0x205F), (0x3000, 0x3000)]

/-- A character of white space. -/
def isBlank (c : Char) : Bool :=
  inRanges blankRanges c

/-- The text from its first character that is not blank. -/
def skipBlank (cs : List Char) : List Char :=
  cs.dropWhile isBlank

@[simp]
theorem skipBlank_nil : skipBlank [] = [] :=
  rfl

theorem skipBlank_length_le (cs : List Char) : (skipBlank cs).length ≤ cs.length :=
  (List.dropWhile_sublist _).length_le

/-- The text without the blanks at either end. -/
def trim (cs : List Char) : List Char :=
  (skipBlank (skipBlank cs).reverse).reverse

/-! ### Words

A word is a run of letters, numerals and underscores. The first character that cannot extend a
word ends it, so the word at the head of a text and what follows it are the two halves of one cut.
-/

/-- A character that can stand inside a word. -/
def isWordChar (c : Char) : Bool :=
  isLetter c || isNumeral c || c == '_'

/-- The word at the head of the text, empty when the text starts with none. -/
def headWord (cs : List Char) : List Char :=
  cs.takeWhile isWordChar

/-- What follows the word at the head of the text. -/
def afterWord (cs : List Char) : List Char :=
  cs.dropWhile isWordChar

@[simp]
theorem headWord_append_afterWord (cs : List Char) : headWord cs ++ afterWord cs = cs :=
  List.takeWhile_append_dropWhile

/-- The text starts inside a word. -/
def startsWord (cs : List Char) : Bool :=
  cs.head?.any isWordChar

/-! ### Pieces of a text

A text is cut at every occurrence of a separator. The pieces with the separator between them are the
text again, and there is always one piece more than there are separators.
-/

/-- The pieces of a text between the characters that satisfy `p`. -/
def pieces (p : Char → Bool) : List Char → List (List Char)
  | [] => [[]]
  | c :: cs =>
    if p c then [] :: pieces p cs
    else
      match pieces p cs with
      | [] => [[c]]
      | piece :: rest => (c :: piece) :: rest

/-- The lines of a text: what stands between line feeds, without an empty last line and without a
carriage return at the end of a line. -/
def lines (cs : List Char) : List (List Char) :=
  let parts := pieces (· == '\n') cs
  let full := if parts.getLast? = some [] then parts.dropLast else parts
  full.map fun line ↦ if line.getLast? = some '\r' then line.dropLast else line

/-- The rules of a list written on one line: what stands between bars, trimmed, without the blank
pieces. -/
def listed (cs : List Char) : List (List Char) :=
  ((pieces (· == '|') cs).map trim).filter fun piece ↦ !piece.isEmpty

end BarReplay.Text

/-- The string without the blanks at either end. -/
def String.trimBlank (s : String) : String :=
  String.ofList (BarReplay.Text.trim s.toList)
