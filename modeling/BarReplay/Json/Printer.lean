import BarReplay.Decimal.Layout
import BarReplay.Json.Value

/-!
# Writing JSON

A value is written compactly, with nothing between its parts, or spread over lines, two blanks of
indentation to a bracket. Both are one printer under two spacings. In a string only the quote, the
backslash and the control characters are escaped.
-/

namespace BarReplay.Json

/-- What stands between the parts of a value. -/
structure Spacing where
  /-- Before an item, or before the bracket that closes a list of items, at a depth. -/
  line : Nat → List Char
  /-- Between the colon of an entry and its value. -/
  gap : List Char

/-- Nothing between the parts. -/
def Spacing.compact : Spacing :=
  ⟨fun _ ↦ [], []⟩

/-- Every item on a line of its own. -/
def Spacing.spread : Spacing :=
  ⟨fun depth ↦ '\n' :: List.replicate (2 * depth) ' ', [' ']⟩

/-- A hexadecimal digit in small letters. -/
def hexDigit (n : Nat) : Char :=
  Nat.digitChar n

/-- A character as it stands in a string. -/
def escape (c : Char) : List Char :=
  match c with
  | '"' => ['\\', '"']
  | '\\' => ['\\', '\\']
  | '\n' => ['\\', 'n']
  | '\r' => ['\\', 'r']
  | '\t' => ['\\', 't']
  | '\x08' => ['\\', 'b']
  | '\x0c' => ['\\', 'f']
  | c =>
    if c.toNat < 0x20 then ['\\', 'u', '0', '0', hexDigit (c.toNat / 16), hexDigit (c.toNat % 16)]
    else [c]

/-- A text as a string, with its quotes. -/
def quoted (text : String) : List Char :=
  '"' :: text.toList.flatMap escape ++ ['"']

/-- Parts between a pair of brackets, with commas between them. -/
def bracketed (s : Spacing) (depth : Nat) (left right : Char) : List (List Char) → List Char
  | [] => [left, right]
  | part :: rest =>
    left :: s.line (depth + 1) ++ part ++ (rest.flatMap fun p ↦ ',' :: s.line (depth + 1) ++ p) ++
      s.line depth ++ [right]

namespace Value

mutual

/-- The text of a value that stands inside `depth` brackets. -/
def chars (s : Spacing) (depth : Nat) : Value → List Char
  | null => ['n', 'u', 'l', 'l']
  | bool true => ['t', 'r', 'u', 'e']
  | bool false => ['f', 'a', 'l', 's', 'e']
  | number text => text
  | string text => quoted text
  | array items => bracketed s depth '[' ']' (itemChars s (depth + 1) items)
  | object entries => bracketed s depth '\x7b' '\x7d' (entryChars s (depth + 1) entries)
  | unpaired source => source

/-- The texts of the items of an array. -/
def itemChars (s : Spacing) (depth : Nat) : List Value → List (List Char)
  | [] => []
  | v :: rest => v.chars s depth :: itemChars s depth rest

/-- The texts of the entries of an object. -/
def entryChars (s : Spacing) (depth : Nat) : List (String × Value) → List (List Char)
  | [] => []
  | (key, v) :: rest =>
    (quoted key ++ ':' :: s.gap ++ v.chars s depth) :: entryChars s depth rest

end

/-- The text of a value with nothing between its parts. -/
def compact (v : Value) : String :=
  String.ofList (v.chars .compact 0)

/-- The text of a value with every item on a line of its own. -/
def spread (v : Value) : String :=
  String.ofList (v.chars .spread 0)

/-- A double as a number, or null if it is not finite. -/
def ofFloat (x : Float) : Value :=
  if x.isFinite then number (Decimal.Layout.report.finite x) else null

/-- A double that may be missing, as a number or null. -/
def ofOptionalFloat (x : Option Float) : Value :=
  (x.map ofFloat).getD null

/-- A count as a number. -/
def ofNat (n : Nat) : Value :=
  number (Decimal.digitsOf n)

end Value

end BarReplay.Json
