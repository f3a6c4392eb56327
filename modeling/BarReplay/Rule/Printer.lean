import BarReplay.Decimal.Layout
import BarReplay.Market.Bar
import BarReplay.Rule.Expr
import BarReplay.Text.Utf8

/-!
# Rules in messages

What a reader gets to see of rules: the text that a rule is printed as, and what is said about a
text that is no rule.
-/

namespace BarReplay

/-! ### The canonical text of a rule

Connectives are written in small letters with single blanks, every conjunction and disjunction in
brackets and nothing else in brackets, and constants as all their digits.
-/

/-- The canonical text of an operand. -/
def Operand.chars : Operand Float → List Char
  | field f => f.name.toList
  | constant value => Decimal.messageChars value

/-- The canonical text of a rule. -/
def Expr.chars : Expr Float → List Char
  | literal true => "true".toList
  | literal false => "false".toList
  | compare left sign right => left.chars ++ ' ' :: sign.sign.toList ++ ' ' :: right.chars
  | and left right => '(' :: left.chars ++ " and ".toList ++ right.chars ++ [')']
  | or left right => '(' :: left.chars ++ " or ".toList ++ right.chars ++ [')']
  | not inner => "not ".toList ++ inner.chars

/-- The canonical text of a rule, as a string. -/
def Expr.text (e : Expr Float) : String :=
  String.ofList e.chars

/-! ### What can be wrong with the text of a rule

A text that is no rule is refused with one fault and the place where reading had to stop. The place
is a rest of the text; as a position it is the number of bytes before it. The wording of a fault is
in `ParseFault.message` and nowhere else.
-/

/-- Why a text is no rule. What was found in place of what was expected is a word or a single
character, or nothing at the end of the text. -/
inductive ParseFault where
  /-- There is nothing but blanks. -/
  | emptyRule
  /-- A bracket is not closed. -/
  | unclosed (found : Option Char)
  /-- Both sides of a comparison are constants. -/
  | constantComparison
  /-- A comparison sign was expected. -/
  | missingSign (found : Option (List Char))
  /-- A word stands where a field should, and names none. -/
  | unknownField (word : List Char)
  /-- A field or a number was expected. -/
  | missingOperand (found : Option (List Char))
  /-- A sign or a point is not followed by a number. -/
  | missingDigits
  /-- A number runs into a word. -/
  | invalidNumber (text : List Char)
  /-- The rule is over and the text is not. -/
  | trailing (found : Option (List Char))
  deriving DecidableEq, Repr

/-- A refusal to read on: the fault and the text from which it was seen. -/
structure Stop where
  fault : ParseFault
  rest : List Char
  deriving DecidableEq, Repr

/-- The refusal of a text as a rule. -/
structure ParseError where
  fault : ParseFault
  position : Nat
  deriving DecidableEq, Repr

/-- What was found, in a message. -/
def foundText : Option (List Char) → String
  | some word => String.ofList word
  | none => "end of input"

/-- The wording of a fault. -/
def ParseFault.message : ParseFault → String
  | emptyRule => "empty rule"
  | unclosed (some c) => "expected ')', found '" ++ c.toString ++ "'"
  | unclosed none => "expected ')', found end of input"
  | constantComparison => "comparison must reference at least one field"
  | missingSign found =>
    "expected comparison operator (<, >, <=, >=, ==, !=), found '" ++ foundText found ++ "'"
  | unknownField word =>
    "unknown field '" ++ String.ofList word ++ "', expected one of: " ++ Field.knownNames
  | missingOperand found => "expected field or number, found '" ++ foundText found ++ "'"
  | missingDigits => "expected number"
  | invalidNumber text => "invalid number: " ++ String.ofList text
  | trailing found => "unexpected trailing input '" ++ foundText found ++ "'"

namespace ParseError

/-- The refusal of `text` at the place where reading stopped. -/
def ofStop (text : List Char) (stop : Stop) : ParseError :=
  ⟨stop.fault, Text.positionOf text stop.rest⟩

/-- The wording of a refusal. -/
def message (e : ParseError) : String :=
  "parse error at position " ++ toString e.position ++ ": " ++ e.fault.message

/-- The refused rule, a caret as many columns in as there are bytes before the fault, and the
wording. -/
def inContext (e : ParseError) (rule : String) : String :=
  rule ++ "\n" ++ String.ofList (List.replicate e.position ' ') ++ "^\n" ++ e.message

end ParseError

end BarReplay
