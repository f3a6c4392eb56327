import BarReplay.Proofs.Decimal.Nearest
import BarReplay.Rule.Parser

/-!
# The grammar of rules

What a rule is, without saying how it is read. A token or a phrase stands at the head of a text and
leaves a rest, which tells the words that end there from those that go on. Blanks may stand before
every token and at the end of a rule. The grammar does not say that a number is as long as it can
be: a number that is cut short leaves a rest with which nothing can go on.
-/

namespace BarReplay

/-! ### Numbers -/

namespace Decimal

/-- The exact value of a numeral. -/
def Numeral.value (n : Numeral) : ℚ :=
  valueOf (n.whole ++ n.fraction) * 10 ^ (n.exponent - n.fraction.length)

/-- All characters are decimal digits. -/
def AllDigits (ds : List Char) : Prop :=
  ∀ d ∈ ds, d.isDigit = true

/-- A fraction with its text: a point and digits, or nothing at all. -/
inductive FractionText : List Char → List Char → Prop where
  | absent : FractionText [] []
  | point {ds : List Char} (digits : AllDigits ds) : FractionText ds ('.' :: ds)

/-- An exponent with its text: the letter, a sign or none, and at least one digit, or nothing at
all. -/
inductive ExponentText : ℤ → List Char → Prop where
  | absent : ExponentText 0 []
  | unsigned {c : Char} {ds : List Char} (letter : c = 'e' ∨ c = 'E') (digits : AllDigits ds)
      (some : ds ≠ []) : ExponentText (valueOf ds) (c :: ds)
  | plus {c : Char} {ds : List Char} (letter : c = 'e' ∨ c = 'E') (digits : AllDigits ds)
      (some : ds ≠ []) : ExponentText (valueOf ds) (c :: '+' :: ds)
  | minus {c : Char} {ds : List Char} (letter : c = 'e' ∨ c = 'E') (digits : AllDigits ds)
      (some : ds ≠ []) : ExponentText (-valueOf ds) (c :: '-' :: ds)

/-- A numeral with its text: digits, at least one of them and at most one point, and an exponent or
none. -/
inductive NumeralText : Numeral → List Char → Prop where
  | mk {n : Numeral} {point exponent : List Char} (whole : AllDigits n.whole)
      (fraction : FractionText n.fraction point) (some : n.whole ≠ [] ∨ n.fraction ≠ [])
      (scale : ExponentText n.exponent exponent) : NumeralText n (n.whole ++ point ++ exponent)

end Decimal

namespace Rule

open Decimal (IsNearest Numeral NumeralText)

/-! ### Tokens -/

/-- The word at the head of a text, up to letter case; it ends where no word goes on. -/
inductive Word (word : List Char) : List Char → List Char → Prop where
  | mk {letters rest : List Char} (inside : ∀ c ∈ letters, Text.isWordChar c = true)
      (ends : Text.startsWord rest = false) (spelled : Text.asciiLower letters = word) :
      Word word (letters ++ rest) rest

/-- A bracket or a comparison sign at the head of a text. -/
inductive Symbol (symbol : List Char) : List Char → List Char → Prop where
  | mk {rest : List Char} : Symbol symbol (symbol ++ rest) rest

/-- A number at the head of a text, and the double nearest to it. No word goes on after it. -/
inductive Number : Float → List Char → List Char → Prop where
  | unsigned {n : Numeral} {x : Float} {text rest : List Char} (spelled : NumeralText n text)
      (ends : Text.startsWord rest = false) (nearest : IsNearest n.value x) :
      Number x (text ++ rest) rest
  | negative {n : Numeral} {x : Float} {text rest : List Char} (spelled : NumeralText n text)
      (ends : Text.startsWord rest = false) (nearest : IsNearest n.value x) :
      Number (-x) ('-' :: text ++ rest) rest

/-- There is nothing but blanks. -/
def AllBlank (cs : List Char) : Prop :=
  ∀ c ∈ cs, Text.isBlank c = true

/-- A token after blanks. -/
inductive Spaced (Token : List Char → List Char → Prop) : List Char → List Char → Prop where
  | mk {blanks text rest : List Char} (blank : AllBlank blanks) (token : Token text rest) :
      Spaced Token (blanks ++ text) rest

/-- A keyword, after blanks. -/
def Keyword (word : String) : List Char → List Char → Prop :=
  Spaced (Word word.toList)

/-- A field by its name, or a number, after blanks. -/
inductive Side : Operand Float → List Char → List Char → Prop where
  | field {f : Field} {cs rest : List Char} (word : Spaced (Word f.name.toList) cs rest) :
      Side (.field f) cs rest
  | constant {x : Float} {cs rest : List Char} (number : Spaced (Number x) cs rest) :
      Side (.constant x) cs rest

/-- The operand is a constant. -/
def IsConstant (o : Operand Float) : Prop :=
  ∃ x, o = .constant x

/-! ### Phrases -/

/-- The kinds of phrases, loosest first. -/
inductive Phrase where
  | disjunction
  | conjunction
  | factor

/-- **The grammar of rules.** A phrase of some kind stands at the head of a text, is the given tree,
and leaves the rest. Chains lean to the left. -/
inductive Derives : Phrase → List Char → Expr Float → List Char → Prop where
  | or {cs cs' cs'' rest : List Char} {left right : Expr Float}
      (first : Derives .disjunction cs left cs') (word : Keyword "or" cs' cs'')
      (second : Derives .conjunction cs'' right rest) :
      Derives .disjunction cs (.or left right) rest
  | single {cs rest : List Char} {e : Expr Float} (only : Derives .conjunction cs e rest) :
      Derives .disjunction cs e rest
  | and {cs cs' cs'' rest : List Char} {left right : Expr Float}
      (first : Derives .conjunction cs left cs') (word : Keyword "and" cs' cs'')
      (second : Derives .factor cs'' right rest) :
      Derives .conjunction cs (.and left right) rest
  | lone {cs rest : List Char} {e : Expr Float} (only : Derives .factor cs e rest) :
      Derives .conjunction cs e rest
  | not {cs cs' rest : List Char} {e : Expr Float} (word : Keyword "not" cs cs')
      (inner : Derives .factor cs' e rest) : Derives .factor cs (.not e) rest
  | brackets {cs cs' cs'' rest : List Char} {e : Expr Float}
      (opening : Spaced (Symbol ['(']) cs cs') (inner : Derives .disjunction cs' e cs'')
      (closing : Spaced (Symbol [')']) cs'' rest) : Derives .factor cs e rest
  | true {cs rest : List Char} (word : Keyword "true" cs rest) :
      Derives .factor cs (.literal true) rest
  | false {cs rest : List Char} (word : Keyword "false" cs rest) :
      Derives .factor cs (.literal false) rest
  | compare {cs cs' cs'' rest : List Char} {left right : Operand Float} {sign : Comparison}
      (first : Side left cs cs') (between : Spaced (Symbol sign.sign.toList) cs' cs'')
      (second : Side right cs'' rest) (reads : ¬ (IsConstant left ∧ IsConstant right)) :
      Derives .factor cs (.compare left sign right) rest

/-- The text is one rule, and nothing but blanks is left of it. -/
def IsRule (cs : List Char) (e : Expr Float) : Prop :=
  ∃ blanks, AllBlank blanks ∧ Derives .disjunction cs e blanks

end Rule

end BarReplay
