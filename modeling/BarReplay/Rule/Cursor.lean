import BarReplay.Rule.Scanner

/-!
# Reading rules by position

The reader of rules as a machine that moves a position along its text. The position counts bytes,
and whatever the machine looks at is cut out of the text at positions. A cut can only be made
between two characters; a cut anywhere else ends the reading with `Halt.astray`, which is no
refusal of the text but a fault of the machine. Nor is it said by the definition that a reading
ends: its loops and phrases go round as often as a bound `depth` allows, and a reading that would
have to go on has no result.

The machine makes the same moves in the same order as a reader of the text would by hand: it skips
blanks before it looks for a keyword, and keeps that place if there is none; it goes over a number
character by character, and back to the exponent letter if no digit follows it.
-/

namespace BarReplay

namespace Text

/-- The text from a position on, if a character starts there or the text ends there. -/
def fromByte? : List Char → Nat → Option (List Char)
  | cs, 0 => some cs
  | [], _ + 1 => none
  | c :: cs, n + 1 => if c.utf8Size ≤ n + 1 then fromByte? cs (n + 1 - c.utf8Size) else none

/-- The text up to a position, if a character ends there or the text starts there. -/
def upToByte? : List Char → Nat → Option (List Char)
  | _, 0 => some []
  | [], _ + 1 => none
  | c :: cs, n + 1 =>
    if c.utf8Size ≤ n + 1 then (upToByte? cs (n + 1 - c.utf8Size)).map (c :: ·) else none

end Text

/-- Why a reading ends without a rule. -/
inductive Halt where
  /-- The text is refused. -/
  | refused (error : ParseError)
  /-- The text was to be cut at a position that is not between two of its characters. -/
  | astray (position : Nat)
  deriving DecidableEq, Repr

/-- A part of a reading: from a position it goes to a result and another position, it halts, or it
does not come to an end. -/
abbrev Cursor :=
  StateT Nat (ExceptT Halt Option)

namespace Cursor

/-- The text is refused at a position. -/
def refuse {β : Type} (fault : ParseFault) (position : Nat) : Cursor β :=
  throw (.refused ⟨fault, position⟩)

/-- The reading does not come to an end. -/
def starve {β : Type} : Cursor β :=
  fun _ ↦ (none : Option (Except Halt (β × Nat)))

/-- A piece of text, or the end of the reading for want of it. -/
def cut (position : Nat) : Option (List Char) → Cursor (List Char)
  | some piece => pure piece
  | none => throw (.astray position)

section Reading

variable (text : List Char)

/-! ### Looking and moving -/

/-- The text from the position on. -/
def remaining : Cursor (List Char) := do
  let position ← get
  cut position (Text.fromByte? text position)

/-- The text between two positions. -/
def between (start stop : Nat) : Cursor (List Char) := do
  let piece ← cut start (Text.fromByte? text start)
  if start ≤ stop then cut stop (Text.upToByte? piece (stop - start)) else throw (.astray stop)

/-- The character at the position. -/
def peek : Cursor (Option Char) := do
  let cs ← remaining text
  pure cs.head?

/-- Moves past a number of bytes. -/
def skip (bytes : Nat) : Cursor Unit :=
  modify (· + bytes)

/-- Moves past one character, if there is one. -/
def advance : Cursor Unit := do
  match ← peek text with
  | some c => skip c.utf8Size
  | none => pure ()

/-- Moves past the character at the position, if there is one of this kind. -/
def pass (kind : Char → Bool) : Cursor Unit := do
  match ← peek text with
  | some c => if kind c then advance text else pure ()
  | none => pure ()

/-- Moves past blanks. -/
def skipBlanks : Nat → Cursor Unit
  | 0 => starve
  | depth + 1 => do
    match ← peek text with
    | some c =>
      if Text.isBlank c then
        advance text
        skipBlanks depth
      else pure ()
    | none => pure ()

/-- A keyword stands at the position, in either letter case, and no word goes on after it. -/
def atKeyword (word : List Char) : Cursor Bool := do
  let cs ← remaining text
  match Text.upToByte? cs (Text.byteLength word) with
  | none => pure false
  | some head =>
    if Text.asciiLower head = word then
      let rest ← cut (Text.byteLength word) (Text.fromByte? cs (Text.byteLength word))
      pure (!Text.startsWord rest)
    else pure false

/-- Moves past blanks, and past a keyword if it stands there. -/
def keyword (depth : Nat) (word : List Char) : Cursor Bool := do
  skipBlanks text depth
  if ← atKeyword text word then
    skip (Text.byteLength word)
    pure true
  else pure false

/-- What stands at the position, as a message shows it. -/
def found : Cursor (Option (List Char)) := do
  let cs ← remaining text
  pure (Rule.glimpse cs)

/-! ### Leaves -/

/-- Moves past digits and at most one point, and returns the number of digits. -/
def digits : Nat → Bool → Nat → Cursor Nat
  | 0, _, _ => starve
  | depth + 1, pointed, count => do
    match ← peek text with
    | some c =>
      if c.isDigit then
        advance text
        digits depth pointed (count + 1)
      else if c == '.' && !pointed then
        advance text
        digits depth true count
      else pure count
    | none => pure count

/-- Moves past the sign and the digits of an exponent, or back to `mark` if there are no digits. -/
def exponentDigits (mark : Nat) : Cursor Unit := do
  pass text fun c ↦ c == '-' || c == '+'
  let cs ← remaining text
  let count := (cs.takeWhile Char.isDigit).length
  if count = 0 then set mark else skip count

/-- Moves past an exponent, or stays at the position if there is none. -/
def exponent : Cursor Unit := do
  match ← peek text with
  | some c =>
    if c == 'e' || c == 'E' then
      let mark ← get
      advance text
      exponentDigits text mark
    else pure ()
  | none => pure ()

/-- The number between two positions, before a word that should not be there or before none. -/
def numberBetween (start stop : Nat) (cs : List Char) : Cursor Float := do
  let taken ← between text start stop
  if Text.startsWord cs then refuse (.invalidNumber (taken ++ Text.headWord cs)) start
  else
    match Decimal.readFloat? taken with
    | some value => pure value
    | none => refuse (.invalidNumber taken) start

/-- A number. -/
def number (depth : Nat) : Cursor Float := do
  let start ← get
  pass text (· == '-')
  let count ← digits text depth false 0
  if count = 0 then refuse .missingDigits start
  else
    exponent text
    let cs ← remaining text
    let stop ← get
    numberBetween text start stop cs

/-- The field named by the word at the position. -/
def field : Cursor Field := do
  let position ← get
  let cs ← remaining text
  match Field.named? (Text.headWord cs) with
  | some field =>
    skip (Text.byteLength (Text.headWord cs))
    pure field
  | none => refuse (.unknownField (Text.headWord cs)) position

/-- Nothing that could be an operand stands at the position. -/
def noOperand : Cursor (Operand Float) := do
  refuse (.missingOperand (← found text)) (← get)

/-- A field or a number. -/
def operand (depth : Nat) : Cursor (Operand Float) := do
  skipBlanks text depth
  match ← peek text with
  | some c =>
    if Rule.startsNumber c then .constant <$> number text depth
    else if Rule.startsField c then .field <$> field text
    else noOperand text
  | none => noOperand text

/-- A comparison sign. -/
def sign (depth : Nat) : Cursor Comparison := do
  skipBlanks text depth
  let cs ← remaining text
  match Rule.sign? cs with
  | some (sign, _) =>
    skip (Text.byteLength sign.sign.toList)
    pure sign
  | none => refuse (.missingSign (← found text)) (← get)

/-- Two operands and the sign between them, at least one of them a field. -/
def comparison (depth : Nat) : Cursor (Expr Float) := do
  skipBlanks text depth
  let start ← get
  let left ← operand text depth
  let sign ← sign text depth
  let right ← operand text depth
  match left, right with
  | .constant _, .constant _ => refuse .constantComparison start
  | _, _ => pure (.compare left sign right)

/-- Moves past a closing bracket. -/
def closing (depth : Nat) : Cursor Unit := do
  skipBlanks text depth
  match ← peek text with
  | some c => if c == ')' then advance text else refuse (.unclosed (some c)) (← get)
  | none => refuse (.unclosed none) (← get)

/-! ### Phrases -/

/-- A literal or a comparison. -/
def plain (depth : Nat) : Cursor (Expr Float) := do
  if ← keyword text depth ['t', 'r', 'u', 'e'] then pure (.literal true)
  else if ← keyword text depth ['f', 'a', 'l', 's', 'e'] then pure (.literal false)
  else comparison text depth

mutual

/-- A chain of conjunctions. -/
def disjunction : Nat → Cursor (Expr Float)
  | 0 => starve
  | depth + 1 => do
    let left ← conjunction depth
    disjuncts depth left

/-- The conjunctions that follow `left` in a chain. -/
def disjuncts : Nat → Expr Float → Cursor (Expr Float)
  | 0, _ => starve
  | depth + 1, left => do
    if ← keyword text depth ['o', 'r'] then
      let right ← conjunction depth
      disjuncts depth (.or left right)
    else pure left

/-- A chain of factors. -/
def conjunction : Nat → Cursor (Expr Float)
  | 0 => starve
  | depth + 1 => do
    let left ← factor depth
    conjuncts depth left

/-- The factors that follow `left` in a chain. -/
def conjuncts : Nat → Expr Float → Cursor (Expr Float)
  | 0, _ => starve
  | depth + 1, left => do
    if ← keyword text depth ['a', 'n', 'd'] then
      let right ← factor depth
      conjuncts depth (.and left right)
    else pure left

/-- A negation, a rule in brackets, a literal or a comparison. -/
def factor : Nat → Cursor (Expr Float)
  | 0 => starve
  | depth + 1 => do
    if ← keyword text depth ['n', 'o', 't'] then
      let inner ← factor depth
      pure (.not inner)
    else
      skipBlanks text depth
      if (← peek text) == some '(' then
        advance text
        let inner ← disjunction depth
        closing text depth
        pure inner
      else plain text depth

end

/-- Reads a text that is one rule and nothing else. -/
def rule (depth : Nat) : Cursor (Expr Float) := do
  skipBlanks text depth
  if Text.byteLength text ≤ (← get) then refuse .emptyRule 0
  else
    let e ← disjunction text depth
    skipBlanks text depth
    if Text.byteLength text ≤ (← get) then pure e
    else refuse (.trailing (← found text)) (← get)

end Reading

end Cursor

/-- The rule that a text is, read by position from the start of the text and no deeper than the
bound. -/
def Expr.parseByPosition (depth : Nat) (text : String) : Option (Except Halt (Expr Float)) :=
  (Cursor.rule text.toList depth |>.run' 0).run

end BarReplay
