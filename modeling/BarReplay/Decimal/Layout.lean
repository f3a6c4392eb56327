import BarReplay.Decimal.Shortest

/-!
# Decimal text

The texts of a double: its shortest digits under a layout, and its exact value rounded to a fixed
number of places.
-/

namespace BarReplay.Decimal

/-! ### Layouts of decimal text

A layout says how the shortest digits of a double are written. Two are used. In messages and in the
text of rules a number is always positional: all digits of a large number are written, and a whole
number has no point. In reports a number between `1e-5` and `1e16` is positional with at least one
digit after the point, and any other has an exponent with its sign.
-/

/-- How a finite double is written. -/
structure Layout where
  /-- The choice between two equally near decimals. -/
  tie : Tie
  /-- The least and the greatest exponent of the leading digit for which the number is written
  positionally; all exponents when absent. -/
  positional : Option (Int × Int)
  /-- Whole numbers are written with a zero after the point. -/
  keepsPoint : Bool

/-- Numbers in messages and rules. -/
def Layout.message : Layout :=
  { tie := .up, positional := none, keepsPoint := false }

/-- Numbers in reports. -/
def Layout.report : Layout :=
  { tie := .even, positional := some (-5, 15), keepsPoint := true }

/-- The decimal digits of a natural number, most significant first. -/
def digitsOf (n : Nat) : List Char :=
  Nat.toDigits 10 n

/-- `n` zeros. -/
def zeros (n : Nat) : List Char :=
  List.replicate n '0'

/-- Positional text of `coefficient * 10 ^ exponent`. -/
def positionalText (keepsPoint : Bool) (d : Digits) : List Char :=
  let ds := digitsOf d.coefficient
  let point : Int := ds.length + d.exponent
  if 0 ≤ d.exponent then
    ds ++ zeros d.exponent.toNat ++ (if keepsPoint then ['.', '0'] else [])
  else if 0 < point then ds.take point.toNat ++ '.' :: ds.drop point.toNat
  else '0' :: '.' :: zeros (-point).toNat ++ ds

/-- Text with an exponent: one digit, the others after a point, and the exponent of the first. -/
def exponentText (d : Digits) : List Char :=
  let ds := digitsOf d.coefficient
  let lead : Int := ds.length + d.exponent - 1
  let mantissa :=
    match ds with
    | c :: [] => [c]
    | c :: rest => c :: '.' :: rest
    | [] => []
  mantissa ++ 'e' :: (if lead < 0 then '-' else '+') :: digitsOf lead.natAbs

/-- The text of a magnitude under a layout. -/
def Layout.magnitude (layout : Layout) (d : Digits) : List Char :=
  let lead : Int := (digitsOf d.coefficient).length + d.exponent - 1
  match layout.positional with
  | none => positionalText layout.keepsPoint d
  | some (least, greatest) =>
    if least ≤ lead ∧ lead ≤ greatest then positionalText layout.keepsPoint d
    else exponentText d

/-- The text of a finite double under a layout. -/
def Layout.finite (layout : Layout) (x : Float) : List Char :=
  (if isNegative x then ['-'] else []) ++ layout.magnitude (shortest layout.tie x)

/-- The text of any double in a message. -/
def messageChars (x : Float) : List Char :=
  if x.isNaN then ['N', 'a', 'N']
  else if x.isInf then (if isNegative x then ['-', 'i', 'n', 'f'] else ['i', 'n', 'f'])
  else Layout.message.finite x

/-- The text of any double in a message, as a string. -/
def messageText (x : Float) : String :=
  String.ofList (messageChars x)

/-! ### A fixed number of places

The exact value of a double is rounded to a whole number of units `10 ^ -places`, a tie going to
the even neighbour. The sign is that of the double, also when nothing else of it is left.
-/

/-- The whole number nearest to `num / den`, of two equally near ones the even one. -/
def roundEven (num den : Nat) : Nat :=
  let q := num / den
  let r := num % den
  if 2 * r < den then q
  else if den < 2 * r then q + 1
  else if q % 2 = 0 then q else q + 1

/-- A magnitude in units of `10 ^ -places`. -/
def Binary.inUnits (b : Binary) (places : Nat) : Nat :=
  roundEven (b.significand * tenTo places * twoTo b.exponent.toNat) (twoTo (-b.exponent).toNat)

/-- The text of `n * 10 ^ -places`, with a digit before the point. -/
def placedText (places n : Nat) : List Char :=
  let ds := digitsOf n
  let padded := zeros (places + 1 - ds.length) ++ ds
  let whole := padded.length - places
  padded.take whole ++ (if places = 0 then [] else '.' :: padded.drop whole)

/-- The text of a double with a fixed number of places. -/
def fixedText (places : Nat) (x : Float) : String :=
  if x.isNaN then "NaN"
  else if x.isInf then (if isNegative x then "-inf" else "inf")
  else
    String.ofList ((if isNegative x then ['-'] else []) ++
      placedText places ((Binary.ofFloat x).inUnits places))

end BarReplay.Decimal
