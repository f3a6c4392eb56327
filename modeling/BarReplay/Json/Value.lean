import BarReplay.Decimal.Numeral

/-!
# JSON values

Values of JSON documents, what the numbers among them are worth, and the records written as values.
-/

namespace BarReplay.Json

/-! ### Numbers of JSON documents

A number of a document is worth an integer of 64 bits, scaled by a power of ten in double
arithmetic. Of its digits the leading ones count, as many as 64 bits hold. The integer and the power
are each rounded to a double, and so is their product or quotient; the worth need not be the double
nearest to the number, but it is for an integer up to 2 ^ 53 and a power up to 10 ^ 22. A number
that would be infinite is worth nothing.
-/

namespace Number

/-- The integer that digits make when they are written behind `n`, for as many of them as 64 bits
hold, and how many digits are left over. -/
def fill (n : Nat) : List Char → Nat × Nat
  | [] => (n, 0)
  | d :: ds =>
    let m := 10 * n + (d.toNat - '0'.toNat)
    if m < Decimal.twoTo 64 then fill m ds else (n, ds.length + 1)

/-- The exponent of the largest power of ten that is a double. -/
def largestPower : Nat :=
  308

/-- A power of ten as a double. -/
def power (k : Nat) : Float :=
  Decimal.nearestFloat 1 k

/-- A double divided by a power of ten. A power that is no double is taken in steps, of which the
first are by the largest that is. -/
def lowered (x : Float) (k : Nat) : Float :=
  if x == 0 then x
  else if k ≤ largestPower then x / power k
  else lowered (x / power largestPower) (k - largestPower)
termination_by k
decreasing_by simp only [largestPower] at *; omega

/-- A double multiplied by a power of ten, if that is finite. -/
def raised? (x : Float) (k : Nat) : Option Float :=
  if x == 0 then some x
  else if k ≤ largestPower then (some (x * power k)).filter Float.isFinite
  else none

/-- A double scaled by a power of ten, if that is finite. -/
def scaled? (x : Float) : Int → Option Float
  | .ofNat k => raised? x k
  | .negSucc k => some (lowered x (k + 1))

/-- The worth of an unsigned number. Digits before the point that are left over raise the power of
ten; those behind it that are taken lower it. -/
def worth? (n : Decimal.Numeral) : Option Float :=
  let (m, above) := fill 0 n.whole
  let (m, below) := fill m n.fraction
  scaled? (Decimal.nearestFloat m 0) (n.exponent + above - (n.fraction.length - below : Nat))

/-- The worth of an unsigned number that is the whole of a text. -/
def readUnsigned? (text : List Char) : Option Float :=
  match Decimal.Numeral.scan? text with
  | some (n, []) => worth? n
  | _ => none

/-- The worth of a number that is the whole of a text. -/
def read? : List Char → Option Float
  | '-' :: text => (readUnsigned? text).map (- ·)
  | text => readUnsigned? text

end Number

/-! ### Values

A value keeps what its text says and no more: a number is the text of the number, and an object is
the list of its entries in order, repeated keys included. What a number is worth, and whether a
repeated key is an error, is for the reader of a document to decide.
-/

/-- A JSON value. -/
inductive Value where
  | null
  | bool (b : Bool)
  | number (text : List Char)
  | string (text : String)
  | array (items : List Value)
  | object (entries : List (String × Value))
  /-- A string that denotes no text, as half a surrogate pair stands in it alone, or an object with
  such a key. It is kept as it is written. -/
  | unpaired (source : List Char)
  deriving Repr

namespace Value

/-- The worth of a number, if it is finite as a double. -/
def toFloat? : Value → Option Float
  | number text => Number.read? text
  | _ => none

/-- A text. -/
def toText? : Value → Option String
  | string text => some text
  | _ => none

/-- A number or null. -/
def toOptionalFloat? : Value → Option (Option Float)
  | null => some none
  | v => v.toFloat?.map some

/-- A list of texts. -/
def toTexts? : Value → Option (List String)
  | array items => items.mapM toText?
  | _ => none

/-- The value of a key that an object may have at most once: nothing if the key is absent, and no
answer if it is repeated. -/
def entry? (entries : List (String × Value)) (key : String) : Option (Option Value) :=
  match entries.filter fun e ↦ e.1 == key with
  | [] => some none
  | [e] => some (some e.2)
  | _ => none

mutual

/-- Every number of the value is finite as a double, every string is a text, and no value lies
deeper than `depth` brackets. -/
def isSound (depth : Nat) : Value → Bool
  | number text => (number text).toFloat?.isSome
  | array items =>
    match depth with
    | 0 => false
    | depth + 1 => areSound depth items
  | object entries =>
    match depth with
    | 0 => false
    | depth + 1 => areSoundEntries depth entries
  | unpaired _ => false
  | _ => true

/-- Every value of the list is sound. -/
def areSound (depth : Nat) : List Value → Bool
  | [] => true
  | v :: rest => v.isSound depth && areSound depth rest

/-- Every value of the entries is sound. -/
def areSoundEntries (depth : Nat) : List (String × Value) → Bool
  | [] => true
  | (_, v) :: rest => v.isSound depth && areSoundEntries depth rest

end

/-- The number of brackets that may stand around a value in a document. -/
def depthLimit : Nat :=
  127

end Value

/-! ### Records in JSON

A record with fixed keys is written as an object, or as an array of its values in the order of the
keys. A key may be missing where the record has a standard for it, and must not be repeated; keys
that the record does not have are passed over.
-/

namespace Value

/-- The entries of a record with the given keys: those of an object, or the values of an array in
the order of the keys. -/
def record? (keys : List String) : Value → Option (List (String × Value))
  | .object entries => some entries
  | .array items => if items.length ≤ keys.length then some (keys.zip items) else none
  | _ => none

/-- The value under a key, read by `read?` if it is there. -/
def keyed? {β : Type} (entries : List (String × Value)) (key : String)
    (read? : Value → Option β) (default : β) : Option β := do
  match ← Value.entry? entries key with
  | some v => read? v
  | none => some default

end Value

end BarReplay.Json
