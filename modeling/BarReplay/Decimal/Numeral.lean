import BarReplay.Decimal.Shortest
import BarReplay.Text.LowerCase

/-!
# Reading numbers

A numeral is one run of digits with at most one point in or beside it, and an optional exponent.
Its value is the double nearest to the exact decimal; a number beyond the largest double reads as
infinite. `Numeral.scan?` takes the longest numeral at the head of a text: an `e` that no digit
follows is left in the rest. `readFloat?` reads a whole text, with a sign and the names of the
values that are no numbers.
-/

namespace BarReplay.Decimal

/-- The number that a list of digits denotes in base ten. -/
def valueOf (ds : List Char) : Nat :=
  ds.foldl (fun n d ↦ 10 * n + (d.toNat - '0'.toNat)) 0

/-- The double nearest to `coefficient * 10 ^ exponent`. Decimals of more than 310 places before
the point are infinite and those of more than 330 zeros after it vanish, so that the exact
computation is needed only between the two. -/
def nearestFloat (coefficient : Nat) (exponent : Int) : Float :=
  let places : Int := (Nat.toDigits 10 coefficient).length + exponent
  if coefficient = 0 then 0.0
  else if 310 < places then 1.0 / 0.0
  else if places < -330 then 0.0
  else Float.ofScientific coefficient (decide (exponent < 0)) exponent.natAbs

/-- An unsigned number as it is written. -/
structure Numeral where
  whole : List Char
  fraction : List Char
  exponent : Int
  deriving DecidableEq, Repr

/-- The double nearest to the number written. -/
def Numeral.toFloat (n : Numeral) : Float :=
  nearestFloat (valueOf (n.whole ++ n.fraction)) (n.exponent - n.fraction.length)

/-- The digits at the head of a text, and the rest. -/
def scanDigits (cs : List Char) : List Char × List Char :=
  (cs.takeWhile Char.isDigit, cs.dropWhile Char.isDigit)

/-- A fraction at the head of a text: a point and the digits that follow it, if any. -/
def scanFraction : List Char → List Char × List Char
  | '.' :: cs => scanDigits cs
  | cs => ([], cs)

/-- An exponent after its letter: a sign or none, and at least one digit. -/
def scanExponent? (cs : List Char) : Option (Int × List Char) :=
  let (negative, ds) :=
    match cs with
    | '-' :: rest => (true, rest)
    | '+' :: rest => (false, rest)
    | _ => (false, cs)
  match scanDigits ds with
  | ([], _) => none
  | (ds, rest) => some (if negative then -(valueOf ds : Int) else valueOf ds, rest)

/-- The longest numeral at the head of a text, and the rest. -/
def Numeral.scan? (cs : List Char) : Option (Numeral × List Char) :=
  let (whole, afterWhole) := scanDigits cs
  let (fraction, afterFraction) := scanFraction afterWhole
  if whole.isEmpty && fraction.isEmpty then none
  else
    match afterFraction with
    | c :: rest =>
      if c == 'e' || c == 'E' then
        match scanExponent? rest with
        | some (exponent, rest) => some (⟨whole, fraction, exponent⟩, rest)
        | none => some (⟨whole, fraction, 0⟩, afterFraction)
      else some (⟨whole, fraction, 0⟩, afterFraction)
    | [] => some (⟨whole, fraction, 0⟩, [])

theorem scanDigits_length (cs : List Char) :
    (scanDigits cs).1.length + (scanDigits cs).2.length = cs.length := by
  have h := congrArg List.length (List.takeWhile_append_dropWhile (p := Char.isDigit) (l := cs))
  rwa [List.length_append] at h

theorem scanFraction_length (cs : List Char) :
    (scanFraction cs).1.length + (scanFraction cs).2.length ≤ cs.length := by
  unfold scanFraction
  split
  · rename_i cs
    have := scanDigits_length cs
    simp; omega
  · simp

theorem scanExponent?_length {cs rest : List Char} {n : Int}
    (h : scanExponent? cs = some (n, rest)) : rest.length ≤ cs.length := by
  unfold scanExponent? at h
  split at h
  rename_i negative ds hds
  have hle : ds.length ≤ cs.length := by
    split at hds <;> (cases hds; simp)
  have hlen := scanDigits_length ds
  split at h
  · simp at h
  · rename_i hscan
    simp only [Option.some.injEq, Prod.mk.injEq] at h
    obtain ⟨-, rfl⟩ := h
    rw [hscan] at hlen
    simp at hlen
    omega

/-- A numeral takes at least one character. -/
theorem Numeral.scan?_length {cs rest : List Char} {n : Numeral}
    (h : Numeral.scan? cs = some (n, rest)) : rest.length < cs.length := by
  have hwhole := scanDigits_length cs
  have hfraction := scanFraction_length (scanDigits cs).2
  unfold Numeral.scan? at h
  simp only at h
  split at h
  · simp at h
  · rename_i hsome
    have hpos : 0 < (scanDigits cs).1.length + (scanFraction (scanDigits cs).2).1.length := by
      rcases hw : (scanDigits cs).1 with - | ⟨c, w⟩
      · rcases hf : (scanFraction (scanDigits cs).2).1 with - | ⟨c, f⟩
        · simp [hw, hf] at hsome
        · simp
      · simp only [List.length_cons]; omega
    split at h
    · rename_i c tail htail
      have hlen := congrArg List.length htail
      simp only [List.length_cons] at hlen
      split at h
      · split at h
        · rename_i hexp
          simp only [Option.some.injEq, Prod.mk.injEq] at h
          obtain ⟨-, rfl⟩ := h
          have := scanExponent?_length hexp
          omega
        · simp only [Option.some.injEq, Prod.mk.injEq] at h
          obtain ⟨-, rfl⟩ := h
          omega
      · simp only [Option.some.injEq, Prod.mk.injEq] at h
        obtain ⟨-, rfl⟩ := h
        omega
    · rename_i htail
      simp only [Option.some.injEq, Prod.mk.injEq] at h
      obtain ⟨-, rfl⟩ := h
      rw [htail] at hfraction
      simp at hfraction ⊢
      omega

/-- An unsigned number that is the whole of a text. -/
def readUnsigned? (cs : List Char) : Option Float :=
  let word := String.ofList (Text.asciiLower cs)
  if word = "inf" ∨ word = "infinity" then some (1.0 / 0.0)
  else if word = "nan" then some (0.0 / 0.0)
  else
    match Numeral.scan? cs with
    | some (n, []) => some n.toFloat
    | _ => none

/-- A number, with or without a sign, that is the whole of a text. -/
def readFloat? : List Char → Option Float
  | '-' :: cs => (readUnsigned? cs).map (- ·)
  | '+' :: cs => readUnsigned? cs
  | cs => readUnsigned? cs

/-- A whole number with an optional sign that is the whole of a text and fits 64 bits. -/
def readInt? (cs : List Char) : Option Int :=
  let (negative, ds) :=
    match cs with
    | '-' :: rest => (true, rest)
    | '+' :: rest => (false, rest)
    | _ => (false, cs)
  if ds.isEmpty || !ds.all Char.isDigit then none
  else
    let n : Int := if negative then -(valueOf ds : Int) else valueOf ds
    if -(twoTo 63 : Int) ≤ n ∧ n < twoTo 63 then some n else none

end BarReplay.Decimal
