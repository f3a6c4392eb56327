/-!
# Texts and bytes

Texts arrive as bytes, and positions in them are counted in bytes.
-/

namespace BarReplay.Text

/-! ### UTF-8

A sequence of bytes is decoded one character at a time. Where no character can be decoded, decoding
stops, and the number of bytes decoded so far says where. Overlong forms, surrogates and code points
beyond the last plane are no characters.
-/

/-- The six low bits of a continuation byte. -/
def continuation? (b : UInt8) : Option Nat :=
  if 0x80 ≤ b ∧ b < 0xC0 then some (b.toNat - 0x80) else none

/-- The character with a code point, if it is one of at least `least`. -/
def charFrom? (least n : Nat) : Option Char :=
  if least ≤ n ∧ n.isValidChar then some (Char.ofNat n) else none

/-- The character at the head of a sequence of bytes, and the rest. -/
def decodeChar? (bs : List UInt8) : Option (Char × { r : List UInt8 // r.length < bs.length }) :=
  match bs with
  | [] => none
  | b :: rest =>
    if b < 0x80 then some (Char.ofNat b.toNat, ⟨rest, by simp⟩)
    else if 0xC0 ≤ b ∧ b < 0xE0 then
      match rest with
      | c :: rest => do
        let c ← continuation? c
        let char ← charFrom? 0x80 ((b.toNat - 0xC0) * 64 + c)
        some (char, ⟨rest, by simp only [List.length_cons]; omega⟩)
      | _ => none
    else if 0xE0 ≤ b ∧ b < 0xF0 then
      match rest with
      | c :: d :: rest => do
        let c ← continuation? c
        let d ← continuation? d
        let char ← charFrom? 0x800 (((b.toNat - 0xE0) * 64 + c) * 64 + d)
        some (char, ⟨rest, by simp only [List.length_cons]; omega⟩)
      | _ => none
    else if 0xF0 ≤ b ∧ b < 0xF8 then
      match rest with
      | c :: d :: e :: rest => do
        let c ← continuation? c
        let d ← continuation? d
        let e ← continuation? e
        let char ← charFrom? 0x10000 ((((b.toNat - 0xF0) * 64 + c) * 64 + d) * 64 + e)
        some (char, ⟨rest, by simp only [List.length_cons]; omega⟩)
      | _ => none
    else none

/-- The text that bytes encode, or else the number of bytes before the first that belongs to no
character, counted from `done`. -/
def decodeFrom (done : Nat) (bs : List UInt8) : Except Nat (List Char) :=
  match bs with
  | [] => .ok []
  | b :: rest =>
    match decodeChar? (b :: rest) with
    | none => .error done
    | some (c, ⟨r, _⟩) => (decodeFrom (done + ((b :: rest).length - r.length)) r).map (c :: ·)
termination_by bs.length
decreasing_by assumption

/-- The text that bytes encode, or else the number of valid bytes before the first fault. -/
def decode (bs : List UInt8) : Except Nat (List Char) :=
  decodeFrom 0 bs

/-- The string that bytes encode. -/
def decodeString? (bs : List UInt8) : Option String :=
  (decode bs).toOption.map String.ofList

/-! ### Lengths in bytes

A position in a text is a number of bytes of its UTF-8 encoding. The encoding of a text is that of
its characters one after the other, so the position of a rest is what the part before it takes.
-/

/-- The number of bytes that a text takes in UTF-8. -/
def byteLength : List Char → Nat
  | [] => 0
  | c :: cs => c.utf8Size + byteLength cs

@[simp]
theorem byteLength_nil : byteLength [] = 0 :=
  rfl

@[simp]
theorem byteLength_cons (c : Char) (cs : List Char) :
    byteLength (c :: cs) = c.utf8Size + byteLength cs :=
  rfl

@[simp]
theorem byteLength_append (cs ds : List Char) :
    byteLength (cs ++ ds) = byteLength cs + byteLength ds := by
  induction cs with
  | nil => simp
  | cons c cs ih => simp [ih, Nat.add_assoc]

/-- The position at which `rest` begins in a text that ends with it. -/
def positionOf (cs rest : List Char) : Nat :=
  byteLength cs - byteLength rest

/-- A rest begins after the bytes of what stands before it. -/
theorem positionOf_append (done rest : List Char) :
    positionOf (done ++ rest) rest = byteLength done := by
  simp [positionOf]

end BarReplay.Text
