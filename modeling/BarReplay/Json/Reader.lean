import BarReplay.Json.Value

/-!
# Reading JSON

The grammar of RFC 8259, without extensions: no comma before a closing bracket, no leading zero or
plus sign, and no raw control character in a string. The escape of half a surrogate pair keeps to
the grammar, also where the other half is missing; a string that holds one is read, but it denotes
no text. Reading descends on the length of the text: every reader returns a rest that is shorter.
-/

namespace BarReplay.Json

/-- A rest of a text that is shorter than the text. -/
abbrev Rest (cs : List Char) :=
  { r : List Char // r.length < cs.length }

/-- The four characters that may stand between the parts of a value. -/
def isGap (c : Char) : Bool :=
  c == ' ' || c == '\n' || c == '\r' || c == '\t'

/-- The text from its first part on. -/
def skipGap (cs : List Char) : List Char :=
  cs.dropWhile isGap

theorem skipGap_length_le (cs : List Char) : (skipGap cs).length ≤ cs.length :=
  (List.dropWhile_sublist _).length_le

/-- What follows a character that stands behind a gap is shorter than the whole. -/
theorem length_lt_of_skipGap {cs rest : List Char} {c : Char} (h : skipGap cs = c :: rest) :
    rest.length < cs.length := by
  have hle := skipGap_length_le cs
  rw [h, List.length_cons] at hle
  omega

/-- The number that a hexadecimal digit denotes. -/
def hexValue? (c : Char) : Option Nat :=
  if c.isDigit then some (c.toNat - '0'.toNat)
  else if 'a' ≤ c ∧ c ≤ 'f' then some (c.toNat - 'a'.toNat + 10)
  else if 'A' ≤ c ∧ c ≤ 'F' then some (c.toNat - 'A'.toNat + 10)
  else none

/-- The code unit written with four hexadecimal digits. -/
def unit? (a b c d : Char) : Option Nat := do
  let a ← hexValue? a
  let b ← hexValue? b
  let c ← hexValue? c
  let d ← hexValue? d
  some (((a * 16 + b) * 16 + c) * 16 + d)

/-- The unit is the first half of a surrogate pair. -/
def isLead (u : Nat) : Bool :=
  decide (0xD800 ≤ u) && decide (u < 0xDC00)

/-- The unit is the second half of a surrogate pair. -/
def isTrail (u : Nat) : Bool :=
  decide (0xDC00 ≤ u) && decide (u < 0xE000)

/-- The character that the letter after a backslash stands for. -/
def shortEscape? : Char → Option Char
  | '"' => some '"'
  | '\\' => some '\\'
  | '/' => some '/'
  | 'b' => some '\x08'
  | 'f' => some '\x0c'
  | 'n' => some '\n'
  | 'r' => some '\r'
  | 't' => some '\t'
  | _ => none

/-- The second half of a surrogate pair as an escape at the head of a text, and the rest. -/
def trail? : List Char → Option (Nat × List Char)
  | '\\' :: 'u' :: a :: b :: c :: d :: rest =>
    ((unit? a b c d).filter isTrail).map fun u ↦ (u, rest)
  | _ => none

theorem trail?_length {cs rest : List Char} {u : Nat} (h : trail? cs = some (u, rest)) :
    rest.length < cs.length := by
  unfold trail? at h
  split at h
  · simp only [Option.map_eq_some_iff, Prod.mk.injEq] at h
    obtain ⟨_, -, -, rfl⟩ := h
    simp only [List.length_cons]
    omega
  · simp at h

/-- The character that the halves of a surrogate pair stand for. -/
def paired (lead trail : Nat) : Char :=
  Char.ofNat (0x10000 + (lead - 0xD800) * 0x400 + (trail - 0xDC00))

/-- The character after a backslash and a `u`, and the rest. Half a pair is no character. -/
def longEscape? : List Char → Option (Option Char × List Char)
  | a :: b :: c :: d :: rest => do
    let u ← unit? a b c d
    if isLead u then
      match trail? rest with
      | some (v, rest) => some (some (paired u v), rest)
      | none => some (none, rest)
    else some (if isTrail u then none else some (Char.ofNat u), rest)
  | _ => none

theorem longEscape?_length {cs rest : List Char} {c : Option Char}
    (h : longEscape? cs = some (c, rest)) : rest.length < cs.length := by
  unfold longEscape? at h
  split at h
  · simp only [Option.bind_eq_bind, Option.bind_eq_some_iff] at h
    obtain ⟨u, -, h⟩ := h
    split at h
    · split at h
      · rename_i htrail
        have hlen := trail?_length htrail
        simp only [Option.some.injEq, Prod.mk.injEq] at h
        obtain ⟨-, rfl⟩ := h
        simp only [List.length_cons]
        omega
      · simp only [Option.some.injEq, Prod.mk.injEq] at h
        obtain ⟨-, rfl⟩ := h
        simp only [List.length_cons]
        omega
    · simp only [Option.some.injEq, Prod.mk.injEq] at h
      obtain ⟨-, rfl⟩ := h
      simp only [List.length_cons]
      omega
  · simp at h

/-- A text with a character before it. There is none if either is missing. -/
def consText (c : Option Char) (text : Option (List Char)) : Option (List Char) := do
  some ((← c) :: (← text))

/-- The text of a string after its opening quote, if it denotes one, and what follows its closing
quote. -/
def scanString? (cs : List Char) : Option (Option (List Char) × Rest cs) :=
  match cs with
  | [] => none
  | '"' :: rest => some (some [], ⟨rest, by simp⟩)
  | '\\' :: 'u' :: rest =>
    match h : longEscape? rest with
    | none => none
    | some (c, rest') =>
      have := longEscape?_length h
      match scanString? rest' with
      | none => none
      | some (text, ⟨r, hr⟩) => some (consText c text, ⟨r, by simp only [List.length_cons]; omega⟩)
  | '\\' :: e :: rest =>
    match shortEscape? e with
    | none => none
    | some c =>
      match scanString? rest with
      | none => none
      | some (text, ⟨r, hr⟩) => some (consText c text, ⟨r, by simp only [List.length_cons]; omega⟩)
  | c :: rest =>
    if c.toNat < 0x20 ∨ c = '\\' then none
    else
      match scanString? rest with
      | none => none
      | some (text, ⟨r, hr⟩) => some (consText c text, ⟨r, by simp only [List.length_cons]; omega⟩)
termination_by cs.length

/-- The whole part of a number: a zero, or digits that do not start with one. -/
def scanWhole? (cs : List Char) : Option (List Char × List Char) :=
  match Decimal.scanDigits cs with
  | ([], _) => none
  | ('0' :: _ :: _, _) => none
  | (ds, rest) => some (ds, rest)

/-- The fraction of a number with its point, if one follows. -/
def scanPoint? (cs : List Char) : Option (List Char × List Char) :=
  match cs with
  | '.' :: rest =>
    match Decimal.scanDigits rest with
    | ([], _) => none
    | (ds, rest) => some ('.' :: ds, rest)
  | _ => some ([], cs)

/-- The exponent of a number with its letter and sign, if one follows. -/
def scanPower? (cs : List Char) : Option (List Char × List Char) :=
  match cs with
  | c :: rest =>
    if c = 'e' ∨ c = 'E' then
      let (sign, ds) :=
        match rest with
        | '+' :: ds => (['+'], ds)
        | '-' :: ds => (['-'], ds)
        | _ => ([], rest)
      match Decimal.scanDigits ds with
      | ([], _) => none
      | (ds, rest) => some (c :: sign ++ ds, rest)
    else some ([], cs)
  | [] => some ([], [])

/-- The text of a number, and the rest. -/
def scanNumber? (cs : List Char) : Option (List Char × List Char) := do
  let (sign, cs) :=
    match cs with
    | '-' :: rest => (['-'], rest)
    | _ => ([], cs)
  let (whole, cs) ← scanWhole? cs
  let (point, cs) ← scanPoint? cs
  let (power, cs) ← scanPower? cs
  some (sign ++ whole ++ point ++ power, cs)

theorem scanWhole?_length {cs ds rest : List Char} (h : scanWhole? cs = some (ds, rest)) :
    rest.length < cs.length := by
  have hlen := Decimal.scanDigits_length cs
  unfold scanWhole? at h
  split at h
  · simp at h
  · simp at h
  · rename_i hnil _ hscan
    simp only [Option.some.injEq, Prod.mk.injEq] at h
    obtain ⟨rfl, rfl⟩ := h
    rw [hscan] at hlen
    have := List.length_pos_iff.2 hnil
    simp at hlen
    omega

theorem scanPoint?_length {cs ds rest : List Char} (h : scanPoint? cs = some (ds, rest)) :
    rest.length ≤ cs.length := by
  unfold scanPoint? at h
  split at h
  · rename_i tail
    have hlen := Decimal.scanDigits_length tail
    split at h
    · simp at h
    · rename_i hscan
      simp only [Option.some.injEq, Prod.mk.injEq] at h
      obtain ⟨-, rfl⟩ := h
      rw [hscan] at hlen
      simp at hlen ⊢
      omega
  · simp at h
    simp [h.2]

theorem scanPower?_length {cs ds rest : List Char} (h : scanPower? cs = some (ds, rest)) :
    rest.length ≤ cs.length := by
  unfold scanPower? at h
  split at h
  · rename_i c tail
    split at h
    · split at h
      rename_i sign ds' hsign
      have hle : ds'.length ≤ tail.length := by
        split at hsign <;> (cases hsign; simp)
      have hlen := Decimal.scanDigits_length ds'
      split at h
      · simp at h
      · rename_i hscan
        simp only [Option.some.injEq, Prod.mk.injEq] at h
        obtain ⟨-, rfl⟩ := h
        rw [hscan] at hlen
        simp at hlen ⊢
        omega
    · simp at h
      simp [h.2]
  · simp at h
    simp [h.2]

/-- A number takes at least one character. -/
theorem scanNumber?_length {cs text rest : List Char} (h : scanNumber? cs = some (text, rest)) :
    rest.length < cs.length := by
  unfold scanNumber? at h
  simp only [Option.bind_eq_bind, Option.bind_eq_some_iff] at h
  obtain ⟨⟨whole, r⟩, hwhole, ⟨point, r'⟩, hpoint, ⟨power, r''⟩, hpower, h⟩ := h
  simp only [Option.some.injEq, Prod.mk.injEq] at h
  obtain ⟨-, rfl⟩ := h
  have h1 := scanWhole?_length hwhole
  have h2 := scanPoint?_length hpoint
  have h3 := scanPower?_length hpower
  have hle : (match cs with
      | '-' :: rest => (['-'], rest)
      | _ => (([] : List Char), cs)).2.length ≤ cs.length := by
    split <;> simp
  simp only at h1 h2 h3
  omega

/-- One of the three words that are values, and the rest. -/
def scanLiteral? (cs : List Char) : Option (Value × List Char) :=
  match cs with
  | 'n' :: 'u' :: 'l' :: 'l' :: rest => some (.null, rest)
  | 't' :: 'r' :: 'u' :: 'e' :: rest => some (.bool true, rest)
  | 'f' :: 'a' :: 'l' :: 's' :: 'e' :: rest => some (.bool false, rest)
  | _ => none

theorem scanLiteral?_length {cs rest : List Char} {v : Value}
    (h : scanLiteral? cs = some (v, rest)) : rest.length < cs.length := by
  unfold scanLiteral? at h
  split at h <;> simp at h <;> obtain ⟨-, rfl⟩ := h <;> simp only [List.length_cons] <;> omega

/-- What stands in a text before a rest of it. -/
def upTo (cs rest : List Char) : List Char :=
  cs.take (cs.length - rest.length)

/-- The string that opens before `cs` and closes before `rest`. -/
def stringOf (cs rest : List Char) : Option (List Char) → Value
  | some text => .string (String.ofList text)
  | none => .unpaired ('"' :: upTo cs rest)

/-- The object that opens before `cs` and closes before `rest`. -/
def objectOf (cs rest : List Char) : Option (List (String × Value)) → Value
  | some entries => .object entries
  | none => .unpaired ('\x7b' :: upTo cs rest)

/-- Entries with one more before them. There are none if either key denotes no text. -/
def consEntry (key : Option (List Char)) (v : Value) (entries : Option (List (String × Value))) :
    Option (List (String × Value)) := do
  some ((String.ofList (← key), v) :: (← entries))

/-- A literal, a number or a string at the head of a text. -/
def scanScalar? (cs : List Char) : Option (Value × Rest cs) :=
  match cs with
  | [] => none
  | '"' :: rest =>
    match scanString? rest with
    | none => none
    | some (text, ⟨r, hr⟩) =>
      some (stringOf rest r text, ⟨r, by simp only [List.length_cons]; omega⟩)
  | c :: rest =>
    match hlit : scanLiteral? (c :: rest) with
    | some (v, r) => some (v, ⟨r, scanLiteral?_length hlit⟩)
    | none =>
      match hnum : scanNumber? (c :: rest) with
      | some (text, r) => some (.number text, ⟨r, scanNumber?_length hnum⟩)
      | none => none

mutual

/-- A value, after a gap. -/
def scanValue? (cs : List Char) : Option (Value × Rest cs) :=
  match hgap : skipGap cs with
  | '[' :: rest =>
    have hrest : rest.length < cs.length := length_lt_of_skipGap hgap
    match hend : skipGap rest with
    | ']' :: r =>
      some (.array [], ⟨r, Nat.lt_trans (length_lt_of_skipGap hend) hrest⟩)
    | _ =>
      match scanItems? rest with
      | none => none
      | some (items, ⟨r, hr⟩) => some (.array items, ⟨r, Nat.lt_trans hr hrest⟩)
  | '\x7b' :: rest =>
    have hrest : rest.length < cs.length := length_lt_of_skipGap hgap
    match hend : skipGap rest with
    | '\x7d' :: r =>
      some (.object [], ⟨r, Nat.lt_trans (length_lt_of_skipGap hend) hrest⟩)
    | _ =>
      match scanEntries? rest with
      | none => none
      | some (entries, ⟨r, hr⟩) => some (objectOf rest r entries, ⟨r, Nat.lt_trans hr hrest⟩)
  | text =>
    match scanScalar? text with
    | none => none
    | some (v, ⟨r, hr⟩) =>
      some (v, ⟨r, Nat.lt_of_lt_of_le hr (hgap ▸ skipGap_length_le cs)⟩)
termination_by (cs.length, 1)

/-- The items of an array from one of them on, to the closing bracket. -/
def scanItems? (cs : List Char) : Option (List Value × Rest cs) :=
  match scanValue? cs with
  | none => none
  | some (v, ⟨rest, hrest⟩) =>
    match hgap : skipGap rest with
    | ',' :: more =>
      have hmore : more.length < cs.length := Nat.lt_trans (length_lt_of_skipGap hgap) hrest
      match scanItems? more with
      | none => none
      | some (items, ⟨r, hr⟩) => some (v :: items, ⟨r, Nat.lt_trans hr hmore⟩)
    | ']' :: r => some ([v], ⟨r, Nat.lt_trans (length_lt_of_skipGap hgap) hrest⟩)
    | _ => none
termination_by (cs.length, 2)

/-- The entries of an object from one of them on, if all their keys denote texts, to the closing
bracket. -/
def scanEntries? (cs : List Char) : Option (Option (List (String × Value)) × Rest cs) :=
  match hkey : skipGap cs with
  | '"' :: text =>
    have htext : text.length < cs.length := length_lt_of_skipGap hkey
    match scanString? text with
    | none => none
    | some (key, ⟨afterKey, hafter⟩) =>
      match hcolon : skipGap afterKey with
      | ':' :: afterColon =>
        have hvalue : afterColon.length < cs.length :=
          Nat.lt_trans (Nat.lt_trans (length_lt_of_skipGap hcolon) hafter) htext
        match scanValue? afterColon with
        | none => none
        | some (v, ⟨rest, hrest⟩) =>
          match hgap : skipGap rest with
          | ',' :: more =>
            have hmore : more.length < cs.length :=
              Nat.lt_trans (Nat.lt_trans (length_lt_of_skipGap hgap) hrest) hvalue
            match scanEntries? more with
            | none => none
            | some (entries, ⟨r, hr⟩) =>
              some (consEntry key v entries, ⟨r, Nat.lt_trans hr hmore⟩)
          | '\x7d' :: r =>
            some (consEntry key v (some []),
              ⟨r, Nat.lt_trans (Nat.lt_trans (length_lt_of_skipGap hgap) hrest) hvalue⟩)
          | _ => none
      | _ => none
  | _ => none
termination_by (cs.length, 2)

end

/-- The value that a text is, with nothing but gaps around it. -/
def Value.read? (text : String) : Option Value :=
  match scanValue? text.toList with
  | some (v, ⟨rest, _⟩) => if (skipGap rest).isEmpty then some v else none
  | none => none

/-- The value at the head of a text and the rest of the text, if the numbers of the value are all
finite as doubles, its strings are all texts and its brackets are not nested too deeply. -/
def Value.scanSound? (text : String) : Option (Value × List Char) :=
  match scanValue? text.toList with
  | some (v, ⟨rest, _⟩) => if v.isSound depthLimit then some (v, rest) else none
  | none => none

end BarReplay.Json
